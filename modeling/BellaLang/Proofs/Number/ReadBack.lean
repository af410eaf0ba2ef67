import BellaLang.Proofs.Number.Nearest
import BellaLang.Proofs.Number.Numerals

/-!
What is written reads back.

The digits of a finite double are those of a decimal in its interval, and a decimal in the interval
of a double is read as this double.  So the numeral that a notation makes of a double stands for
its size, and with the sign put in front again for the double itself, to the last bit
(`read_unsigned`).  Only zero comes back without its sign where the notation does not show one.
-/

namespace BellaLang.Number

variable {style : Notation} {x : Float}

/-- The numeral of zero is read as zero. -/
theorem numeralValue_zero (hwhole : style.EndsWhole) (hzero : (x == 0) = true) :
    numeralValue (style.unsigned x) = 0 := by
  obtain ⟨whole, fraction, exponent, hnumeral, hvalue⟩ := Notation.writes_unsigned hwhole x
  have hdigits : (decimalOf whole fraction exponent).digits = 0 := by
    rw [decimal, if_pos hzero] at hvalue
    have hpower := (zpow_ten_pos (decimalOf whole fraction exponent).scale).ne'
    exact Nat.cast_eq_zero.mp ((mul_eq_zero.mp hvalue).resolve_right hpower)
  rw [hnumeral.numeralValue, nearest, hdigits, if_pos (.inl rfl)]

/-- The numeral of any other finite double is read as its size. -/
theorem numeralValue_unsigned (hwhole : style.EndsWhole) (hfinite : isFinite x = true)
    (hpos : 0 < (magnitude x).significand) :
    numeralValue (style.unsigned x) = (magnitude x).double .positive hpos := by
  have hne : (x == 0) = false := by
    refine Bool.eq_false_iff.mpr fun hzero => ?_
    exact Nat.ne_of_gt hpos ((beq_zero_iff hfinite).mp hzero)
  obtain ⟨whole, fraction, exponent, hnumeral, hvalue⟩ := Notation.writes_unsigned hwhole x
  rw [decimal, hne, if_neg Bool.false_ne_true] at hvalue
  rw [hnumeral.numeralValue]
  refine nearest_eq (isCanonical_magnitude hfinite) hpos ?_
  show (magnitude x).Holds (decimalOf whole fraction exponent).value
  rw [hvalue]
  exact Magnitude.holds_shortest hpos

/-- **What is written of a finite double reads back as this double.** -/
theorem read_unsigned (hwhole : style.EndsWhole) (hfinite : isFinite x = true)
    (hne : (x == 0) = false) :
    (if isNegative x then -numeralValue (style.unsigned x) else numeralValue (style.unsigned x)) =
      x := by
  have hpos := significand_pos hfinite hne
  rw [numeralValue_unsigned hwhole hfinite hpos]
  conv_rhs => rw [eq_double hfinite hpos]
  cases hnegative : isNegative x with
  | true =>
    rw [if_pos rfl, (isNegative_iff x).mp hnegative]
    exact Magnitude.neg_double (isCanonical_magnitude hfinite) .positive
  | false => rw [if_neg Bool.false_ne_true, sign_of_not_negative hnegative]

end BellaLang.Number
