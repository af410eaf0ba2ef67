import BellaLang.Number.Magnitude
import Mathlib.Algebra.Order.Field.Power
import Mathlib.Data.Nat.Cast.Field
import Mathlib.Data.Rat.Cast.Order
import Mathlib.Tactic.Linarith

/-!
Which doubles are natural numbers.

A finite double stands for a rational number (`Number.value`).  Whether it is a natural number is
decided on the bits, by a division without remainder and a look at the sign.  What is decided is
the right thing: a double is taken for the natural number `n` if it is finite and its value is `n`
(`natural?_eq_some_iff`).  So neither a fraction, nor a number below zero, nor an infinity or a NaN
is ever taken for one; and both zeros are taken for zero.
-/

namespace BellaLang.Number

open Float.Model

/-! ## The value of a double -/

/-- The rational number that a magnitude stands for. -/
def Magnitude.value (m : Magnitude) : ℚ := m.significand * (2 : ℚ) ^ m.exponent

/-- The rational number that a finite double stands for. -/
def value (x : Float) : ℚ := if isNegative x then -(magnitude x).value else (magnitude x).value

theorem Magnitude.value_nonneg (m : Magnitude) : 0 ≤ m.value := 
  mul_nonneg (Nat.cast_nonneg _) (zpow_nonneg zero_le_two _)

/-- The sign is the only difference between a double and its size. -/
theorem abs_value (y : Float) : |value y| = (magnitude y).value := by
  have hnonneg := (magnitude y).value_nonneg
  unfold value
  split
  · rw [abs_neg, abs_of_nonneg hnonneg]
  · exact abs_of_nonneg hnonneg

theorem Magnitude.value_eq_zero_iff (m : Magnitude) : m.value = 0 ↔ m.significand = 0 := by
  have hpower : (2 : ℚ) ^ m.exponent ≠ 0 := zpow_ne_zero _ two_ne_zero
  unfold Magnitude.value
  rw [mul_eq_zero, or_iff_left hpower, Nat.cast_eq_zero]

/-! ## Whole magnitudes -/

theorem cast_twoTo (n : Nat) : ((twoTo n : Nat) : ℚ) = 2 ^ n := by
  induction n with
  | zero => rfl
  | succ n ih =>
    have hnext : twoTo (n + 1) = twoTo n * 2 := rfl
    rw [hnext, Nat.cast_mul, ih, pow_succ]
    rfl

theorem cast_twoTo_ne_zero (n : Nat) : ((twoTo n : Nat) : ℚ) ≠ 0 := by
  rw [cast_twoTo]
  exact pow_ne_zero n two_ne_zero

/-- The value is a quotient of naturals, and one of the two powers is one. -/
theorem Magnitude.value_eq_div (m : Magnitude) :
    m.value = ((m.significand * twoTo m.exponent.toNat : Nat) : ℚ) /
      (twoTo (-m.exponent).toNat : Nat) := by
  have hexponent : m.exponent = (m.exponent.toNat : Int) - ((-m.exponent).toNat : Int) := by omega
  unfold Magnitude.value
  rw [Nat.cast_mul, cast_twoTo, cast_twoTo]
  conv_lhs => rw [hexponent]
  rw [zpow_sub₀ two_ne_zero, zpow_natCast, zpow_natCast, mul_div_assoc]

/-- A whole magnitude is its whole part. -/
theorem Magnitude.value_eq_floor {m : Magnitude} (h : m.isWhole = true) : m.value = m.floor := by
  have hdvd : twoTo (-m.exponent).toNat ∣ m.significand := Nat.dvd_of_mod_eq_zero (beq_iff_eq.mp h)
  have hpos := cast_twoTo_ne_zero (-m.exponent).toNat
  rw [m.value_eq_div, Magnitude.floor, Nat.cast_div (hdvd.mul_right _) hpos]

/-- A magnitude that stands for a natural number is whole. -/
theorem Magnitude.isWhole_of_value_eq {m : Magnitude} {n : Nat} (h : m.value = n) :
    m.isWhole = true := by
  refine beq_iff_eq.mpr ?_
  rcases Int.le_total 0 m.exponent with hexponent | hexponent
  · have hzero : (-m.exponent).toNat = 0 := by omega
    rw [hzero]
    exact Nat.mod_one _
  · have hpos := cast_twoTo_ne_zero (-m.exponent).toNat
    have hzero : m.exponent.toNat = 0 := by omega
    have hone : m.significand * twoTo 0 = m.significand := Nat.mul_one _
    rw [m.value_eq_div, hzero, hone, div_eq_iff hpos, ← Nat.cast_mul] at h
    rw [Nat.cast_injective h]
    exact Nat.mul_mod_left _ _

/-- A double is whole if it stands for an integer. -/
theorem isWhole_iff {y : Float} (hy : isFinite y = true) :
    isWhole y = true ↔ ∃ n : Int, value y = n := by
  rw [isWhole, hy, Bool.true_and]
  constructor
  · intro h
    have hfloor := Magnitude.value_eq_floor h
    unfold value
    split
    · exact ⟨-(magnitude y).floor, by rw [hfloor]; push_cast; rfl⟩
    · exact ⟨(magnitude y).floor, by rw [hfloor]; push_cast; rfl⟩
  · rintro ⟨n, hn⟩
    have habs : (magnitude y).value = n.natAbs := by
      rw [← abs_value, hn, Nat.cast_natAbs, Int.cast_abs]
    exact Magnitude.isWhole_of_value_eq habs

theorem isWhole_eq_false_iff {y : Float} (hy : isFinite y = true) :
    isWhole y = false ↔ ∀ n : Int, value y ≠ n := by
  rw [← Bool.not_eq_true, isWhole_iff hy, not_exists]

/-! ## Zeros -/

theorem unpackExponent_toNat (x : Float) :
    (@UnpackedFloat.unpackExponent Format.binary64 x.toBits.toBitVec).toNat =
      x.toBits.toNat / twoTo 52 % twoTo 11 := by
  rw [UnpackedFloat.unpackExponent, BitVec.toNat_cast, BitVec.extractLsb_toNat,
    Nat.shiftRight_eq_div_pow]
  rfl

theorem unpackMantissa_toNat (x : Float) :
    (@UnpackedFloat.unpackMantissa Format.binary64 x.toBits.toBitVec).toNat =
      x.toBits.toNat % twoTo 52 := by
  rw [UnpackedFloat.unpackMantissa, BitVec.toNat_cast, BitVec.extractLsb_toNat]
  rfl

/-- What is finite is finite, whatever the proof in it is. -/
theorem exists_finite {sign : UnpackedFloat.Sign} {m : Nat} {e : Int} {hm : 0 < m} {P : Prop}
    (h : P) : ∃ sign' m' e' hm',
      UnpackedFloat.finite sign m e hm = UnpackedFloat.finite sign' m' e' hm' ∧ P :=
  ⟨sign, m, e, hm, rfl, h⟩

/-- A finite double is unpacked as a zero or as a finite number, by its significand. -/
theorem unpack_of_isFinite {x : Float} (h : isFinite x = true) :
    (∃ sign, x.toModel.unpack = .zero sign ∧ (magnitude x).significand = 0) ∨
      ∃ sign m e hm, x.toModel.unpack = .finite sign m e hm ∧ 0 < (magnitude x).significand := by
  have hexponent := unpackExponent_toNat x
  have hmantissa := unpackMantissa_toNat x
  have hones : @UnpackedFloat.unpackExponent Format.binary64 x.toBits.toBitVec ≠ -1#_ := by
    intro hones
    rw [hones] at hexponent
    rw [isFinite, ← hexponent] at h
    exact absurd h (by decide)
  show (∃ sign, @UnpackedFloat.unpack Format.binary64 x.toBits.toBitVec = _ ∧ _) ∨
    ∃ sign m e hm, @UnpackedFloat.unpack Format.binary64 x.toBits.toBitVec = _ ∧ _
  unfold UnpackedFloat.unpack magnitude
  dsimp only
  rw [if_neg hones, ← hexponent, ← hmantissa]
  by_cases hsubnormal : @UnpackedFloat.unpackExponent Format.binary64 x.toBits.toBitVec = 0#_
  · have hnat : (@UnpackedFloat.unpackExponent Format.binary64 x.toBits.toBitVec).toNat = 0 :=
      congrArg BitVec.toNat hsubnormal
    rw [if_pos hsubnormal, if_pos hnat]
    by_cases hzero : @UnpackedFloat.unpackMantissa Format.binary64 x.toBits.toBitVec = 0#_
    · rw [dif_pos hzero]
      exact .inl ⟨_, rfl, congrArg BitVec.toNat hzero⟩
    · rw [dif_neg hzero]
      exact .inr (exists_finite (Nat.pos_of_ne_zero fun hnat => hzero (BitVec.eq_of_toNat_eq hnat)))
  · have hnat : (@UnpackedFloat.unpackExponent Format.binary64 x.toBits.toBitVec).toNat ≠ 0 :=
      fun hnat => hsubnormal (BitVec.eq_of_toNat_eq hnat)
    rw [if_neg hsubnormal, if_neg hnat]
    exact .inr (exists_finite (Nat.add_pos_left (Nat.two_pow_pos 52) _))

/-- A finite double equals zero if nothing is in its significand. -/
theorem beq_zero_iff {x : Float} (h : isFinite x = true) :
    (x == 0) = true ↔ (magnitude x).significand = 0 := by
  have hbeq : (x == 0) = x.toModel.unpack.beq (.zero .positive) := rfl
  rw [hbeq]
  rcases unpack_of_isFinite h with ⟨sign, hunpack, hzero⟩ | ⟨sign, m, e, hm, hunpack, hpos⟩
  · rw [hunpack, hzero]
    exact ⟨fun _ => rfl, fun _ => rfl⟩
  · rw [hunpack]
    have hne : ¬ (UnpackedFloat.finite sign m e hm).beq (.zero .positive) = true := by
      cases sign <;> exact Bool.false_ne_true
    exact ⟨fun hbeq => absurd hbeq hne, fun hzero => by omega⟩

/-- A finite double that is not zero has something in its significand. -/
theorem significand_pos {x : Float} (h : isFinite x = true) (hne : (x == 0) = false) :
    0 < (magnitude x).significand := by
  refine Nat.pos_of_ne_zero fun hzero => ?_
  rw [(beq_zero_iff h).mpr hzero] at hne
  cases hne

/-! ## Naturals -/

/-- **A double is taken for a natural number exactly if it is finite and has its value.** -/
theorem natural?_eq_some_iff (x : Float) (n : Nat) :
    natural? x = some n ↔ isFinite x = true ∧ value x = n := by
  unfold natural? isWhole value
  cases hfinite : isFinite x with
  | false =>
    rw [Bool.false_and, Bool.false_and, if_neg Bool.false_ne_true]
    exact ⟨nofun, fun h => nomatch h.1⟩
  | true =>
    have hzero := beq_zero_iff hfinite
    constructor
    · intro h
      obtain ⟨hguard, hfloor⟩ := Option.ite_none_right_eq_some.mp h
      obtain ⟨hwhole, hsign⟩ := Bool.and_eq_true_iff.mp hguard
      have hvalue : (magnitude x).value = n := by
        rw [Magnitude.value_eq_floor hwhole, Option.some.inj hfloor]
      refine ⟨rfl, ?_⟩
      cases hnegative : isNegative x with
      | false => exact hvalue
      | true =>
        rw [hnegative, Bool.not_true, Bool.or_false, hzero, ← Magnitude.value_eq_zero_iff] at hsign
        show -(magnitude x).value = n
        rw [← hvalue, hsign, neg_zero]
    · rintro ⟨-, hvalue⟩
      have hsize : (magnitude x).value = n ∧ ((x == 0) || !isNegative x) = true := by
        cases hnegative : isNegative x with
        | false =>
          rw [hnegative] at hvalue
          exact ⟨hvalue, Bool.or_true _⟩
        | true =>
          -- A number below zero is no natural number, so this is the negative zero.
          rw [hnegative, if_pos rfl] at hvalue
          have hnonneg := (magnitude x).value_nonneg
          have hnatural : (0 : ℚ) ≤ n := Nat.cast_nonneg n
          have hnone : (magnitude x).value = 0 := by linarith
          have hbeq := hzero.mpr ((magnitude x).value_eq_zero_iff.mp hnone)
          exact ⟨by linarith, by rw [hbeq]; rfl⟩
      have hwhole := Magnitude.isWhole_of_value_eq hsize.1
      have hfloor : ((magnitude x).floor : ℚ) = n := by
        rw [← Magnitude.value_eq_floor hwhole, hsize.1]
      rw [hwhole, hsize.2, Nat.cast_injective hfloor]
      rfl

end BellaLang.Number
