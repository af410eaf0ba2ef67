import BellaLang.Proofs.Evaluation.Backtrace
import BellaLang.Proofs.Number.Comparing
import BellaLang.Proofs.Number.Ordering
import Mathlib.Analysis.SpecialFunctions.Pow.Real

/-!
Powers of negative numbers.

A negative number to a fraction is not real, so the hardware gives a NaN for it.  Here a complex
number is computed first, and only if that can be done is the answer a NaN: where its size is out of
range, infinity is the answer, as it is for the powers that are real.

The size of the complex number is the power of the size of the base.  Whether it is out of range, is
decided on the exponent of the leading bit where this suffices, which takes a rounded product and a
comparison.  That decision is sound: it is taken only where the size, as a real number, is out of
range indeed.

  1. The leading bit of the base shows a power of two that the size is not less than
     (`two_rpow_le_sizeOfPower`).
  2. The comparison that decides about this power of two is off by less than one, on the safe side
     (`powerOverflows_cases`).
  3. So the power is a NaN or infinity, and infinity only where the size is out of range
     (`power_of_negative`).

Main statement: `eval_power_of_negative`.
-/

namespace BellaLang.Number

open Float.Model Float.Model.UnpackedFloat

/-! ## The size of a power -/

section

variable {x y : Float}

/-- The exponent of the leading bit is that of the greatest power of two that is not greater. -/
theorem leadingExponent_spec (hx : isFinite x = true) (hne : (x == 0) = false) :
    (2 : ℚ) ^ leadingExponent x ≤ (magnitude x).value ∧
      (magnitude x).value < 2 ^ (leadingExponent x + 1) := by
  have hbounds := leadingBit_bounds (significand_pos hx hne).ne' (magnitude x).exponent
  have hleading : ((magnitude x).significand.log2 : Int) + (magnitude x).exponent =
      leadingExponent x := add_comm _ _
  have hnext : ((magnitude x).significand.log2 : Int) + 1 + (magnitude x).exponent =
      leadingExponent x + 1 := by omega
  rwa [hleading, hnext] at hbounds

/-- It is small. -/
theorem leadingExponent_bounds (hx : isFinite x = true) :
    -1074 ≤ leadingExponent x ∧ leadingExponent x ≤ 1023 := by
  have hcanonical := isCanonical_magnitude hx
  have hlog := log2_le_of_lt hcanonical.lt
  have hleast := hcanonical.least_le
  have hgreatest := hcanonical.le_greatest
  unfold leadingExponent
  omega

/-- The power of the size of a number, as a real number. -/
noncomputable def sizeOfPower (x y : Float) : ℝ := ((magnitude x).value : ℝ) ^ (value y : ℝ)

/-- The exponent of a power of two on one side of the size of `x`: below it, or above it if the
    exponent `y` is negative. -/
def boundingExponent (x y : Float) : Int :=
  if y < 0 then leadingExponent x + 1 else leadingExponent x

/-- The exponent of the power of two that the leading bit of `x` shows for `x` to the power `y`. -/
def shownExponent (x y : Float) : ℚ := boundingExponent x y * value y

theorem cast_two_zpow (k : Int) : (((2 : ℚ) ^ k : ℚ) : ℝ) = 2 ^ k := by
  rw [Rat.cast_zpow, Rat.cast_ofNat]

theorem two_zpow_rpow (k : Int) (v : ℝ) : ((2 : ℝ) ^ k) ^ v = 2 ^ (k * v : ℝ) := by
  rw [Real.rpow_mul zero_le_two, Real.rpow_intCast]

/-- **The leading bit shows what the power is not less than.** -/
theorem two_rpow_le_sizeOfPower (hx : isFinite x = true) (hne : (x == 0) = false)
    (hy : isFinite y = true) : (2 : ℝ) ^ (shownExponent x y : ℝ) ≤ sizeOfPower x y := by
  obtain ⟨hleast, hgreatest⟩ := leadingExponent_spec hx hne
  have hlower : (2 : ℝ) ^ leadingExponent x ≤ ((magnitude x).value : ℝ) := by
    rw [← cast_two_zpow]
    exact Rat.cast_le.mpr hleast
  have hupper : ((magnitude x).value : ℝ) ≤ 2 ^ (leadingExponent x + 1) := by
    rw [← cast_two_zpow]
    exact Rat.cast_le.mpr hgreatest.le
  have hpos : (0 : ℝ) < 2 ^ leadingExponent x := zpow_pos two_pos _
  have hvalue := lt_zero_iff_value hy
  rw [shownExponent, Rat.cast_mul, Rat.cast_intCast, ← two_zpow_rpow, sizeOfPower, boundingExponent]
  by_cases hnegative : y < 0
  · have hle : (value y : ℝ) ≤ 0 := by exact_mod_cast (hvalue.mp hnegative).le
    rw [if_pos hnegative]
    exact Real.rpow_le_rpow_of_nonpos (hpos.trans_le hlower) hupper hle
  · have hle : 0 ≤ (value y : ℝ) := by
      exact_mod_cast not_lt.mp fun hless => hnegative (hvalue.mpr hless)
    rw [if_neg hnegative]
    exact Real.rpow_le_rpow hpos.le hlower hle

/-! ## Powers of negative numbers -/

/-- The exponent that bounds a size is small. -/
theorem boundingExponent_small (hx : isFinite x = true) (y : Float) :
    (boundingExponent x y).natAbs < twoTo 53 := by
  have hsmall : 1075 < twoTo 53 := by decide
  obtain ⟨hleast, hgreatest⟩ := leadingExponent_bounds hx
  unfold boundingExponent
  split <;> omega

/-- **A power that is out of range** is so in the arithmetic of the language, or as a real number;
    and one that is not shows no exponent that is out of range. -/
theorem powerOverflows_cases (hx : isFinite x = true) (hxne : (x == 0) = false)
    (hy : isFinite y = true) (hyne : (y == 0) = false) :
    (powerOverflows x y = true ∧
      ((x.abs.pow y).isInf = true ∨ (2 : ℝ) ^ (1024 : ℝ) < sizeOfPower x y)) ∨
    (powerOverflows x y = false ∧ (x.abs.pow y).isInf = false ∧ shownExponent x y < 1025) := by
  have hsmall := boundingExponent_small hx y
  have hunfold : powerOverflows x y =
      (decide (Float.ofNat 1025 ≤ Float.ofInt (boundingExponent x y) * y) ||
        (x.abs.pow y).isInf) := rfl
  rw [hunfold]
  by_cases hshown : Float.ofNat 1025 ≤ Float.ofInt (boundingExponent x y) * y
  · have hgreater : ((1024 : Nat) : ℚ) < shownExponent x y :=
      lt_of_ofNat_le_mul (by decide) (by decide) hsmall hy hyne hshown
    have hreal : (1024 : ℝ) < (shownExponent x y : ℝ) := by exact_mod_cast hgreater
    rw [decide_eq_true hshown]
    refine .inl ⟨rfl, .inr ?_⟩
    calc (2 : ℝ) ^ (1024 : ℝ) < 2 ^ (shownExponent x y : ℝ) :=
          Real.rpow_lt_rpow_of_exponent_lt one_lt_two hreal
      _ ≤ sizeOfPower x y := two_rpow_le_sizeOfPower hx hxne hy
  · have hless : shownExponent x y < (1025 : Nat) := by
      by_contra hnot
      exact hshown (ofNat_le_mul_of_le (by decide) (by decide) hsmall hy hyne (not_lt.mp hnot))
    rw [decide_eq_false hshown, Bool.false_or]
    cases hpower : (x.abs.pow y).isInf with
    | true => exact .inl ⟨rfl, .inl rfl⟩
    | false => exact .inr ⟨rfl, rfl, hless⟩

/-- The size of a number to a power is out of range exactly if the hardware's power is. -/
theorem power_abs (hx : isFinite x = true) (hne : (x == 0) = false) (y : Float) :
    ∃ size, power x.abs y = .ok size ∧ size.isInf = (x.abs.pow y).isInf := by
  obtain ⟨hfinite, hsign, hneAbs, -⟩ := parts_abs hx hne
  have hnot : ¬ x.abs < 0 := by
    rw [lt_zero_iff hfinite, hsign]
    exact fun h => nomatch h.1
  have hhost : hostPower x.abs y =
      if (x.abs.pow y).isInf && (isFinite x.abs && isFinite y) then .error .overflow
      else .ok (.real (x.abs.pow y)) := by
    unfold hostPower
    rw [hneAbs, Bool.false_and, if_neg Bool.false_ne_true]
    exact if_neg fun h => hnot h.1
  unfold power
  rw [hhost]
  cases hrange : (x.abs.pow y).isInf && (isFinite x.abs && isFinite y) with
  | true =>
    refine ⟨infinity, ?_, ?_⟩
    · rw [if_pos rfl, decide_eq_false hnot]
      rfl
    · rw [(Bool.and_eq_true_iff.mp hrange).1]
      decide +kernel
  | false => exact ⟨x.abs.pow y, rfl, rfl⟩

/-- **A negative number to a fraction** is a NaN, except where its size is out of range: there it is
    infinity. -/
theorem power_of_negative (hx : isFinite x = true) (hnegative : x < 0) (hy : isFinite y = true)
    (hfraction : ∀ n : Int, value y ≠ n) :
    ∃ z size, power x y = .ok z ∧ power x.abs y = .ok size ∧
      ((z = nan ∧ size.isInf = false ∧ shownExponent x y < 1025) ∨
      (z = infinity ∧ (size.isInf = true ∨ (2 : ℝ) ^ (1024 : ℝ) < sizeOfPower x y))) := by
  have hxne := ((lt_zero_iff hx).mp hnegative).2
  have hwhole := (isWhole_eq_false_iff hy).mpr hfraction
  have hyne : (y == 0) = false := Bool.eq_false_iff.mpr fun h => by
    have hzero := (magnitude y).value_eq_zero_iff.mpr ((beq_zero_iff hy).mp h)
    rw [← abs_value, abs_eq_zero] at hzero
    exact hfraction 0 (by rw [hzero, Int.cast_zero])
  have hodd : isOdd y = false := by
    unfold isOdd
    rw [hwhole, Bool.false_and]
  have hcomplex : x < 0 ∧ isFinite x = true ∧ isFinite y = true ∧ (!isWhole y) = true := by
    refine ⟨hnegative, hx, hy, ?_⟩
    rw [hwhole]
    rfl
  have hhost : hostPower x y =
      if powerOverflows x y then .error .overflow else .ok .complex := by
    unfold hostPower
    rw [hxne, Bool.false_and, if_neg Bool.false_ne_true]
    exact if_pos hcomplex
  obtain ⟨size, hsize, hinf⟩ := power_abs hx hxne y
  rw [hsize]
  unfold power
  rw [hhost]
  rcases powerOverflows_cases hx hxne hy hyne with ⟨hover, hgreat⟩ | ⟨hfits, hrange, hshown⟩
  · -- The handler is meant for powers that are real, and does not ask whether this one is.
    rw [hover, if_pos rfl]
    rw [← hinf] at hgreat
    refine ⟨infinity, size, ?_, rfl, .inr ⟨rfl, hgreat⟩⟩
    show Except.ok (if (decide (x < 0) && isOdd y) = true then -infinity else infinity) = _
    rw [hodd, Bool.and_false]
    rfl
  · rw [hfits]
    exact ⟨nan, size, rfl, rfl, .inl ⟨rfl, hinf.trans hrange, hshown⟩⟩

end

end BellaLang.Number

namespace BellaLang

open BellaLang.Number

/-! ## Evaluating powers -/

section

variable {depth : Nat} {left right : Expr} {m m₁ m₂ : Machine} {x y : Float}

/-- Two operands with numbers for their values are computed with. -/
theorem Expr.evalWithin_arithmetic {op : String} {f : ArithmeticOp} {z : Float} (site : Site)
    (hop : BinaryOp.ofSymbol? op = some (.arithmetic f))
    (hleft : left.evalWithin depth m = (.ok (.number x), m₁))
    (hright : right.evalWithin depth m₁ = (.ok (.number y), m₂)) (hz : f.apply x y = .ok z) :
    (Expr.binary site op left right).evalWithin depth m = (.ok (.number z), m₂) := by
  unfold evalWithin at hleft hright
  unfold evalWithin evalWith
  rw [hop]
  dsimp only
  rw [Action.bind_apply_ok (numberFor_apply_ok rfl hleft),
    Action.bind_apply_ok (numberFor_apply_ok rfl hright)]
  unfold compute
  rw [hz]
  rfl

/-- **A negative number to the power of a fraction**: the operator gives a NaN only if the size of
    the number to this power, as the operator gives it, is no infinity, and the leading bit does not
    show that it is out of range.  In all other cases it gives infinity, and then that power is an
    infinity, or as a real number it is greater than any finite double. -/
theorem eval_power_of_negative (site : Site)
    (hleft : left.evalWithin depth m = (.ok (.number x), m₁))
    (hright : right.evalWithin depth m₁ = (.ok (.number y), m₂))
    (hx : isFinite x = true) (hnegative : x < 0) (hy : isFinite y = true)
    (hfraction : ∀ n : Int, value y ≠ n) :
    ∃ z size, (Expr.binary site "**" left right).evalWithin depth m = (.ok (.number z), m₂) ∧
      power x.abs y = .ok size ∧
      ((z = nan ∧ size.isInf = false ∧ shownExponent x y < 1025) ∨
      (z = infinity ∧ (size.isInf = true ∨ (2 : ℝ) ^ (1024 : ℝ) < sizeOfPower x y))) := by
  obtain ⟨z, size, hz, hsize, hcases⟩ := power_of_negative hx hnegative hy hfraction
  have heval : (Expr.binary site "**" left right).evalWithin depth m = (.ok (.number z), m₂) :=
    Expr.evalWithin_arithmetic (f := .power) site rfl hleft hright hz
  exact ⟨z, size, heval, hsize, hcases⟩

end

/-- The square root of minus eight. -/
theorem eval_power_of_negative_half :
    let left := Expr.unary none "-" (.numeral none 8)
    let right := Expr.numeral none 0.5
    let m := Machine.new .fresh
    (left.evalWithin 0 m = (.ok (.number (-8)), m) ∧
      right.evalWithin 0 m = (.ok (.number 0.5), m)) ∧
    (isFinite (-8) = true ∧ (-8 : Float) < 0 ∧ isFinite 0.5 = true ∧ ∀ n : Int, value 0.5 ≠ n) ∧
    ∃ z size, (Expr.binary none "**" left right).evalWithin 0 m = (.ok (.number z), m) ∧
      power (Float.abs (-8)) 0.5 = .ok size ∧
      ((z = nan ∧ size.isInf = false ∧ shownExponent (-8) 0.5 < 1025) ∨
      (z = infinity ∧ (size.isInf = true ∨ (2 : ℝ) ^ (1024 : ℝ) < sizeOfPower (-8) 0.5))) := by
  intro left right m
  have hx : isFinite (-8) = true := by decide +kernel
  have hnegative : (-8 : Float) < 0 := by decide +kernel
  have hy : isFinite 0.5 = true := by decide +kernel
  have hfraction := (isWhole_eq_false_iff hy).mp (by decide +kernel)
  exact ⟨⟨rfl, rfl⟩, ⟨hx, hnegative, hy, hfraction⟩,
    eval_power_of_negative none rfl rfl hx hnegative hy hfraction⟩

/-- A power of a negative number to a fraction that is out of range: it is infinity and no NaN. -/
theorem eval_power_out_of_range :
    let left := Expr.unary none "-" (.numeral none 1e300)
    let right := Expr.numeral none 1.5
    let m := Machine.new .fresh
    (left.evalWithin 0 m = (.ok (.number (-1e300)), m) ∧
      right.evalWithin 0 m = (.ok (.number 1.5), m)) ∧
    (isFinite (-1e300) = true ∧ (-1e300 : Float) < 0 ∧ isFinite 1.5 = true ∧
      ∀ n : Int, value 1.5 ≠ n) ∧
    (Expr.binary none "**" left right).evalWithin 0 m = (.ok (.number infinity), m) ∧
      infinity.isNaN = false := by
  intro left right m
  have hx : isFinite (-1e300) = true := by decide +kernel
  have hnegative : (-1e300 : Float) < 0 := by decide +kernel
  have hy : isFinite 1.5 = true := by decide +kernel
  have hfraction := (isWhole_eq_false_iff hy).mp (by decide +kernel)
  have hpower : power (-1e300) 1.5 = .ok infinity := by
    obtain ⟨z, hz⟩ := ArithmeticOp.power.exists_apply (-1e300) 1.5
    have hz : power (-1e300) 1.5 = .ok z := hz
    have hvalue : (power (-1e300) 1.5).toOption = some infinity := by decide +kernel
    rw [hz] at hvalue
    rw [hz, Option.some.inj hvalue]
  have heval : (Expr.binary none "**" left right).evalWithin 0 m = (.ok (.number infinity), m) :=
    Expr.evalWithin_arithmetic (f := .power) none rfl rfl rfl hpower
  exact ⟨⟨rfl, rfl⟩, ⟨hx, hnegative, hy, hfraction⟩, heval, by decide +kernel⟩

end BellaLang
