import BellaLang.Number.Numeral
import BellaLang.Proofs.Number.Packing

/-!
Reading a decimal gives the nearest double.

A decimal is read by one multiplication or one division of two doubles that stand for exactly what
they were made of, or of two numbers with as many bits as it takes.  Either way there is one
rounding, and so the double that comes out is the one in whose interval the decimal lies.

  1. Products and quotients (`mul_finite`, `div_finite`).
  2. A natural with few bits is a double, and so is a small power of ten (`Magnitude.makes_natural`,
     `exists_makes_powerOfTen`).
  3. The two ways of reading a decimal (`ofScientific_of_lt`, `model_ofScientific_eq`), and the
     sizes that settle it before (`Magnitude.Holds.size_mem`).

Main statement: `nearest_eq`.
-/

namespace BellaLang.Number

open Float.Model Float.Model.UnpackedFloat

/-! ## Products and quotients -/

section
variable {x : Magnitude} {s₁ s₂ : Sign} {m₁ m₂ : Nat} {e₁ e₂ : Int} {h₁ : 0 < m₁} {h₂ : 0 < m₂}

/-- A product with enough bits is rounded to the double in whose interval it lies. -/
theorem mul_finite (hx : x.IsCanonical) (hpos : 0 < x.significand)
    (hq : x.Holds (m₁ * 2 ^ e₁ * (m₂ * 2 ^ e₂)))
    (hlog : 52 ≤ (m₁ * m₂).log2) :
    UnpackedFloat.mul Format.binary64 (.finite s₁ m₁ e₁ h₁) (.finite s₂ m₂ e₂ h₂) =
      .finite (s₁ * s₂) x.significand x.exponent hpos := by
  have hproduct : (m₁ * 2 ^ e₁ * (m₂ * 2 ^ e₂) : ℚ) / 2 ^ (e₁ + e₂) = (m₁ * m₂ : Nat) := by
    rw [div_eq_iff (zpow_two_pos _).ne', zpow_add₀ two_ne_zero]
    push_cast
    ring
  refine roundWithAccuracy_eq hx hpos hq ?_ (by omega) (s₁ * s₂)
  rw [hproduct]
  exact .exact (m₁ * m₂)

/-- A quotient of naturals and its remainder tell where the rational lies. -/
theorem locates_div (a : Nat) {b : Nat} (hb : 0 < b) :
    Locates (.ofMantissaAndAccuracy (a / b) (accuracyOfFraction (a % b) b)) ((a : ℚ) / b) := by
  have hcast : (0 : ℚ) < b := Nat.cast_pos.mpr hb
  have hsplit : (a : ℚ) = (a / b : Nat) * b + (a % b : Nat) := by
    exact_mod_cast (Nat.div_add_mod' a b).symm
  generalize a / b = m at hsplit
  have hless : a % b < b := Nat.mod_lt a hb
  generalize a % b = rest at hsplit hless
  have hrest : (a : ℚ) / b = m + rest / b := by
    rw [hsplit, add_div, mul_div_cancel_right₀ _ hcast.ne']
  rw [hrest, accuracyOfFraction]
  split
  · rename_i hzero
    rw [hzero, Nat.cast_zero, zero_div, add_zero]
    exact .exact m
  · rename_i hne
    have hpositive : (0 : ℚ) < rest / b := div_pos (Nat.cast_pos.mpr (Nat.pos_of_ne_zero hne)) hcast
    rcases hcompare : compare (2 * rest) b with _ | _ | _
    · have hhalf : (2 * rest : ℚ) < b := by exact_mod_cast Nat.compare_eq_lt.mp hcompare
      have hbelow : (rest / b : ℚ) < 1 / 2 := by
        rw [div_lt_div_iff₀ hcast two_pos]
        linarith
      exact .low (by linarith) (by linarith)
    · have hhalf : (2 * rest : ℚ) = b := by exact_mod_cast Nat.compare_eq_eq.mp hcompare
      refine .half ?_
      rw [add_right_inj, div_eq_div_iff hcast.ne' two_ne_zero]
      linarith
    · have hhalf : (b : ℚ) < 2 * rest := by exact_mod_cast Nat.compare_eq_gt.mp hcompare
      have habove : 1 / 2 < (rest / b : ℚ) := by
        rw [div_lt_div_iff₀ two_pos hcast]
        linarith
      have hone : (rest / b : ℚ) < 1 := (div_lt_one₀ hcast).mpr (Nat.cast_lt.mpr hless)
      exact .high (by linarith) (by linarith)

/-- The quotient has enough bits, if the dividend has so many more than the divisor. -/
theorem le_log2_div {a b : Nat} (hb : 0 < b) (h : 53 + b.log2 ≤ a.log2) : 52 ≤ (a / b).log2 := by
  have ha : a ≠ 0 := by
    rintro rfl
    rw [Nat.log2_zero] at h
    omega
  have hquotient : twoTo 52 ≤ a / b := by
    refine (Nat.le_div_iff_mul_le hb).mpr ?_
    calc twoTo 52 * b ≤ twoTo 52 * twoTo (b.log2 + 1) :=
          Nat.mul_le_mul_left _ (Nat.le_of_lt Nat.lt_log2_self)
      _ = twoTo (52 + (b.log2 + 1)) := (Nat.pow_add 2 52 (b.log2 + 1)).symm
      _ ≤ twoTo a.log2 := Nat.pow_le_pow_right two_pos (by omega)
      _ ≤ a := Nat.log2_self_le ha
  have hne : a / b ≠ 0 := Nat.ne_of_gt (lt_of_lt_of_le (Nat.two_pow_pos 52) hquotient)
  exact (Nat.le_log2 hne).mpr hquotient

theorem le_log2_mul {a b : Nat} (ha : 52 ≤ a.log2) (hb : 0 < b) : 52 ≤ (a * b).log2 := by
  have hne : a ≠ 0 := by
    rintro rfl
    rw [Nat.log2_zero] at ha
    omega
  have hle : a ≤ a * b := Nat.le_mul_of_pos_right a hb
  rw [Nat.le_log2 (Nat.mul_ne_zero hne (Nat.ne_of_gt hb))]
  exact ((Nat.le_log2 hne).mp ha).trans hle

theorem cast_shiftLeft (m n : Nat) : ((m <<< n : Nat) : ℚ) = m * 2 ^ n := by
  rw [Nat.shiftLeft_eq, Nat.cast_mul, Nat.cast_pow]
  rfl

theorem log2_shiftLeft {m : Nat} (hm : 0 < m) (n : Nat) : (m <<< n).log2 = m.log2 + n := by
  have hne : m * 2 ^ n ≠ 0 := Nat.ne_of_gt (Nat.mul_pos hm (Nat.two_pow_pos n))
  rw [Nat.shiftLeft_eq, Nat.log2_eq_iff hne, Nat.pow_add, Nat.add_right_comm, Nat.pow_add]
  exact ⟨Nat.mul_le_mul_right _ (Nat.log2_self_le (Nat.ne_of_gt hm)),
    Nat.mul_lt_mul_of_pos_right Nat.lt_log2_self (Nat.two_pow_pos n)⟩

/-- A quotient is rounded to the double in whose interval it lies. -/
theorem div_finite (hx : x.IsCanonical) (hpos : 0 < x.significand)
    (hq : x.Holds (m₁ * 2 ^ e₁ / (m₂ * 2 ^ e₂))) :
    UnpackedFloat.div Format.binary64 (.finite s₁ m₁ e₁ h₁) (.finite s₂ m₂ e₂ h₂) =
      .finite (s₁ / s₂) x.significand x.exponent hpos := by
  have hlead : Format.binary64.targetExponent (totalExponent m₁ e₁ - totalExponent m₂ e₂) =
      max (m₁.log2 + e₁ - (m₂.log2 + e₂) - 53) (-1074) := by
    unfold Format.targetExponent totalExponent Format.minExponent Format.mantissaBits
    norm_num
    omega
  unfold UnpackedFloat.div divCore
  dsimp only
  rw [hlead]
  generalize htarget : min (e₁ - e₂) (max (m₁.log2 + e₁ - (m₂.log2 + e₂) - 53) (-1074)) = target
  have hshift : ((e₁ - e₂ - target).toNat : Int) = e₁ - e₂ - target := by omega
  generalize (e₁ - e₂ - target).toNat = n at hshift
  have hquotient : (m₁ * 2 ^ e₁ / (m₂ * 2 ^ e₂) : ℚ) / 2 ^ target = (m₁ <<< n : Nat) / m₂ := by
    have hpower : (2 : ℚ) ^ e₁ = 2 ^ n * (2 ^ target * 2 ^ e₂) := by
      rw [← zpow_natCast, hshift, ← zpow_add₀ two_ne_zero, ← zpow_add₀ two_ne_zero]
      congr 1
      omega
    have hcast : (m₂ : ℚ) ≠ 0 := Nat.cast_ne_zero.mpr (Nat.ne_of_gt h₂)
    have htwo := (zpow_two_pos target).ne'
    have htwo' := (zpow_two_pos e₂).ne'
    rw [hpower, cast_shiftLeft]
    field_simp
  have hroom : target ≤ max (((m₁ <<< n / m₂).log2 : Int) + target - 52) (-1074) := by
    by_cases hsmall : target ≤ -1074
    · exact le_max_of_le_right hsmall
    · have hbits := log2_shiftLeft h₁ n
      have hlog := le_log2_div (a := m₁ <<< n) h₂ (by omega)
      omega
  refine roundWithAccuracy_eq hx hpos hq ?_ hroom (s₁ / s₂)
  rw [hquotient]
  exact locates_div _ h₂

end

/-! ## Numbers that are doubles -/

/-- The double `x` has this magnitude, with all its bits, and stands for this positive rational. -/
structure Magnitude.Makes (y : Magnitude) (x : Float) (q : ℚ) : Prop where
  canonical : y.IsCanonical
  pos : 0 < y.significand
  full : 52 ≤ y.significand.log2
  value : y.value = q
  eq : x = y.double .positive pos

/-- A natural is rounded to the double in whose interval it lies. -/
theorem round_eq {x : Magnitude} {m : Nat} (hx : x.IsCanonical) (hpos : 0 < x.significand)
    (hm : 0 < m) (hq : x.Holds m) (hlog : m.log2 ≤ 52) :
    UnpackedFloat.round Format.binary64 .positive m 0 =
      .finite .positive x.significand x.exponent hpos := by
  have htarget : Format.binary64.targetExponent (totalExponent m 0) = (m.log2 : Int) - 52 := by
    rw [targetExponent_eq]
    omega
  obtain ⟨n, hn⟩ : ∃ n : Nat, (0 - ((m.log2 : Int) - 52)).toNat = n := ⟨_, rfl⟩
  have hbits := log2_shiftLeft hm n
  have hshifted : (m : ℚ) / 2 ^ (0 - (n : Int)) = (m <<< n : Nat) := by
    rw [zero_sub, zpow_neg, div_inv_eq_mul, zpow_natCast, cast_shiftLeft]
  unfold UnpackedFloat.round decreaseExponent
  rw [htarget]
  dsimp only
  rw [hn]
  refine roundWithAccuracy_eq hx hpos hq ?_ (by omega) .positive
  rw [hshifted]
  exact .exact (m <<< n)

/-- The magnitude of a natural that has no more bits than a double: its leading bit is shifted to
    where it belongs. -/
def Magnitude.ofNatural (m : Nat) : Magnitude :=
  let shifted := m <<< (52 - m.log2)
  ⟨shifted, (m.log2 : Int) - 52, decide (shifted = twoTo 52)⟩

section
variable {m : Nat}

theorem Magnitude.log2_ofNatural (hm : 0 < m) (hlog : m.log2 ≤ 52) :
    (ofNatural m).significand.log2 = 52 :=
  (log2_shiftLeft hm _).trans (Nat.add_sub_of_le hlog)

theorem Magnitude.significand_ofNatural_pos (hm : 0 < m) : 0 < (ofNatural m).significand := by
  rw [ofNatural, Nat.shiftLeft_eq]
  exact Nat.mul_pos hm (Nat.two_pow_pos _)

theorem Magnitude.isCanonical_ofNatural (hm : 0 < m) (hlog : m.log2 ≤ 52) :
    (ofNatural m).IsCanonical := by
  obtain ⟨hleast, hgreatest⟩ := (Nat.log2_eq_iff
    (Nat.ne_of_gt (significand_ofNatural_pos hm))).mp (log2_ofNatural hm hlog)
  refine ⟨hgreatest, ?_, ?_, fun _ => hleast, ?_⟩ <;> dsimp only [ofNatural]
  · omega
  · omega
  · rw [decide_eq_true_iff]
    exact ⟨fun h => ⟨h, by omega⟩, fun h => h.1⟩

theorem Magnitude.value_ofNatural (hlog : m.log2 ≤ 52) : (ofNatural m).value = m := by
  have hexponent : (m.log2 : Int) - 52 = -((52 - m.log2 : Nat) : Int) := by omega
  show ((m <<< (52 - m.log2) : Nat) : ℚ) * 2 ^ ((m.log2 : Int) - 52) = m
  rw [cast_shiftLeft, hexponent, zpow_neg, zpow_natCast]
  exact mul_inv_cancel_right₀ (pow_ne_zero _ two_ne_zero) _

/-- A natural that has no more bits than a double is one. -/
theorem Magnitude.makes_natural (hm : 0 < m) (hlt : m < twoTo 53) :
    (ofNatural m).Makes m.toUInt64.toFloat m := by
  have hlog := log2_le_of_lt hlt
  have hcanonical := isCanonical_ofNatural hm hlog
  have hq : (ofNatural m).Holds m := by
    have hself := (ofNatural m).holds_value
    rwa [value_ofNatural hlog] at hself
  refine ⟨hcanonical, significand_ofNatural_pos hm, (log2_ofNatural hm hlog).ge,
    value_ofNatural hlog, ?_⟩
  have hnat : m.toUInt64.toNat = m := UInt64.toNat_ofNat_of_lt' (lt_trans hlt (by decide))
  have hsize : compare (m : Int) 0 = .gt := Int.compare_eq_gt.mpr (Int.natCast_pos.mpr hm)
  show Float.ofModel (.pack (.normalize Format.binary64 (m.toUInt64.toNat : Int) 0 .positive)) = _
  rw [hnat]
  unfold UnpackedFloat.normalize
  rw [hsize]
  dsimp only
  rw [Int.toNat_natCast, round_eq hcanonical (significand_ofNatural_pos hm) hm hq hlog]
  rfl

end

/-- A positive double has the magnitude that is read off its bits. -/
theorem makes_magnitude {x : Float} {n : Nat} (hfinite : isFinite x = true)
    (hsign : isNegative x = false) (hfull : 52 ≤ (magnitude x).significand.log2)
    (hvalue : (magnitude x).significand * twoTo (magnitude x).exponent.toNat =
      n * twoTo (-(magnitude x).exponent).toNat) : (magnitude x).Makes x n := by
  have hpos : 0 < (magnitude x).significand := by
    refine Nat.pos_of_ne_zero fun hzero => ?_
    rw [hzero, Nat.log2_zero] at hfull
    omega
  refine ⟨isCanonical_magnitude hfinite, hpos, hfull, ?_, ?_⟩
  · rw [Magnitude.value_eq_div, div_eq_iff (cast_twoTo_ne_zero _), hvalue, Nat.cast_mul]
  · rw [← sign_of_not_negative hsign]
    exact eq_double hfinite hpos

/-- The powers of ten in the table are what they should be. -/
theorem powersOfTen_eq (e : Nat) (h : e < Float.exactlyRepresentablePowersOfTen.size) :
    isFinite Float.exactlyRepresentablePowersOfTen[e] = true ∧
    isNegative Float.exactlyRepresentablePowersOfTen[e] = false ∧
    52 ≤ (magnitude Float.exactlyRepresentablePowersOfTen[e]).significand.log2 ∧
    (magnitude Float.exactlyRepresentablePowersOfTen[e]).significand *
      twoTo (magnitude Float.exactlyRepresentablePowersOfTen[e]).exponent.toNat =
      tenTo e * twoTo (-(magnitude Float.exactlyRepresentablePowersOfTen[e]).exponent).toNat := by
  revert e
  decide +kernel

/-- A small power of ten is a double. -/
theorem exists_makes_powerOfTen (e : Nat) (h : e < Float.exactlyRepresentablePowersOfTen.size) :
    ∃ y : Magnitude, y.Makes Float.exactlyRepresentablePowersOfTen[e] (tenTo e : Nat) := by
  obtain ⟨hfinite, hsign, hfull, hvalue⟩ := powersOfTen_eq e h
  exact ⟨_, makes_magnitude hfinite hsign hfull hvalue⟩

/-! ## Decimals -/

section
variable {x : Magnitude} {hpos : 0 < x.significand} {m e : Nat}

/-- Doubles are multiplied by their magnitudes. -/
theorem Magnitude.Makes.mul {y z : Magnitude} {a b : Float} {p q : ℚ} (hy : y.Makes a p)
    (hz : z.Makes b q) (hx : x.IsCanonical) (hq : x.Holds (p * q)) :
    a * b = x.double .positive hpos := by
  rw [← hy.value, ← hz.value] at hq
  have hlog := le_log2_mul hy.full hz.pos
  show Float.ofModel (.pack (.mul Format.binary64 a.toModel.unpack b.toModel.unpack)) = _
  rw [hy.eq, hz.eq, unpack_double hy.canonical, unpack_double hz.canonical,
    mul_finite hx hpos hq hlog]
  rfl

/-- They are divided by their magnitudes. -/
theorem Magnitude.Makes.div {y z : Magnitude} {a b : Float} {p q : ℚ} (hy : y.Makes a p)
    (hz : z.Makes b q) (hx : x.IsCanonical) (hq : x.Holds (p / q)) :
    a / b = x.double .positive hpos := by
  rw [← hy.value, ← hz.value] at hq
  show Float.ofModel (.pack (.div Format.binary64 a.toModel.unpack b.toModel.unpack)) = _
  rw [hy.eq, hz.eq, unpack_double hy.canonical, unpack_double hz.canonical,
    div_finite hx hpos hq]
  rfl

/-- A decimal with few digits is a product or a quotient of two doubles. -/
theorem ofScientific_of_lt (hx : x.IsCanonical) (hm : 0 < m) (hlt : m < twoTo 53) {scale : Int}
    (hscale : scale.natAbs ≤ 22) (hq : x.Holds (m * 10 ^ scale)) :
    Float.ofScientific m (decide (scale < 0)) scale.natAbs = x.double .positive hpos := by
  have hy := Magnitude.makes_natural hm hlt
  obtain ⟨z, hz⟩ := exists_makes_powerOfTen scale.natAbs (Nat.lt_succ_of_le hscale)
  have hfast : m < 2 ^ 53 ∧ scale.natAbs ≤ 22 := ⟨hlt, hscale⟩
  unfold Float.ofScientific
  rw [dif_pos hfast]
  rcases lt_or_ge scale 0 with hnegative | hnonneg
  · have hquotient : (m * 10 ^ scale : ℚ) = m / (tenTo scale.natAbs : Nat) := by
      have habs : scale = -(scale.natAbs : Int) := by omega
      rw [cast_tenTo, div_eq_mul_inv, ← zpow_natCast, ← zpow_neg, ← habs]
    rw [hquotient] at hq
    rw [decide_eq_true hnegative]
    exact hy.div hz hx hq
  · have hproduct : (m * 10 ^ scale : ℚ) = m * (tenTo scale.natAbs : Nat) := by
      have habs : scale = (scale.natAbs : Int) := by omega
      rw [cast_tenTo, ← zpow_natCast, ← habs]
    rw [hproduct] at hq
    rw [decide_eq_false (not_lt.mpr hnonneg)]
    exact hy.mul hz hx hq

/-- Any other decimal is a product or a quotient of two numbers with as many bits as it takes. -/
theorem model_ofScientific_eq (hx : x.IsCanonical) (hm : 0 < m) {scale : Int}
    (hgreatest : scale ≤ 2048) (hleast : -(2048 + m.log2) ≤ scale)
    (hq : x.Holds (m * 10 ^ scale)) :
    Float.Model.ofScientific m scale = .pack (.finite .positive x.significand x.exponent hpos) := by
  have hover : ¬ scale > 2 ^ Format.binary64.exponentBits := not_lt.mpr hgreatest
  have hunder : ¬ scale < -(2 ^ Format.binary64.exponentBits + (m.log2 : Int)) :=
    not_lt.mpr hleast
  unfold Float.Model.ofScientific UnpackedFloat.ofScientific
  rw [dif_neg (Nat.ne_of_gt hm), if_neg hover, if_neg hunder]
  rcases lt_or_ge scale 0 with hnegative | hnonneg
  · have hquotient : (m * 10 ^ scale : ℚ) =
        m * 2 ^ (0 : Int) / ((10 ^ (-scale).toNat : Nat) * 2 ^ (0 : Int)) := by
      have habs : scale = -((-scale).toNat : Int) := by omega
      rw [zpow_zero, mul_one, mul_one, Nat.cast_pow, div_eq_mul_inv, ← zpow_natCast, ← zpow_neg,
        ← habs]
      rfl
    rw [hquotient] at hq
    rw [if_neg (not_le.mpr hnegative), div_finite hx hpos hq]
    rfl
  · have hproduct : (m * 10 ^ scale : ℚ) =
        (m <<< 53 : Nat) * 2 ^ (-53 : Int) * ((10 ^ scale.toNat : Nat) * 2 ^ (0 : Int)) := by
      have habs : scale = (scale.toNat : Int) := by omega
      have hshift : ((m <<< 53 : Nat) : ℚ) * 2 ^ (-53 : Int) = m := by
        rw [cast_shiftLeft, mul_assoc]
        norm_num
      rw [hshift, zpow_zero, mul_one, Nat.cast_pow, ← zpow_natCast, ← habs]
      rfl
    have hlog : 52 ≤ (m <<< 53 * 10 ^ scale.toNat).log2 := by
      have hbits := log2_shiftLeft hm 53
      exact le_log2_mul (by omega) (Nat.pow_pos (by decide))
    rw [hproduct] at hq
    rw [if_pos hnonneg]
    exact congrArg _ (mul_finite hx hpos hq hlog)

/-- What lies in the interval of a double is not less than half of the smallest one. -/
theorem Magnitude.Holds.zpow_le {q : ℚ} (hq : x.Holds q) (hx : x.IsCanonical)
    (hpos : 0 < x.significand) : (2 : ℚ) ^ (-1075 : Int) ≤ q := by
  have hone : (1 : ℚ) ≤ x.significand := by exact_mod_cast hpos
  have hslack := x.slack_le
  calc (2 : ℚ) ^ (-1074 - 1 : Int) = 1 / 2 * 2 ^ (-1074 : Int) := by
        rw [zpow_sub_one₀ two_ne_zero]
        ring
    _ ≤ 1 / 2 * 2 ^ x.exponent := by
      refine mul_le_mul_of_nonneg_left ?_ (by norm_num)
      exact zpow_le_zpow_right₀ one_le_two hx.least_le
    _ ≤ (x.significand - x.slack) * 2 ^ x.exponent :=
      mul_le_mul_of_nonneg_right (by linarith) (zpow_two_pos _).le
    _ ≤ q := hq.least

/-- A power of two and a power of ten that all doubles lie below. -/
theorem two_zpow_le_ten_zpow : (2 : ℚ) ^ (1200 : Int) ≤ 10 ^ (400 : Int) := by
  calc (2 : ℚ) ^ (1200 : Int) = (2 ^ (3 : Int)) ^ (400 : Int) := zpow_mul 2 3 400
    _ ≤ 10 ^ (400 : Int) := by
      refine zpow_le_zpow_left₀ (by decide) (zpow_two_pos 3).le ?_
      norm_num

/-- The number of its digits tells between which powers of ten a decimal lies. -/
theorem zpow_le_decimal (hm : 0 < m) (scale : Int) :
    (10 : ℚ) ^ ((Nat.toDigits 10 m).length + scale - 1) ≤ m * 10 ^ scale ∧
      (m * 10 ^ scale : ℚ) < 10 ^ ((Nat.toDigits 10 m).length + scale) := by
  obtain ⟨n, hn⟩ : ∃ n, (Nat.toDigits 10 m).length = n + 1 :=
    Nat.exists_eq_succ_of_ne_zero (Nat.ne_of_gt Nat.length_toDigits_pos)
  have hbelow : m < tenTo (n + 1) :=
    (Nat.length_toDigits_le_iff (by decide) (Nat.succ_pos n)).mp hn.le
  have habove : tenTo n ≤ m := by
    rcases Nat.eq_zero_or_pos n with rfl | hpositive
    · exact hm
    · refine Nat.le_of_not_lt fun hless => ?_
      have hshort := (Nat.length_toDigits_le_iff (by decide) hpositive).mpr hless
      omega
  have hexponent : ((n + 1 : Nat) : Int) + scale - 1 = n + scale := by omega
  rw [hn, hexponent, zpow_add₀ (by norm_num), zpow_add₀ (by norm_num), zpow_natCast, zpow_natCast,
    ← cast_tenTo, ← cast_tenTo]
  exact ⟨mul_le_mul_of_nonneg_right (Nat.cast_le.mpr habove) (zpow_ten_pos scale).le,
    mul_lt_mul_of_pos_right (Nat.cast_lt.mpr hbelow) (zpow_ten_pos scale)⟩

/-- A decimal in the interval of a double is not zero, and of moderate size. -/
theorem Magnitude.Holds.size_mem (hx : x.IsCanonical) (hpos : 0 < x.significand) {scale : Int}
    (hq : x.Holds (m * 10 ^ scale)) :
    0 < m ∧ -400 ≤ (Nat.toDigits 10 m).length + scale ∧
      (Nat.toDigits 10 m).length + scale ≤ 400 := by
  have hleast := hq.zpow_le hx hpos
  have hgreatest := hq.lt_zpow hx
  have hm : 0 < m := by
    refine Nat.pos_of_ne_zero ?_
    rintro rfl
    rw [Nat.cast_zero, zero_mul] at hleast
    exact absurd hleast (not_le.mpr (zpow_two_pos _))
  obtain ⟨hlower, hupper⟩ := zpow_le_decimal hm scale
  have hsmall : (10 : ℚ) ^ (-400 : Int) ≤ 2 ^ (-1075 : Int) := by
    calc (10 : ℚ) ^ (-400 : Int) ≤ 2 ^ (-1200 : Int) := by
          rw [zpow_neg, zpow_neg]
          exact inv_anti₀ (zpow_two_pos 1200) two_zpow_le_ten_zpow
      _ ≤ 2 ^ (-1075 : Int) := zpow_le_zpow_right₀ one_le_two (by decide)
  have hlarge : (2 : ℚ) ^ (53 + x.exponent) ≤ 10 ^ (400 : Int) := by
    have hexponent := hx.le_greatest
    calc (2 : ℚ) ^ (53 + x.exponent) ≤ 2 ^ (1200 : Int) :=
          zpow_le_zpow_right₀ one_le_two (by omega)
      _ ≤ 10 ^ (400 : Int) := two_zpow_le_ten_zpow
  have habove := (zpow_lt_zpow_iff_right₀ (by norm_num)).mp
    (lt_of_le_of_lt (hsmall.trans hleast) hupper)
  have hbelow := (zpow_lt_zpow_iff_right₀ (by norm_num)).mp
    (lt_of_le_of_lt hlower (hgreatest.trans_le hlarge))
  exact ⟨hm, habove.le, by omega⟩

/-- **Reading a decimal gives the double in whose interval it lies.** -/
theorem nearest_eq (hx : x.IsCanonical) (hpos : 0 < x.significand) {digits : Nat} {scale : Int}
    (hq : x.Holds (digits * 10 ^ scale)) : nearest digits scale = x.double .positive hpos := by
  obtain ⟨hdigits, hleast, hgreatest⟩ := hq.size_mem hx hpos
  have hlength : (Nat.toDigits 10 digits).length ≤ digits.log2 + 1 := by
    rw [Nat.length_toDigits_le_iff (by decide) (Nat.succ_pos _)]
    exact Nat.lt_log2_self.trans_le (Nat.pow_le_pow_left (by decide) _)
  have hsome := Nat.length_toDigits_pos (b := 10) (n := digits)
  unfold nearest
  dsimp only
  rw [if_neg (by omega), if_neg (by omega)]
  by_cases hfast : digits < 2 ^ 53 ∧ scale.natAbs ≤ 22
  · exact ofScientific_of_lt hx hdigits hfast.1 hfast.2 hq
  · have hscale : (if decide (scale < 0) then Int.negOfNat scale.natAbs
        else Int.ofNat scale.natAbs) = scale := by
      split
      · rename_i hnegative
        have hless := of_decide_eq_true hnegative
        rw [Int.negOfNat_eq, Int.ofNat_eq_natCast]
        omega
      · rename_i hnonneg
        have hle : ¬ scale < 0 := fun hless => hnonneg (decide_eq_true hless)
        rw [Int.ofNat_eq_natCast]
        omega
    unfold Float.ofScientific
    rw [dif_neg hfast]
    dsimp only
    rw [hscale, model_ofScientific_eq hx hdigits (by omega) (by omega) hq]
    rfl

end

end BellaLang.Number
