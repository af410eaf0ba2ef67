import BellaLang.Proofs.Number.Nearest

/-!
Rounding and the order of doubles.

A product of two doubles is rounded, and may even end up as an infinity.  All the same it can be
compared with a double as the exact product can: rounding never goes past a double (`Rounds`).

  1. Rounding to a natural does not go past a natural (`Locates.le_rounded`, `Locates.rounded_le`).
     As all doubles that are smaller are naturals in the unit of rounding, or below the leading bit
     of what is rounded, it does not go past a double either (`exists_rounds`).
  2. Doubles of one sign are ordered by their exponents first, and this is the order of what they
     stand for (`Magnitude.IsCanonical.value_lt`, `Magnitude.IsCanonical.le_iff`).
  3. So a positive double is compared with a product of two doubles by what the exact product is
     rounded to, and no double lies between the two (`Magnitude.exists_le_mul_iff`).
  4. An integer with few bits is a double.  Its product with a double is compared with a natural as
     the exact product is, except where these two are less than one apart (`lt_of_ofNat_le_mul`,
     `ofNat_le_mul_of_le`).

Main statement: `Magnitude.exists_le_mul_iff`.
-/

namespace BellaLang.Number

open Float.Model Float.Model.UnpackedFloat

/-! ## Rounding to a natural -/

namespace Locates

variable {em : ExtendedMantissa} {u : ℚ} {n : Nat}

/-- What is rounded to a natural does not go below a natural. -/
theorem le_rounded (h : Locates em u) (hn : n ≤ u) : n ≤ em.roundedMantissa := by
  cases h with
  | exact m => exact Nat.cast_le.mp hn
  | @low m u hgreater hless =>
    show n ≤ m
    exact le_of_cast_lt (by linarith)
  | @half m u h =>
    show n ≤ m + m % 2
    have hle : n ≤ m := le_of_cast_lt (by linarith)
    omega
  | @high m u hgreater hless =>
    show n ≤ m + 1
    have hle : n ≤ m := le_of_cast_lt (by linarith)
    omega

/-- Nor does it go above one. -/
theorem rounded_le (h : Locates em u) (hn : u ≤ n) : em.roundedMantissa ≤ n := by
  cases h with
  | exact m => exact Nat.cast_le.mp hn
  | @low m u hgreater hless =>
    show m ≤ n
    exact le_of_cast_lt (by linarith)
  | @half m u h =>
    show m + m % 2 ≤ n
    have hle : m + 1 ≤ n := le_of_cast_lt (by push_cast; linarith)
    omega
  | @high m u hgreater hless =>
    show m + 1 ≤ n
    exact le_of_cast_lt (by push_cast; linarith)

end Locates

/-! ## Rounding to a double -/

/-- What a positive rational is rounded to has the form of a double, but perhaps a greater exponent
    than any; and no double lies between the two. -/
structure Rounds (q : ℚ) (n : Nat) (f : Int) : Prop where
  lt : n < twoTo 53
  least_le : -1074 ≤ f
  normal : -1074 < f → twoTo 52 ≤ n
  below : ∀ d : Magnitude, d.IsCanonical → d.value ≤ q → d.value ≤ n * 2 ^ f
  above : ∀ d : Magnitude, d.IsCanonical → q ≤ d.value → n * 2 ^ f ≤ d.value

/-- Any double is less than the power of two behind its leading bit. -/
theorem Magnitude.IsCanonical.value_lt_zpow {d : Magnitude} (hd : d.IsCanonical) :
    d.value < 2 ^ (53 + d.exponent) := d.holds_value.lt_zpow hd

/-- The value of a double in a unit that is not greater than its own is a natural. -/
theorem Magnitude.exists_value_eq (d : Magnitude) {t : Int} (h : t ≤ d.exponent) :
    ∃ n : Nat, d.value = n * 2 ^ t := by
  refine ⟨d.significand * 2 ^ (d.exponent - t).toNat, ?_⟩
  have hsum : d.exponent = ((d.exponent - t).toNat : Int) + t := by omega
  rw [Magnitude.value]
  conv_lhs => rw [hsum]
  rw [zpow_add₀ two_ne_zero, zpow_natCast]
  push_cast
  ring

namespace Locates

variable {em : ExtendedMantissa} {q : ℚ} {t : Int} {d : Magnitude}

theorem rounded_le_twoTo (h : Locates em (q / 2 ^ t)) (hless : q < 2 ^ (53 + t)) :
    em.roundedMantissa ≤ twoTo 53 := by
  refine h.rounded_le ?_
  rw [div_le_iff₀ (zpow_two_pos t), cast_twoTo, ← zpow_natCast, ← zpow_add₀ two_ne_zero]
  exact hless.le

theorem twoTo_le_rounded (h : Locates em (q / 2 ^ t)) (hleast : 2 ^ (52 + t) ≤ q) :
    twoTo 52 ≤ em.roundedMantissa := by
  refine h.le_rounded ?_
  rw [le_div_iff₀ (zpow_two_pos t), cast_twoTo, ← zpow_natCast, ← zpow_add₀ two_ne_zero]
  exact hleast

/-- A double that is not greater than what is rounded is not greater than the result. -/
theorem double_le_rounded (h : Locates em (q / 2 ^ t))
    (hleast : -1074 < t → 2 ^ (52 + t) ≤ q) (hd : d.IsCanonical) (hdq : d.value ≤ q) :
    d.value ≤ em.roundedMantissa * 2 ^ t := by
  have hunit := zpow_two_pos t
  rcases le_or_gt t d.exponent with hgreater | hsmaller
  · obtain ⟨n, hn⟩ := d.exists_value_eq hgreater
    rw [hn] at hdq ⊢
    have hround : n ≤ em.roundedMantissa := h.le_rounded ((le_div_iff₀ hunit).mpr hdq)
    exact mul_le_mul_of_nonneg_right (Nat.cast_le.mpr hround) hunit.le
  · -- The double is smaller than the leading bit, which rounding does not take away.
    have hd_least := hd.least_le
    have hleading := h.twoTo_le_rounded (hleast (by omega))
    calc d.value ≤ 2 ^ (53 + d.exponent) := hd.value_lt_zpow.le
      _ ≤ 2 ^ (52 + t) := zpow_le_zpow_right₀ one_le_two (by omega)
      _ = (twoTo 52 : Nat) * 2 ^ t := by
        rw [cast_twoTo, zpow_add₀ two_ne_zero]
        norm_cast
      _ ≤ em.roundedMantissa * 2 ^ t :=
        mul_le_mul_of_nonneg_right (Nat.cast_le.mpr hleading) hunit.le

/-- A double that is not less than what is rounded is not less than the result. -/
theorem rounded_le_double (h : Locates em (q / 2 ^ t))
    (hleast : -1074 < t → 2 ^ (52 + t) ≤ q) (hd : d.IsCanonical) (hqd : q ≤ d.value) :
    em.roundedMantissa * 2 ^ t ≤ d.value := by
  have hunit := zpow_two_pos t
  rcases le_or_gt t d.exponent with hgreater | hsmaller
  · obtain ⟨n, hn⟩ := d.exists_value_eq hgreater
    rw [hn] at hqd ⊢
    have hround : em.roundedMantissa ≤ n := h.rounded_le ((div_le_iff₀ hunit).mpr hqd)
    exact mul_le_mul_of_nonneg_right (Nat.cast_le.mpr hround) hunit.le
  · have hd_least := hd.least_le
    have hexponent : 52 + t < 53 + d.exponent := (zpow_lt_zpow_iff_right₀ one_lt_two).mp
      (((hleast (by omega)).trans hqd).trans_lt hd.value_lt_zpow)
    omega

end Locates

theorem locates_exact (m : Nat) (e : Int) :
    Locates (.ofMantissaAndAccuracy m .exact) ((m * 2 ^ e : ℚ) / 2 ^ e) := by
  rw [mul_div_cancel_right₀ _ (zpow_two_pos e).ne']
  exact .exact m

/-- A rational lies between the powers of two of its leading bit and of the one behind it. -/
theorem leadingBit_bounds {m : Nat} (hm : m ≠ 0) (e : Int) :
    (2 : ℚ) ^ (m.log2 + e) ≤ m * 2 ^ e ∧ (m * 2 ^ e : ℚ) < 2 ^ (m.log2 + 1 + e) := by
  have hmantissa := mantissa_ofMantissaAndAccuracy m .exact
  have hleast := (locates_exact m e).zpow_le (by rwa [hmantissa])
  have hless := (locates_exact m e).lt_zpow
  rw [hmantissa] at hleast hless
  exact ⟨hleast, hless⟩

/-- Seen from the unit of rounding, it lies between two powers of two, unless it is one of the
    smallest. -/
theorem target_bounds {m : Nat} {e t : Int} (hm : m ≠ 0)
    (ht : max (m.log2 + e - 52) (-1074) = t) :
    (m * 2 ^ e : ℚ) < 2 ^ (53 + t) ∧ (-1074 < t → (2 : ℚ) ^ (52 + t) ≤ m * 2 ^ e) := by
  obtain ⟨hleast, hless⟩ := leadingBit_bounds hm e
  constructor
  · exact hless.trans_le (zpow_le_zpow_right₀ one_le_two (by omega))
  · intro hnormal
    have hsame : (m.log2 : Int) + e = 52 + t := by omega
    rwa [hsame] at hleast

/-- **Rounding never goes past a double.** -/
theorem exists_rounds {m : Nat} (hm : 52 ≤ m.log2) (e : Int) (s : Sign) :
    ∃ n f, Rounds (m * 2 ^ e) n f ∧
      roundWithAccuracy Format.binary64 s m e .exact =
        if h : n = 0 then .zero s else .finite s n f (Nat.pos_of_ne_zero h) := by
  generalize htarget : max (m.log2 + e - 52) (-1074) = t
  have hle : e ≤ t := by omega
  have hpos : m ≠ 0 := by
    rintro rfl
    rw [Nat.log2_zero] at hm
    omega
  have hfirst := shiftToTargetExponent_eq .exact htarget.symm hle
  have hshifted := (locates_exact m e).shiftTo hle
  obtain ⟨hless, hleast⟩ := target_bounds hpos htarget
  have hgreatest := hshifted.rounded_le_twoTo hless
  have hnormal (ht : -1074 < t) := hshifted.twoTo_le_rounded (hleast ht)
  have hbelow (d : Magnitude) := hshifted.double_le_rounded (d := d) hleast
  have habove (d : Magnitude) := hshifted.rounded_le_double (d := d) hleast
  unfold roundWithAccuracy
  rw [hfirst]
  dsimp only
  generalize (ExtendedMantissa.ofMantissaAndAccuracy m .exact >>> (t - e).toNat).roundedMantissa
    = k at hgreatest hnormal hbelow habove ⊢
  rcases Nat.lt_or_eq_of_le hgreatest with hlt | rfl
  · refine ⟨k, t, ⟨hlt, by omega, hnormal, hbelow, habove⟩, ?_⟩
    rw [shift_exact hlt (by omega)]
  · -- The mantissa has overflowed, and the leading bit moves on by one place.
    have hmoved : ((twoTo 53 : Nat) : ℚ) * 2 ^ t = (twoTo 52 : Nat) * 2 ^ (t + 1) := by
      rw [cast_twoTo, cast_twoTo, zpow_add_one₀ two_ne_zero]
      ring
    rw [hmoved] at hbelow habove
    refine ⟨twoTo 52, t + 1, ⟨by decide, by omega, fun _ => le_rfl, hbelow, habove⟩, ?_⟩
    rw [shift_overflow (by omega)]

/-! ## The order of doubles -/

/-- The power of two of the leading bit is not greater than a double, one of the smallest apart. -/
theorem zpow_le_of_normal {n : Nat} (hn : twoTo 52 ≤ n) (f : Int) :
    (2 : ℚ) ^ (52 + f) ≤ n * 2 ^ f := by
  have hcast : (2 : ℚ) ^ (52 : Int) ≤ n := by
    have hle : ((twoTo 52 : Nat) : ℚ) ≤ n := Nat.cast_le.mpr hn
    rwa [cast_twoTo] at hle
  rw [zpow_add₀ two_ne_zero]
  exact mul_le_mul_of_nonneg_right hcast (zpow_two_pos f).le

section

variable {a b : Magnitude}

/-- The double with the greater exponent is the greater one. -/
theorem Magnitude.IsCanonical.value_lt (ha : a.IsCanonical) (hb : b.IsCanonical)
    (h : a.exponent < b.exponent) : a.value < b.value := by
  have hleast := ha.least_le
  have hnormal := hb.normal (by omega)
  calc a.value < 2 ^ (53 + a.exponent) := ha.value_lt_zpow
    _ ≤ 2 ^ (52 + b.exponent) := zpow_le_zpow_right₀ one_le_two (by omega)
    _ ≤ b.value := zpow_le_of_normal hnormal b.exponent

/-- **Positive doubles are ordered by their values.** -/
theorem Magnitude.IsCanonical.le_iff (ha : a.IsCanonical) (hb : b.IsCanonical)
    (hapos : 0 < a.significand) (hbpos : 0 < b.significand) :
    (UnpackedFloat.finite .positive a.significand a.exponent hapos).le
      (.finite .positive b.significand b.exponent hbpos) = true ↔ a.value ≤ b.value := by
  show ((compare a.exponent b.exponent).then
    (compare a.significand b.significand)).isLE = true ↔ _
  rcases lt_trichotomy a.exponent b.exponent with hless | hsame | hgreater
  · rw [Int.compare_eq_lt.mpr hless]
    exact iff_of_true rfl (ha.value_lt hb hless).le
  · rw [Int.compare_eq_eq.mpr hsame, Ordering.eq_then, Nat.isLE_compare, Magnitude.value,
      Magnitude.value, hsame, mul_le_mul_iff_left₀ (zpow_two_pos _), Nat.cast_le]
  · rw [Int.compare_eq_gt.mpr hgreater]
    exact iff_of_false Bool.false_ne_true (not_le.mpr (hb.value_lt ha hgreater))

end

/-! ## Comparing with what has been rounded -/

theorem unpack_zero (s : Sign) : (⟨.pack (.zero s)⟩ : Float).toModel.unpack = .zero s := by
  cases s <;> rfl

theorem unpack_infinity (s : Sign) :
    (⟨.pack (.infinity s)⟩ : Float).toModel.unpack = .infinity s := by
  cases s <;> rfl

/-- Doubles are compared by what they are taken apart into. -/
theorem Magnitude.double_le_iff_unpack {d : Magnitude} (hd : d.IsCanonical)
    (hpos : 0 < d.significand) (x : Float) :
    d.double .positive hpos ≤ x ↔
      (UnpackedFloat.finite .positive d.significand d.exponent hpos).le x.toModel.unpack =
        true := by
  rw [← Magnitude.unpack_double hd]
  exact decide_eq_true_iff

/-- A number whose exponent is greater than any is put together as an infinity. -/
theorem pack_of_overflow (s : Sign) {n : Nat} {f : Int} (hf : 971 < f) (hpos : 0 < n) :
    (⟨.pack (.finite s n f hpos)⟩ : Float) = ⟨.pack (.infinity s)⟩ := by
  refine eq_of_bits ?_
  show UnpackedFloat.pack Format.binary64 (.finite s n f hpos) = packedInfinity Format.binary64 s
  have hover : 2 ^ Format.binary64.exponentBits ≤ (f + Format.binary64.exponentBias +
      Format.binary64.mantissaBitsWithoutImplicit).toNat + 1 := by
    show 2048 ≤ (f + (1023 : Nat) + (52 : Nat)).toNat + 1
    omega
  exact if_pos hover

/-- **A positive double is at most what is rounded** if this is positive and not less than the
    double before it is put together. -/
theorem Magnitude.double_le_rounded_iff {d : Magnitude} (hd : d.IsCanonical)
    (hpos : 0 < d.significand) {q : ℚ} {n : Nat} {f : Int} (h : Rounds q n f) (s : Sign) :
    d.double .positive hpos ≤
        ⟨.pack (if hn : n = 0 then .zero s else .finite s n f (Nat.pos_of_ne_zero hn))⟩ ↔
      s = .positive ∧ d.value ≤ n * 2 ^ f := by
  have hvalue : 0 < d.value := mul_pos (Nat.cast_pos.mpr hpos) (zpow_two_pos _)
  rw [Magnitude.double_le_iff_unpack hd]
  by_cases hn : n = 0
  · rw [dif_pos hn, unpack_zero, hn, Nat.cast_zero, zero_mul]
    exact iff_of_false Bool.false_ne_true fun hr => absurd hvalue (not_lt.mpr hr.2)
  · rw [dif_neg hn]
    have hnpos := Nat.pos_of_ne_zero hn
    rcases le_or_gt f 971 with hfits | hover
    · -- What has been rounded is a double.
      have hr : Magnitude.IsCanonical ⟨n, f, decide (n = twoTo 52 ∧ -1074 < f)⟩ :=
        ⟨h.lt, h.least_le, hfits, h.normal, decide_eq_true_iff⟩
      have hunpack : (⟨.pack (.finite s n f hnpos)⟩ : Float).toModel.unpack = .finite s n f hnpos :=
        @Magnitude.unpack_double _ hnpos hr s
      rw [hunpack]
      cases s with
      | positive => rw [hd.le_iff hr hpos hnpos, eq_self, true_and]; rfl
      | negative => exact iff_of_false Bool.false_ne_true fun hr => nomatch hr.1
    · rw [pack_of_overflow s hover, unpack_infinity]
      cases s with
      | positive =>
        have hgreatest := hd.le_greatest
        have hnormal := h.normal (by omega)
        refine iff_of_true rfl ⟨rfl, ?_⟩
        calc d.value ≤ 2 ^ (53 + d.exponent) := hd.value_lt_zpow.le
          _ ≤ 2 ^ (52 + f) := zpow_le_zpow_right₀ one_le_two (by omega)
          _ ≤ n * 2 ^ f := zpow_le_of_normal hnormal f
      | negative => exact iff_of_false Bool.false_ne_true fun hr => nomatch hr.1

/-- **Comparing a positive double with a product.**  The product of two doubles is compared as their
    signs say, and as a rational is that no double separates from the exact product. -/
theorem Magnitude.exists_le_mul_iff {a b : Magnitude} (ha : a.IsCanonical) (hb : b.IsCanonical)
    (hapos : 0 < a.significand) (hbpos : 0 < b.significand) (hfull : 52 ≤ a.significand.log2)
    (s₁ s₂ : Sign) :
    ∃ n f, Rounds (a.value * b.value) n f ∧
      ∀ (d : Magnitude) (_ : d.IsCanonical) (hpos : 0 < d.significand),
        d.double .positive hpos ≤ a.double s₁ hapos * b.double s₂ hbpos ↔
          s₁ * s₂ = .positive ∧ d.value ≤ n * 2 ^ f := by
  have hproduct : a.value * b.value =
      (a.significand * b.significand : Nat) * 2 ^ (a.exponent + b.exponent) := by
    rw [Magnitude.value, Magnitude.value, zpow_add₀ two_ne_zero]
    push_cast
    ring
  obtain ⟨n, f, hrounds, hround⟩ :=
    exists_rounds (le_log2_mul hfull hbpos) (a.exponent + b.exponent) (s₁ * s₂)
  rw [← hproduct] at hrounds
  refine ⟨n, f, hrounds, fun d hd hpos => ?_⟩
  have hmul : a.double s₁ hapos * b.double s₂ hbpos =
      ⟨.pack (if hn : n = 0 then .zero (s₁ * s₂)
        else .finite (s₁ * s₂) n f (Nat.pos_of_ne_zero hn))⟩ := by
    show Float.ofModel (.pack (.mul Format.binary64 _ _)) = _
    rw [unpack_double ha, unpack_double hb, ← hround]
    rfl
  rw [hmul]
  exact Magnitude.double_le_rounded_iff hd hpos hrounds (s₁ * s₂)

/-! ## Integers -/

/-- A natural that has no more bits than a double is one. -/
theorem ofNat_eq_double {n : Nat} (hpos : 0 < n) (hlt : n < twoTo 53) :
    Float.ofNat n =
      (Magnitude.ofNatural n).double .positive (Magnitude.significand_ofNatural_pos hpos) := by
  have hlog := log2_le_of_lt hlt
  have hself := (Magnitude.ofNatural n).holds_value
  rw [Magnitude.value_ofNatural hlog] at hself
  have hholds : (Magnitude.ofNatural n).Holds (n * 10 ^ (0 : Int)) := by
    rwa [zpow_zero, mul_one]
  exact ofScientific_of_lt (Magnitude.isCanonical_ofNatural hpos hlog) hpos hlt (by decide) hholds

/-- The sign of an integer. -/
def signOf (k : Int) : Sign := if k < 0 then .negative else .positive

/-- So is an integer, with its sign. -/
theorem ofInt_eq_double {k : Int} (hpos : 0 < k.natAbs) (hlt : k.natAbs < twoTo 53) :
    Float.ofInt k = (Magnitude.ofNatural k.natAbs).double (signOf k)
      (Magnitude.significand_ofNatural_pos hpos) := by
  cases k with
  | ofNat n => exact ofNat_eq_double hpos hlt
  | negSucc n =>
    have hcanonical := Magnitude.isCanonical_ofNatural hpos (log2_le_of_lt hlt)
    have hsign : signOf (.negSucc n) = .negative := if_pos (Int.negSucc_lt_zero n)
    have hnat : Float.ofNat (n + 1) = _ := ofNat_eq_double hpos hlt
    show -Float.ofNat (n + 1) = _
    rw [hsign, hnat, Magnitude.neg_double hcanonical]
    rfl

/-! ## Products with an integer -/

section

variable {y : Float} {k : Int}

/-- The sign of a double is that of what it stands for. -/
theorem sign_cases (hy : 0 < (magnitude y).value) :
    (sign y = .positive ∧ 0 < value y) ∨ (sign y = .negative ∧ value y < 0) := by
  unfold value
  cases hnegative : isNegative y with
  | false => exact .inl ⟨sign_of_not_negative hnegative, hy⟩
  | true => exact .inr ⟨(isNegative_iff y).mp hnegative, neg_neg_of_pos hy⟩

/-- The sign of a product tells whether it is positive. -/
theorem sign_mul_eq_iff (hk : k ≠ 0) (hy : 0 < (magnitude y).value) :
    signOf k * sign y = .positive ↔ 0 < k * value y := by
  rcases lt_or_gt_of_ne hk with hless | hgreater
  · have hsign : signOf k = .negative := if_pos hless
    have hcast : (k : ℚ) < 0 := Int.cast_lt_zero.mpr hless
    rcases sign_cases hy with ⟨hpositive, hvalue⟩ | ⟨hnegative, hvalue⟩
    · rw [hsign, hpositive]
      exact iff_of_false nofun (not_lt.mpr (mul_neg_of_neg_of_pos hcast hvalue).le)
    · rw [hsign, hnegative]
      exact iff_of_true rfl (mul_pos_of_neg_of_neg hcast hvalue)
  · have hsign : signOf k = .positive := if_neg (not_lt.mpr hgreater.le)
    have hcast : (0 : ℚ) < k := Int.cast_pos.mpr hgreater
    rcases sign_cases hy with ⟨hpositive, hvalue⟩ | ⟨hnegative, hvalue⟩
    · rw [hsign, hpositive]
      exact iff_of_true rfl (mul_pos hcast hvalue)
    · rw [hsign, hnegative]
      exact iff_of_false nofun (not_lt.mpr (mul_neg_of_pos_of_neg hcast hvalue).le)

/-- A natural is compared with a product as no double separates it from the exact product. -/
theorem exists_ofNat_le_mul_iff (hk : k ≠ 0) (hlt : k.natAbs < twoTo 53) (hy : isFinite y = true)
    (hne : (y == 0) = false) :
    ∃ n f, Rounds |k * value y| n f ∧ ∀ b : Nat, 0 < b → b < twoTo 53 →
      (Float.ofNat b ≤ Float.ofInt k * y ↔ 0 < k * value y ∧ (b : ℚ) ≤ n * 2 ^ f) := by
  have hpos := significand_pos hy hne
  have hkpos : 0 < k.natAbs := Int.natAbs_pos.mpr hk
  have hlog := log2_le_of_lt hlt
  have hvalue : 0 < (magnitude y).value := mul_pos (Nat.cast_pos.mpr hpos) (zpow_two_pos _)
  obtain ⟨n, f, hrounds, hle⟩ := Magnitude.exists_le_mul_iff
    (Magnitude.isCanonical_ofNatural hkpos hlog) (isCanonical_magnitude hy)
    (Magnitude.significand_ofNatural_pos hkpos) hpos (Magnitude.log2_ofNatural hkpos hlog).ge
    (signOf k) (sign y)
  refine ⟨n, f, ?_, fun b hb hblt => ?_⟩
  · rwa [Magnitude.value_ofNatural hlog, Nat.cast_natAbs, Int.cast_abs, ← abs_value,
      ← abs_mul] at hrounds
  · have hblog := log2_le_of_lt hblt
    rw [← ofInt_eq_double hkpos hlt, ← eq_double hy hpos] at hle
    rw [ofNat_eq_double hb hblt, ← sign_mul_eq_iff hk hvalue, hle _
      (Magnitude.isCanonical_ofNatural hb hblog), Magnitude.value_ofNatural hblog]

/-- The product with zero is a zero, and no natural but zero is at most this. -/
theorem not_ofNat_le_zero_mul {b : Nat} (hb : 0 < b) (hlt : b < twoTo 53) (hy : isFinite y = true)
    (hne : (y == 0) = false) : ¬ Float.ofNat b ≤ Float.ofInt 0 * y := by
  have hzero : Float.ofInt 0 * y = ⟨.pack (.zero (.positive * sign y))⟩ := by
    show Float.ofModel (.pack (.mul Format.binary64 (.zero .positive) y.toModel.unpack)) = _
    rw [unpack_eq hy (significand_pos hy hne)]
    rfl
  have hcanonical := Magnitude.isCanonical_ofNatural hb (log2_le_of_lt hlt)
  rw [ofNat_eq_double hb hlt, hzero, Magnitude.double_le_iff_unpack hcanonical, unpack_zero]
  exact Bool.false_ne_true

/-- **What a product shows**: if it is not less than the next natural after rounding, then it is
    greater than this natural before. -/
theorem lt_of_ofNat_le_mul {b : Nat} (hb : 0 < b) (hblt : b + 1 < twoTo 53)
    (hlt : k.natAbs < twoTo 53) (hy : isFinite y = true) (hne : (y == 0) = false)
    (h : Float.ofNat (b + 1) ≤ Float.ofInt k * y) : b < k * value y := by
  have hk : k ≠ 0 := by
    rintro rfl
    exact not_ofNat_le_zero_mul (Nat.succ_pos b) hblt hy hne h
  obtain ⟨n, f, hrounds, hle⟩ := exists_ofNat_le_mul_iff hk hlt hy hne
  obtain ⟨hpositive, hshown⟩ := (hle (b + 1) (Nat.succ_pos b) hblt).mp h
  rw [abs_of_pos hpositive] at hrounds
  have hlog := log2_le_of_lt (Nat.lt_of_succ_lt hblt)
  by_contra hnot
  -- Else the natural itself would not be less than what the product is rounded to.
  have habove := hrounds.above _ (Magnitude.isCanonical_ofNatural hb hlog) (by
    rw [Magnitude.value_ofNatural hlog]
    exact not_lt.mp hnot)
  rw [Magnitude.value_ofNatural hlog] at habove
  push_cast at hshown
  linarith

/-- A natural that the exact product is not less than is shown. -/
theorem ofNat_le_mul_of_le {b : Nat} (hb : 0 < b) (hblt : b < twoTo 53)
    (hlt : k.natAbs < twoTo 53) (hy : isFinite y = true) (hne : (y == 0) = false)
    (h : b ≤ k * value y) : Float.ofNat b ≤ Float.ofInt k * y := by
  have hcast : (0 : ℚ) < b := Nat.cast_pos.mpr hb
  have hk : k ≠ 0 := by
    rintro rfl
    rw [Int.cast_zero, zero_mul] at h
    linarith
  have hpositive : 0 < k * value y := hcast.trans_le h
  have hlog := log2_le_of_lt hblt
  obtain ⟨n, f, hrounds, hle⟩ := exists_ofNat_le_mul_iff hk hlt hy hne
  rw [abs_of_pos hpositive] at hrounds
  have hbelow := hrounds.below _ (Magnitude.isCanonical_ofNatural hb hlog) (by
    rwa [Magnitude.value_ofNatural hlog])
  rw [Magnitude.value_ofNatural hlog] at hbelow
  exact (hle b hb hblt).mpr ⟨hpositive, hbelow⟩

end

end BellaLang.Number
