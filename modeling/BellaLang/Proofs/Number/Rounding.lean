import BellaLang.Number.Shortest
import BellaLang.Proofs.Number.Whole
import Mathlib.Algebra.Ring.Parity
import Mathlib.Tactic.FieldSimp
import Mathlib.Tactic.Ring

/-!
Rounding to the nearest double.

Products and quotients of doubles are computed with all the bits that matter and rounded once.  This
file says what comes out: whatever rational is rounded, if it lies in the interval that belongs to a
double then the result is this double.

  1. A mantissa with two more bits tells where a rational lies between two naturals (`Locates`), and
     goes on to do so when it is shifted to the right (`Locates.shiftRight`).
  2. Rounding it gives the natural that the rational is nearest to (`Locates.roundedMantissa_eq`).
  3. The exponent that a rational is rounded at is that of the double in whose interval it lies.
     There is one exception: just below a power of two the exponent is one less, since the doubles
     lie closer there, and then the mantissa overflows (`target_cases`).

Main statement: `roundWithAccuracy_eq`.
-/

namespace BellaLang.Number

open Float.Model Float.Model.UnpackedFloat

/-! ## Where a rational lies -/

theorem le_of_cast_lt {a b : Nat} (h : (a : ℚ) < b + 1) : a ≤ b := by
  have hcast : (a : ℚ) < (b + 1 : Nat) := by
    rw [Nat.cast_succ]
    exact h
  exact Nat.lt_succ_iff.mp (Nat.cast_lt.mp hcast)

/-- The mantissa is the rational rounded down, and the two bits tell whether it is exact, and how
    the rest compares with a half. -/
inductive Locates : ExtendedMantissa → ℚ → Prop
  | exact (m : Nat) : Locates ⟨m, false, false⟩ m
  | low {m : Nat} {u : ℚ} (hgreater : m < u) (hless : u < m + 1 / 2) : Locates ⟨m, false, true⟩ u
  | half {m : Nat} {u : ℚ} (h : u = m + 1 / 2) : Locates ⟨m, true, false⟩ u
  | high {m : Nat} {u : ℚ} (hgreater : m + 1 / 2 < u) (hless : u < m + 1) :
    Locates ⟨m, true, true⟩ u

namespace Locates

variable {em : ExtendedMantissa} {u : ℚ}

theorem le (h : Locates em u) : (em.mantissa : ℚ) ≤ u := by
  cases h with
  | exact m => exact le_rfl
  | low hgreater hless => exact hgreater.le
  | half h => linarith
  | high hgreater hless => linarith

theorem lt (h : Locates em u) : u < em.mantissa + 1 := by
  cases h with
  | exact m => exact lt_add_one _
  | low hgreater hless => linarith
  | half h => linarith
  | high hgreater hless => linarith

/-- One place to the right: the last bit of the mantissa decides about the half. -/
theorem shiftRightOne (h : Locates em u) : Locates em.shiftRightOne (u / 2) := by
  obtain ⟨m, roundBit, stickyBit⟩ := em
  obtain ⟨k, rfl | rfl⟩ := m.even_or_odd'
  · have hshift : ExtendedMantissa.shiftRightOne ⟨2 * k, roundBit, stickyBit⟩ =
        ⟨k, false, roundBit || stickyBit⟩ := by
      simp [ExtendedMantissa.shiftRightOne]
    rw [hshift]
    cases h with
    | exact m =>
      have hhalf : ((2 * k : Nat) : ℚ) / 2 = k := by push_cast; ring
      rw [hhalf]
      exact .exact k
    | low hgreater hless =>
      push_cast at hgreater hless
      exact .low (by linarith) (by linarith)
    | half h =>
      push_cast at h
      exact .low (by linarith) (by linarith)
    | high hgreater hless =>
      push_cast at hgreater hless
      exact .low (by linarith) (by linarith)
  · have hshift : ExtendedMantissa.shiftRightOne ⟨2 * k + 1, roundBit, stickyBit⟩ =
        ⟨k, true, roundBit || stickyBit⟩ := by
      have hdiv : (2 * k + 1) / 2 = k := by omega
      simp [ExtendedMantissa.shiftRightOne, hdiv]
    rw [hshift]
    cases h with
    | exact m => exact .half (by push_cast; ring)
    | low hgreater hless =>
      push_cast at hgreater hless
      exact .high (by linarith) (by linarith)
    | half h =>
      push_cast at h
      exact .high (by linarith) (by linarith)
    | high hgreater hless =>
      push_cast at hgreater hless
      exact .high (by linarith) (by linarith)

/-- Several places to the right. -/
theorem shiftRight (h : Locates em u) (n : Nat) : Locates (em >>> n) (u / 2 ^ n) := by
  induction n with
  | zero =>
    rw [pow_zero, div_one]
    exact h
  | succ n ih =>
    have hnext : u / 2 ^ (n + 1) = u / 2 ^ n / 2 := by rw [pow_succ, div_div]
    rw [hnext]
    exact ih.shiftRightOne

/-- **Rounding** gives the natural that the rational is nearest to, and half-way between two the
    even one. -/
theorem roundedMantissa_eq (h : Locates em u) {k : Nat} (hleast : (k : ℚ) - 1 / 2 ≤ u)
    (hgreatest : u ≤ k + 1 / 2)
    (hodd : k % 2 ≠ 0 → (k : ℚ) - 1 / 2 < u ∧ u < k + 1 / 2) : em.roundedMantissa = k := by
  cases h with
  | exact m =>
    have hle : m ≤ k := le_of_cast_lt (by linarith)
    have hge : k ≤ m := le_of_cast_lt (by linarith)
    exact Nat.le_antisymm hle hge
  | @low m u hgreater hless =>
    have hle : m ≤ k := le_of_cast_lt (by linarith)
    have hge : k ≤ m := le_of_cast_lt (by linarith)
    exact Nat.le_antisymm hle hge
  | @half m u h =>
    show m + m % 2 = k
    have hle : m ≤ k := le_of_cast_lt (by linarith)
    have hge : k ≤ m + 1 := le_of_cast_lt (by push_cast; linarith)
    -- At both ends the rational is half-way, so `k` is even.
    have heven : k % 2 = 0 := by
      by_contra hne
      obtain ⟨hlower, hupper⟩ := hodd hne
      rcases Nat.le_succ_iff.mp hge with hsame | hnext
      · have hcast : (k : ℚ) ≤ m := Nat.cast_le.mpr hsame
        linarith
      · have hcast : (k : ℚ) = m + 1 := by rw [hnext, Nat.cast_succ]
        linarith
    omega
  | @high m u hgreater hless =>
    show m + 1 = k
    have hle : m + 1 ≤ k := le_of_cast_lt (by push_cast; linarith)
    have hge : k ≤ m + 1 := le_of_cast_lt (by push_cast; linarith)
    exact Nat.le_antisymm hle hge

end Locates

/-! ## Powers -/

theorem zpow_two_pos (e : Int) : (0 : ℚ) < 2 ^ e := zpow_pos two_pos e

theorem zpow_ten_pos (e : Int) : (0 : ℚ) < 10 ^ e := zpow_pos (by norm_num) e

theorem cast_tenTo (n : Nat) : ((tenTo n : Nat) : ℚ) = 10 ^ n := Nat.cast_pow 10 n

/-! ## The interval of a double -/

/-- The significand and the exponent are those of a finite double. -/
structure Magnitude.IsCanonical (x : Magnitude) : Prop where
  lt : x.significand < twoTo 53
  least_le : -1074 ≤ x.exponent
  le_greatest : x.exponent ≤ 971
  normal : -1074 < x.exponent → twoTo 52 ≤ x.significand
  narrow : x.narrowBelow = true ↔ x.significand = twoTo 52 ∧ -1074 < x.exponent

/-- The distance to the lower end of the interval, in units of the last place. -/
def Magnitude.slack (x : Magnitude) : ℚ := if x.narrowBelow then 1 / 4 else 1 / 2

/-- The rational lies in the interval that belongs to the double.  The ends belong to it if the
    significand is even. -/
structure Magnitude.Holds (x : Magnitude) (q : ℚ) : Prop where
  least : (x.significand - x.slack) * 2 ^ x.exponent ≤ q
  greatest : q ≤ (x.significand + 1 / 2) * 2 ^ x.exponent
  inside : x.significand % 2 ≠ 0 →
    (x.significand - x.slack) * 2 ^ x.exponent < q ∧ q < (x.significand + 1 / 2) * 2 ^ x.exponent

theorem Magnitude.slack_le (x : Magnitude) : x.slack ≤ 1 / 2 := by
  unfold slack
  split <;> norm_num

theorem Magnitude.slack_pos (x : Magnitude) : 0 < x.slack := by
  unfold slack
  split <;> norm_num

/-- A double lies in its own interval. -/
theorem Magnitude.holds_value (x : Magnitude) : x.Holds x.value := by
  have hunit := zpow_two_pos x.exponent
  have hslack := x.slack_pos
  have hlower : (x.significand - x.slack) * 2 ^ x.exponent < x.value :=
    mul_lt_mul_of_pos_right (by linarith) hunit
  have hupper : x.value < (x.significand + 1 / 2) * 2 ^ x.exponent :=
    mul_lt_mul_of_pos_right (by linarith) hunit
  exact ⟨hlower.le, hupper.le, fun _ => ⟨hlower, hupper⟩⟩

/-! ## Exponents -/

/-- The exponent that a mantissa is shifted to. -/
theorem targetExponent_eq (m : Nat) (e : Int) :
    Format.binary64.targetExponent (totalExponent m e) = max (m.log2 + e - 52) (-1074) := by
  unfold Format.targetExponent totalExponent Format.minExponent Format.mantissaBits
  norm_num
  omega

/-- A rational is less than the power of two behind its leading bit. -/
theorem Locates.lt_zpow {em : ExtendedMantissa} {q : ℚ} {e : Int} (h : Locates em (q / 2 ^ e)) :
    q < 2 ^ (em.mantissa.log2 + 1 + e) := by
  have hlog : em.mantissa + 1 ≤ twoTo (em.mantissa.log2 + 1) := Nat.lt_log2_self
  have hcast : (em.mantissa : ℚ) + 1 ≤ 2 ^ (em.mantissa.log2 + 1) := by
    rw [← cast_twoTo]
    exact_mod_cast hlog
  have hless : q < (em.mantissa + 1) * 2 ^ e := (div_lt_iff₀ (zpow_two_pos e)).mp h.lt
  calc q < (em.mantissa + 1) * 2 ^ e := hless
    _ ≤ 2 ^ (em.mantissa.log2 + 1) * 2 ^ e := by
      exact mul_le_mul_of_nonneg_right hcast (zpow_two_pos e).le
    _ = 2 ^ (em.mantissa.log2 + 1 + e) := by
      rw [zpow_add₀ two_ne_zero, ← zpow_natCast]
      push_cast
      ring

/-- It is not less than the power of two of its leading bit. -/
theorem Locates.zpow_le {em : ExtendedMantissa} {q : ℚ} {e : Int} (h : Locates em (q / 2 ^ e))
    (hpos : em.mantissa ≠ 0) : (2 : ℚ) ^ (em.mantissa.log2 + e) ≤ q := by
  have hlog : twoTo em.mantissa.log2 ≤ em.mantissa := Nat.log2_self_le hpos
  have hcast : (2 : ℚ) ^ em.mantissa.log2 ≤ em.mantissa := by
    rw [← cast_twoTo]
    exact_mod_cast hlog
  have hleast : em.mantissa * 2 ^ e ≤ q := (le_div_iff₀ (zpow_two_pos e)).mp h.le
  calc (2 : ℚ) ^ (em.mantissa.log2 + e) = 2 ^ em.mantissa.log2 * 2 ^ e := by
        rw [zpow_add₀ two_ne_zero, zpow_natCast]
    _ ≤ em.mantissa * 2 ^ e := mul_le_mul_of_nonneg_right hcast (zpow_two_pos e).le
    _ ≤ q := hleast

theorem mantissa_ofMantissaAndAccuracy (m : Nat) (accuracy : Accuracy) :
    (ExtendedMantissa.ofMantissaAndAccuracy m accuracy).mantissa = m := by
  unfold ExtendedMantissa.ofMantissaAndAccuracy
  split <;> rfl

section
variable {x : Magnitude} {q : ℚ} {m : Nat} {e : Int} {accuracy : Accuracy}

/-- What lies in the interval of a double is less than the next power of two behind it. -/
theorem Magnitude.Holds.lt_zpow (hq : x.Holds q) (hx : x.IsCanonical) :
    q < 2 ^ (53 + x.exponent) := by
  have hsignificand : (x.significand : ℚ) + 1 ≤ 2 ^ 53 := by
    have hcast : ((x.significand + 1 : Nat) : ℚ) ≤ (twoTo 53 : Nat) := Nat.cast_le.mpr hx.lt
    rwa [cast_twoTo, Nat.cast_succ] at hcast
  calc q ≤ (x.significand + 1 / 2) * 2 ^ x.exponent := hq.greatest
    _ < 2 ^ 53 * 2 ^ x.exponent := by
      refine mul_lt_mul_of_pos_right ?_ (zpow_two_pos _)
      linarith
    _ = 2 ^ (53 + x.exponent) := by
      rw [zpow_add₀ two_ne_zero]
      norm_cast

/-- What lies in the interval of a double and is less than a power of two that the double is not
    less than, lies just below the double, which is this power of two. -/
theorem Magnitude.Holds.eq_of_lt_zpow (hq : x.Holds q) (hx : x.IsCanonical)
    (hnormal : -1074 < x.exponent) (hless : q < 2 ^ (52 + x.exponent)) :
    x.significand = twoTo 52 ∧ (2 : ℚ) ^ (51 + x.exponent) ≤ q := by
  have hpower (n : Nat) : (2 : ℚ) ^ (n + x.exponent) = 2 ^ n * 2 ^ x.exponent := by
    rw [zpow_add₀ two_ne_zero, zpow_natCast]
  have hbelow : (x.significand - x.slack) * 2 ^ x.exponent < 2 ^ 52 * 2 ^ x.exponent := by
    rw [← hpower]
    exact lt_of_le_of_lt hq.least hless
  have hsignificand : (x.significand : ℚ) < 2 ^ 52 + 1 := by
    have hslack := x.slack_le
    have hcancel := lt_of_mul_lt_mul_right hbelow (zpow_two_pos _).le
    linarith
  have hle : x.significand ≤ twoTo 52 := by
    refine le_of_cast_lt ?_
    rw [cast_twoTo]
    exact hsignificand
  have hsame : x.significand = twoTo 52 := Nat.le_antisymm hle (hx.normal hnormal)
  refine ⟨hsame, ?_⟩
  have hslack := x.slack_le
  have hcast : (x.significand : ℚ) = 2 ^ 52 := by rw [hsame, cast_twoTo]
  calc (2 : ℚ) ^ (51 + x.exponent) = 2 ^ 51 * 2 ^ x.exponent := hpower 51
    _ ≤ (x.significand - x.slack) * 2 ^ x.exponent := by
      refine mul_le_mul_of_nonneg_right ?_ (zpow_two_pos _).le
      rw [hcast]
      linarith
    _ ≤ q := hq.least

/-- **The exponent of rounding** is that of the double in whose interval the rational lies, or one
    less: then the rational lies just below a power of two. -/
theorem Magnitude.Holds.target_cases (hq : x.Holds q) (hx : x.IsCanonical)
    (hlocates : Locates (.ofMantissaAndAccuracy m accuracy) (q / 2 ^ e))
    {target : Int} (htarget : target = max (m.log2 + e - 52) (-1074)) (hle : e ≤ target) :
    target = x.exponent ∨
      (target = x.exponent - 1 ∧ x.significand = twoTo 52 ∧ -1074 < x.exponent ∧
        q < 2 ^ (52 + x.exponent)) := by
  have hmantissa := mantissa_ofMantissaAndAccuracy m accuracy
  have hless := hlocates.lt_zpow
  rw [hmantissa] at hless
  have hleast := hx.least_le
  rcases lt_trichotomy target x.exponent with hlower | hsame | hhigher
  · have hnormal : -1074 < x.exponent := by omega
    have hbelow : q < 2 ^ (52 + x.exponent) := by
      refine lt_of_lt_of_le hless (zpow_le_zpow_right₀ one_le_two ?_)
      omega
    obtain ⟨hsignificand, habove⟩ := hq.eq_of_lt_zpow hx hnormal hbelow
    have hexponent : 51 + x.exponent < m.log2 + 1 + e :=
      (zpow_lt_zpow_iff_right₀ one_lt_two).mp (lt_of_le_of_lt habove hless)
    exact .inr ⟨by omega, hsignificand, hnormal, hbelow⟩
  · exact .inl hsame
  · -- The leading bit would lie behind all that belongs to the double.
    have hpos : m ≠ 0 := by
      rintro rfl
      rw [Nat.log2_zero] at htarget
      omega
    have hreaches := hlocates.zpow_le (by rw [hmantissa]; exact hpos)
    rw [hmantissa] at hreaches
    have hexponent : m.log2 + e < 53 + x.exponent :=
      (zpow_lt_zpow_iff_right₀ one_lt_two).mp (lt_of_le_of_lt hreaches (hq.lt_zpow hx))
    omega

/-! ## Rounding -/

/-- Shifted to the right, a mantissa tells where the rational lies in a greater unit. -/
theorem Locates.shiftTo {em : ExtendedMantissa} {target : Int} (h : Locates em (q / 2 ^ e))
    (hle : e ≤ target) : Locates (em >>> (target - e).toNat) (q / 2 ^ target) := by
  have hshifted := h.shiftRight (target - e).toNat
  have hsum : e + ((target - e).toNat : Int) = target := by omega
  rwa [div_div, ← zpow_natCast, ← zpow_add₀ two_ne_zero, hsum] at hshifted

/-- Shifting to the target exponent, if that is not less than the exponent there is. -/
theorem shiftToTargetExponent_eq (accuracy : Accuracy) {target : Int}
    (htarget : target = max (m.log2 + e - 52) (-1074)) (hle : e ≤ target) :
    shiftToTargetExponent Format.binary64 m e accuracy =
      (ExtendedMantissa.ofMantissaAndAccuracy m accuracy >>> (target - e).toNat, target) := by
  have hexponent : e + ((target - e).toNat : Int) = target := by omega
  unfold shiftToTargetExponent shiftToExponent
  rw [targetExponent_eq, ← htarget]
  dsimp only
  rw [hexponent]

/-- A natural that has no more bits than a double. -/
theorem log2_le_of_lt {n : Nat} (h : n < twoTo 53) : n.log2 ≤ 52 := by
  rcases Nat.eq_zero_or_pos n with rfl | hpos
  · decide
  · exact Nat.lt_succ_iff.mp ((Nat.log2_lt (Nat.ne_of_gt hpos)).mpr h)

/-- A mantissa that has no more bits than a double stays where it is. -/
theorem shift_exact {m : Nat} {e : Int} (hlt : m < twoTo 53) (hleast : -1074 ≤ e) :
    shiftToTargetExponent Format.binary64 m e .exact = (⟨m, false, false⟩, e) := by
  have hlog := log2_le_of_lt hlt
  have hnone : (max (m.log2 + e - 52) (-1074) - e).toNat = 0 := by
    omega
  unfold shiftToTargetExponent shiftToExponent
  rw [targetExponent_eq]
  dsimp only
  rw [hnone, Int.natCast_zero, Int.add_zero]
  rfl

/-- The significand of a double needs no more places. -/
theorem Magnitude.IsCanonical.shift_eq (hx : x.IsCanonical) :
    shiftToTargetExponent Format.binary64 x.significand x.exponent .exact =
      (⟨x.significand, false, false⟩, x.exponent) := shift_exact hx.lt hx.least_le

/-- A mantissa that has overflowed goes one place to the right. -/
theorem shift_overflow {e : Int} (he : -1074 ≤ e) :
    shiftToTargetExponent Format.binary64 (twoTo 53) e .exact =
      (⟨twoTo 52, false, false⟩, e + 1) := by
  have hlog : (twoTo 53).log2 = 53 := Nat.log2_two_pow
  have hone : (max ((twoTo 53).log2 + e - 52) (-1074) - e).toNat = 1 := by
    rw [hlog]
    omega
  unfold shiftToTargetExponent shiftToExponent
  rw [targetExponent_eq]
  dsimp only
  rw [hone]
  rfl

/-- **Rounding** a rational gives the double in whose interval it lies, provided that the mantissa
    has enough bits. -/
theorem roundWithAccuracy_eq (hx : x.IsCanonical) (hpos : 0 < x.significand) (hq : x.Holds q)
    (hlocates : Locates (.ofMantissaAndAccuracy m accuracy) (q / 2 ^ e))
    (hle : e ≤ max (m.log2 + e - 52) (-1074)) (sign : Sign) :
    roundWithAccuracy Format.binary64 sign m e accuracy =
      .finite sign x.significand x.exponent hpos := by
  generalize htarget : max (m.log2 + e - 52) (-1074) = target at hle
  have hfirst := shiftToTargetExponent_eq accuracy htarget.symm hle
  have hshifted := hlocates.shiftTo hle
  unfold roundWithAccuracy
  rw [hfirst]
  dsimp only
  rcases hq.target_cases hx hlocates htarget.symm hle with rfl | ⟨rfl, hpowerOfTwo, hnormal, hless⟩
  · have hunit := zpow_two_pos x.exponent
    have hslack := x.slack_le
    have hleast := (le_div_iff₀ hunit).mpr hq.least
    have hrounded := hshifted.roundedMantissa_eq (k := x.significand) (by linarith)
      ((div_le_iff₀ hunit).mpr hq.greatest) fun hodd => by
        have hinside := hq.inside hodd
        have hlower := (lt_div_iff₀ hunit).mpr hinside.1
        exact ⟨by linarith, (div_lt_iff₀ hunit).mpr hinside.2⟩
    rw [hrounded, hx.shift_eq]
    exact dif_neg (Nat.ne_of_gt hpos)
  · -- Seen from the lower exponent, the double is the natural behind all mantissas.
    have hunit := zpow_two_pos (x.exponent - 1)
    have hnarrow : x.slack = 1 / 4 := if_pos (hx.narrow.mpr ⟨hpowerOfTwo, hnormal⟩)
    have hdouble : (2 : ℚ) ^ x.exponent = 2 * 2 ^ (x.exponent - 1) := by
      rw [zpow_sub_one₀ two_ne_zero]
      ring
    have hsignificand : (x.significand : ℚ) = 2 ^ 52 := by rw [hpowerOfTwo, cast_twoTo]
    have hmantissa : ((twoTo 53 : Nat) : ℚ) = 2 * 2 ^ 52 := by
      rw [cast_twoTo]
      norm_num
    have hleast : ((twoTo 53 : Nat) : ℚ) - 1 / 2 ≤ q / 2 ^ (x.exponent - 1) := by
      rw [le_div_iff₀ hunit, hmantissa]
      have hbound := hq.least
      rw [hnarrow, hsignificand, hdouble] at hbound
      linarith
    have hgreatest : q / 2 ^ (x.exponent - 1) < (twoTo 53 : Nat) := by
      rw [div_lt_iff₀ hunit, hmantissa]
      rw [zpow_add₀ two_ne_zero, hdouble] at hless
      calc q < 2 ^ (52 : Int) * (2 * 2 ^ (x.exponent - 1)) := hless
        _ = 2 * 2 ^ 52 * 2 ^ (x.exponent - 1) := by
          norm_cast
          ring
    have hrounded := hshifted.roundedMantissa_eq (k := twoTo 53) hleast (by linarith)
      fun hodd => absurd (by decide : twoTo 53 % 2 = 0) hodd
    rw [hrounded, shift_overflow (by omega)]
    dsimp only
    rw [dif_neg (by decide)]
    congr 1
    · exact hpowerOfTwo.symm
    · omega

end

end BellaLang.Number
