import BellaLang.Proofs.Number.Rounding

/-!
Doubles and their bits.

A finite double that is not zero is its sign, its significand and its exponent, put into 64 bits
(`eq_double`), and these are found again when it is taken apart (`Magnitude.unpack_double`).  So a
double can be built from a significand and an exponent, as long as they are in canonical form, and
what arithmetic does with it is told by these.
-/

namespace BellaLang.Number

open Float.Model Float.Model.UnpackedFloat

/-! ## Parts of the bits -/

/-- The bits of a double. -/
abbrev bits (x : Float) : BitVec Format.binary64.numBits := x.toBits.toBitVec

/-- The sign of a double. -/
def sign (x : Float) : Sign := Sign.ofBitVec (unpackSign (bits x))

theorem ofBitVec_toBitVec (s : Sign) : Sign.ofBitVec s.toBitVec = s := by
  cases s <;> rfl

theorem toBitVec_ofBitVec (v : BitVec 1) : (Sign.ofBitVec v).toBitVec = v := by
  revert v
  decide

/-- The bits are those of the three parts, one behind the other. -/
theorem packComponents_unpack (b : BitVec Format.binary64.numBits) :
    packComponents Format.binary64 (Sign.ofBitVec (unpackSign b)) (unpackExponent b)
      (unpackMantissa b) = b := by
  have hupper : BitVec.extractLsb' 63 1 b ++ BitVec.extractLsb' 52 11 b =
      BitVec.extractLsb' 52 12 b := BitVec.extractLsb'_append_extractLsb'_eq_extractLsb' rfl
  have hall : BitVec.extractLsb' 52 12 b ++ BitVec.extractLsb' 0 52 b =
      BitVec.extractLsb' 0 64 b := BitVec.extractLsb'_append_extractLsb'_eq_extractLsb' rfl
  unfold packComponents
  rw [toBitVec_ofBitVec]
  show BitVec.extractLsb' 63 1 b ++ BitVec.extractLsb' 52 11 b ++ BitVec.extractLsb' 0 52 b = b
  rw [hupper]
  exact hall.trans BitVec.extractLsb'_eq_self

theorem unpackSign_packComponents (s : Sign) (e : BitVec 11) (m : BitVec 52) :
    unpackSign (packComponents Format.binary64 s e m) = s.toBitVec := by
  show BitVec.extractLsb' 63 1 (s.toBitVec ++ e ++ m) = s.toBitVec
  rw [BitVec.append_assoc]
  exact @BitVec.extractLsb'_append_eq_left 1 63 s.toBitVec (e ++ m)

/-- The sign is negative if its bit is set. -/
theorem isNegative_iff (x : Float) : isNegative x = true ↔ sign x = .negative := by
  have hnat : (unpackSign (bits x)).toNat = x.toBits.toNat / twoTo 63 % 2 := by
    show (BitVec.extractLsb 63 63 (bits x)).toNat = _
    rw [BitVec.extractLsb_toNat, Nat.shiftRight_eq_div_pow]
    rfl
  rw [isNegative, ← hnat, beq_iff_eq, sign]
  obtain hv | hv := BitVec.eq_zero_or_eq_one (unpackSign (bits x))
  · rw [hv]
    exact ⟨fun h => absurd h Nat.zero_ne_one, fun h => by cases h⟩
  · rw [hv]
    exact ⟨fun _ => rfl, fun _ => rfl⟩

theorem sign_of_not_negative {x : Float} (h : isNegative x = false) : sign x = .positive := by
  cases hsign : sign x with
  | positive => rfl
  | negative =>
    rw [(isNegative_iff x).mpr hsign] at h
    cases h

/-! ## Taking apart -/

theorem finite_congr {s : Sign} {m m' : Nat} {e e' : Int} {hm : 0 < m} {hm' : 0 < m'}
    (hmantissa : m = m') (hexponent : e = e') :
    UnpackedFloat.finite s m e hm = UnpackedFloat.finite s m' e' hm' := by
  subst hmantissa hexponent
  rfl

section
variable {b : BitVec Format.binary64.numBits} {m : Nat} {e : Int}

/-- The smallest doubles have no bit in the exponent. -/
theorem unpack_subnormal (hexponent : unpackExponent b = 0#11)
    (hmantissa : (unpackMantissa b).toNat = m) (hpos : 0 < m) :
    UnpackedFloat.unpack Format.binary64 b =
      .finite (Sign.ofBitVec (unpackSign b)) m (-1074) hpos := by
  have hne : unpackMantissa b ≠ 0#52 := by
    intro hzero
    rw [hzero] at hmantissa
    exact Nat.ne_of_lt hpos hmantissa
  unfold UnpackedFloat.unpack
  dsimp only
  rw [if_neg (by rw [hexponent]; decide), if_pos hexponent, dif_neg hne]
  refine finite_congr hmantissa ?_
  rw [hexponent]
  rfl

theorem toNat_one_append (v : BitVec 52) : (1#1 ++ v).toNat = twoTo 52 + v.toNat := by
  rw [BitVec.toNat_append, ← Nat.shiftLeft_add_eq_or_of_lt v.isLt]
  rfl

/-- In all others the leading bit of the significand goes without saying. -/
theorem unpack_normal (hmantissa : twoTo 52 + (unpackMantissa b).toNat = m)
    (hexponent : ((unpackExponent b).toNat : Int) = e + 1075) (hleast : -1074 ≤ e)
    (hgreatest : e ≤ 971) (hpos : 0 < m) :
    UnpackedFloat.unpack Format.binary64 b = .finite (Sign.ofBitVec (unpackSign b)) m e hpos := by
  have hones : unpackExponent b ≠ -1#11 := by
    intro heq
    rw [heq] at hexponent
    change ((2047 : Nat) : Int) = e + 1075 at hexponent
    omega
  have hzero : unpackExponent b ≠ 0#11 := by
    intro heq
    rw [heq] at hexponent
    change ((0 : Nat) : Int) = e + 1075 at hexponent
    omega
  unfold UnpackedFloat.unpack
  dsimp only
  rw [if_neg hones, if_neg hzero]
  refine finite_congr ((toNat_one_append _).trans hmantissa) ?_
  rw [hexponent]
  show e + 1075 - ((1023 : Nat) + (52 : Nat)) = e
  omega

end

/-! ## Putting together -/

namespace Magnitude

/-- The double with this magnitude and this sign. -/
def double (x : Magnitude) (s : Sign) (hpos : 0 < x.significand) : Float :=
  ⟨Float.Model.pack (.finite s x.significand x.exponent hpos)⟩

section
variable {x : Magnitude} {hpos : 0 < x.significand}

/-- The leading bit is left out, unless it is not where it should be. -/
theorem bits_double (hx : x.IsCanonical) (s : Sign) :
    bits (x.double s hpos) =
      if x.significand < twoTo 52 then
        packComponents Format.binary64 s 0#11 (.ofNat 52 x.significand)
      else packComponents Format.binary64 s (.ofNat 11 (x.exponent + 1075).toNat)
        (.ofNat 52 x.significand) := by
  have hgreatest := hx.le_greatest
  have hbiased : (x.exponent + Format.binary64.exponentBias + (52 : Nat)).toNat =
      (x.exponent + 1075).toNat := by
    show (x.exponent + (1023 : Nat) + (52 : Nat)).toNat = (x.exponent + 1075).toNat
    omega
  have hrange : ¬ 2 ^ Format.binary64.exponentBits ≤ (x.exponent + 1075).toNat + 1 := by
    show ¬ 2048 ≤ (x.exponent + 1075).toNat + 1
    omega
  have hleading : x.significand.log2 + 1 = Format.binary64.mantissaBits ↔
      ¬ x.significand < twoTo 52 := by
    show x.significand.log2 + 1 = 52 + 1 ↔ _
    rw [Nat.add_right_cancel_iff, Nat.log2_eq_iff (Nat.ne_of_gt hpos), not_lt]
    exact ⟨fun h => h.1, fun h => ⟨h, hx.lt⟩⟩
  show UnpackedFloat.pack Format.binary64 (.finite s x.significand x.exponent hpos) = _
  unfold UnpackedFloat.pack
  dsimp only
  rw [hbiased, if_neg hrange]
  by_cases hsmall : x.significand < twoTo 52
  · rw [if_pos hsmall, if_neg fun h => hleading.mp h hsmall]
  · rw [if_neg hsmall, if_pos (hleading.mpr hsmall)]

/-- **A double is taken apart into what it was built from.** -/
theorem unpack_double (hx : x.IsCanonical) (s : Sign) :
    (x.double s hpos).toModel.unpack = .finite s x.significand x.exponent hpos := by
  have hsign (e : BitVec 11) (m : BitVec 52) :
      Sign.ofBitVec (unpackSign (packComponents Format.binary64 s e m)) = s := by
    rw [unpackSign_packComponents, ofBitVec_toBitVec]
  have hleast := hx.least_le
  have hgreatest := hx.le_greatest
  show UnpackedFloat.unpack Format.binary64 (bits (x.double s hpos)) = _
  rw [bits_double hx]
  by_cases hsmall : x.significand < twoTo 52
  · have hnormal := hx.normal
    have hexponent : x.exponent = -1074 := by omega
    rw [if_pos hsmall, unpack_subnormal unpackExponent_packComponents ?_ hpos, hsign, hexponent]
    rw [unpackMantissa_packComponents]
    exact Nat.mod_eq_of_lt hsmall
  · rw [if_neg hsmall, unpack_normal ?_ ?_ hleast hgreatest hpos, hsign]
    · have hlt := hx.lt
      have hdouble : twoTo 53 = 2 * twoTo 52 := rfl
      have hmod : x.significand % twoTo 52 = x.significand - twoTo 52 := by
        rw [Nat.mod_eq_sub_mod (Nat.not_lt.mp hsmall), Nat.mod_eq_of_lt (by omega)]
      rw [unpackMantissa_packComponents]
      show twoTo 52 + x.significand % twoTo 52 = x.significand
      omega
    · rw [unpackExponent_packComponents]
      show (((x.exponent + 1075).toNat % 2048 : Nat) : Int) = x.exponent + 1075
      omega

/-- The other sign. -/
theorem neg_double (hx : x.IsCanonical) (s : Sign) : -x.double s hpos = x.double (-s) hpos := by
  show Float.ofModel (.pack (x.double s hpos).toModel.unpack.neg) = _
  rw [unpack_double hx]
  rfl

end

end Magnitude

/-! ## Finite doubles -/

section
variable {x : Float}

theorem magnitude_eq (x : Float) :
    magnitude x =
      if unpackExponent (bits x) = 0#11 then ⟨(unpackMantissa (bits x)).toNat, -1074, false⟩
      else ⟨twoTo 52 + (unpackMantissa (bits x)).toNat,
        ((unpackExponent (bits x)).toNat : Int) - 1075,
        (unpackMantissa (bits x)).toNat = 0 && 1 < (unpackExponent (bits x)).toNat⟩ := by
  unfold magnitude
  dsimp only
  rw [← unpackExponent_toNat, ← unpackMantissa_toNat]
  exact if_congr (BitVec.toNat_eq (y := 0#11)).symm rfl rfl

theorem unpackExponent_lt (h : isFinite x = true) : (unpackExponent (bits x)).toNat < 2047 := by
  have hlt : (unpackExponent (bits x)).toNat < 2048 := (unpackExponent (bits x)).isLt
  have hfield : (unpackExponent (bits x)).toNat = x.toBits.toNat / twoTo 52 % twoTo 11 :=
    unpackExponent_toNat x
  rw [isFinite, ← hfield, bne_iff_ne] at h
  exact Nat.lt_of_le_of_ne (Nat.le_of_lt_succ hlt) h

/-- The magnitude of a finite double is in canonical form. -/
theorem isCanonical_magnitude (h : isFinite x = true) : (magnitude x).IsCanonical := by
  have hmantissa : (unpackMantissa (bits x)).toNat < twoTo 52 := (unpackMantissa (bits x)).isLt
  have hexponent := unpackExponent_lt h
  have hdouble : twoTo 53 = 2 * twoTo 52 := rfl
  rw [magnitude_eq]
  split
  · have hsmall : (unpackMantissa (bits x)).toNat < twoTo 53 := by omega
    have hgreatest : (-1074 : Int) ≤ 971 := by decide
    exact ⟨hsmall, le_rfl, hgreatest, fun h => absurd h (lt_irrefl _), by simp⟩
  · rename_i hne
    have hpos : (unpackExponent (bits x)).toNat ≠ 0 :=
      fun hnat => hne (BitVec.eq_of_toNat_eq hnat)
    refine ⟨?_, ?_, ?_, fun h => ?_, ?_⟩ <;> dsimp only
    · omega
    · omega
    · omega
    · omega
    · rw [Bool.and_eq_true, decide_eq_true_iff, decide_eq_true_iff]
      omega

theorem eq_of_bits {x y : Float} (h : bits x = bits y) : x = y := by
  obtain ⟨⟨⟨b⟩, hvalid⟩⟩ := x
  obtain ⟨⟨⟨b'⟩, hvalid'⟩⟩ := y
  obtain rfl : b = b' := h
  rfl

/-- **A finite double that is not zero is built from its sign and its magnitude.** -/
theorem eq_double (h : isFinite x = true) (hpos : 0 < (magnitude x).significand) :
    x = (magnitude x).double (sign x) hpos := by
  have hmantissa : (unpackMantissa (bits x)).toNat < twoTo 52 := (unpackMantissa (bits x)).isLt
  have hexponent := unpackExponent_lt h
  refine (eq_of_bits ?_).symm
  conv_rhs => rw [← packComponents_unpack (bits x)]
  rw [Magnitude.bits_double (isCanonical_magnitude h), sign]
  by_cases hsubnormal : unpackExponent (bits x) = 0#11
  · have hparts := magnitude_eq x
    rw [if_pos hsubnormal] at hparts
    rw [hparts]
    dsimp only
    rw [if_pos hmantissa, hsubnormal, BitVec.ofNat_toNat, BitVec.setWidth_eq]
  · have hparts := magnitude_eq x
    rw [if_neg hsubnormal] at hparts
    have hbiased : ((unpackExponent (bits x)).toNat - 1075 + 1075 : Int).toNat =
        (unpackExponent (bits x)).toNat := by omega
    have hleading : BitVec.ofNat 52 (twoTo 52 + (unpackMantissa (bits x)).toNat) =
        unpackMantissa (bits x) := by
      refine BitVec.eq_of_toNat_eq ?_
      show (twoTo 52 + (unpackMantissa (bits x)).toNat) % twoTo 52 = _
      rw [Nat.add_mod_left, Nat.mod_eq_of_lt hmantissa]
    rw [hparts]
    dsimp only
    rw [if_neg (by omega), hbiased, hleading, BitVec.ofNat_toNat, BitVec.setWidth_eq]

/-- A zero without a sign is the double zero. -/
theorem eq_zero (h : isFinite x = true) (hsign : isNegative x = false) (hzero : (x == 0) = true) :
    x = 0 := by
  have hsignificand := (beq_zero_iff h).mp hzero
  rw [magnitude_eq] at hsignificand
  split at hsignificand
  · rename_i hexponent
    have hmantissa : unpackMantissa (bits x) = 0#52 := BitVec.eq_of_toNat_eq hsignificand
    refine eq_of_bits ?_
    rw [← packComponents_unpack (bits x), ← sign, sign_of_not_negative hsign, hexponent,
      hmantissa]
    decide
  · exact absurd hsignificand (Nat.ne_of_gt (Nat.add_pos_left (Nat.two_pow_pos 52) _))

/-- A finite double is taken apart into its sign and its magnitude. -/
theorem unpack_eq (h : isFinite x = true) (hpos : 0 < (magnitude x).significand) :
    x.toModel.unpack = .finite (sign x) (magnitude x).significand (magnitude x).exponent hpos :=
  (congrArg (fun y : Float => y.toModel.unpack) (eq_double h hpos)).trans
    (Magnitude.unpack_double (isCanonical_magnitude h) (sign x))

/-- A finite double is negative if its sign is, and it is not zero. -/
theorem lt_zero_iff (h : isFinite x = true) :
    x < 0 ↔ isNegative x = true ∧ (x == 0) = false := by
  have hlt : x < 0 ↔ x.toModel.unpack.lt (.zero .positive) = true := decide_eq_true_iff
  rw [hlt, isNegative_iff]
  by_cases hpos : 0 < (magnitude x).significand
  · have hne : (x == 0) = false :=
      Bool.eq_false_iff.mpr fun hzero => Nat.ne_of_gt hpos ((beq_zero_iff h).mp hzero)
    rw [unpack_eq h hpos, hne]
    cases sign x with
    | negative => exact ⟨fun _ => ⟨rfl, rfl⟩, fun _ => rfl⟩
    | positive => exact ⟨fun hless => (by cases hless), fun hsign => (by cases hsign.1)⟩
  · have hzero : (magnitude x).significand = 0 := Nat.eq_zero_of_not_pos hpos
    rw [(beq_zero_iff h).mpr hzero]
    rcases unpack_of_isFinite h with ⟨s, hunpack, -⟩ | ⟨-, -, -, -, -, hlead⟩
    · rw [hunpack]
      exact ⟨fun hless => (by cases hless), fun hsign => (by cases hsign.2)⟩
    · exact absurd hlead hpos

/-- A double is less than zero if what it stands for is. -/
theorem lt_zero_iff_value (h : isFinite x = true) : x < 0 ↔ value x < 0 := by
  have hnonneg := (magnitude x).value_nonneg
  rw [lt_zero_iff h]
  unfold value
  cases hnegative : isNegative x with
  | false =>
    rw [if_neg Bool.false_ne_true]
    exact iff_of_false (fun hparts => nomatch hparts.1) (not_lt.mpr hnonneg)
  | true =>
    rw [if_pos rfl, neg_lt_zero]
    constructor
    · rintro ⟨-, hne⟩
      exact mul_pos (Nat.cast_pos.mpr (significand_pos h hne)) (zpow_two_pos _)
    · intro hpos
      refine ⟨rfl, Bool.eq_false_iff.mpr fun hzero => ?_⟩
      exact hpos.ne' ((magnitude x).value_eq_zero_iff.mpr ((beq_zero_iff h).mp hzero))

end

end BellaLang.Number
