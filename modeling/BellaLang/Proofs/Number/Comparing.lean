import BellaLang.Number.Arithmetic
import BellaLang.Proofs.Number.Packing

/-!
When doubles are equal.

Taking a double apart loses nothing, so doubles that are taken apart alike are the same
(`pack_unpack`).  Doubles are compared by what they are taken apart into: two of them compare equal
if they are the same and no NaN, or if both are zero (`beq_iff`).  As numbers of the language they
are equal if they are the same, or if both are zero (`same_iff`), and from that everything else
about this equality is read off.
-/

namespace BellaLang.Number

open Float.Model Float.Model.UnpackedFloat

/-! ## Taking apart and putting together -/

/-- A double that is not finite has all bits of the exponent set. -/
theorem unpackExponent_of_not_finite {x : Float} (h : isFinite x = false) :
    unpackExponent (bits x) = -1#11 := by
  have hfield : (unpackExponent (bits x)).toNat = x.toBits.toNat / twoTo 52 % twoTo 11 :=
    unpackExponent_toNat x
  rw [isFinite, ← hfield, bne_eq_false_iff_eq] at h
  exact BitVec.eq_of_toNat_eq h

/-- A finite double with nothing in its significand has no bits but the sign. -/
theorem bits_of_zero {x : Float} (hzero : (magnitude x).significand = 0) :
    unpackExponent (bits x) = 0#11 ∧ unpackMantissa (bits x) = 0#52 := by
  rw [magnitude_eq] at hzero
  split at hzero
  · rename_i hexponent
    exact ⟨hexponent, BitVec.eq_of_toNat_eq hzero⟩
  · exact absurd hzero (Nat.ne_of_gt (Nat.add_pos_left (Nat.two_pow_pos 52) _))

/-- What a double without a significand, or one that is not finite, is taken apart into. -/
theorem unpack_special (x : Float) :
    ((magnitude x).significand = 0 → x.toModel.unpack = .zero (sign x)) ∧
    (isFinite x = false → unpackMantissa (bits x) = 0#52 → x.toModel.unpack = .infinity (sign x)) ∧
    (isFinite x = false → unpackMantissa (bits x) ≠ 0#52 → x.toModel.unpack = .notANumber) := by
  have hunpack : x.toModel.unpack = UnpackedFloat.unpack Format.binary64 (bits x) := rfl
  rw [hunpack]
  unfold UnpackedFloat.unpack
  dsimp only
  refine ⟨fun hzero => ?_, fun hfinite hmantissa => ?_, fun hfinite hmantissa => ?_⟩
  · obtain ⟨hexponent, hmantissa⟩ := bits_of_zero hzero
    have hones : ¬ unpackExponent (bits x) = -1#11 := by
      rw [hexponent]
      decide
    rw [if_neg hones, if_pos hexponent, dif_pos hmantissa]
    rfl
  · rw [if_pos (unpackExponent_of_not_finite hfinite), if_pos hmantissa]
    rfl
  · rw [if_pos (unpackExponent_of_not_finite hfinite), if_neg hmantissa]

/-- **A double is put together again from what it is taken apart into.** -/
theorem pack_unpack (x : Float) : (⟨.pack x.toModel.unpack⟩ : Float) = x := by
  obtain ⟨hzero, hinfinity, hnan⟩ := unpack_special x
  have hparts := packComponents_unpack (bits x)
  by_cases hfinite : isFinite x = true
  · by_cases hpos : 0 < (magnitude x).significand
    · rw [unpack_eq hfinite hpos]
      exact (eq_double hfinite hpos).symm
    · have hnone := Nat.eq_zero_of_not_pos hpos
      obtain ⟨hexponent, hmantissa⟩ := bits_of_zero hnone
      rw [hexponent, hmantissa] at hparts
      rw [hzero hnone]
      exact eq_of_bits hparts
  · have hother := Bool.eq_false_iff.mpr hfinite
    have hexponent := unpackExponent_of_not_finite hother
    by_cases hmantissa : unpackMantissa (bits x) = 0#52
    · rw [hexponent, hmantissa] at hparts
      rw [hinfinity hother hmantissa]
      exact eq_of_bits hparts
    · rw [hnan hother hmantissa]
      exact eq_of_bits (x.toModel.valid.eq_packedNaN hexponent hmantissa).symm

/-- Doubles that are taken apart alike are the same. -/
theorem eq_of_unpack {x y : Float} (h : x.toModel.unpack = y.toModel.unpack) : x = y := by
  rw [← pack_unpack x, h, pack_unpack]

/-- A double is finite if it is taken apart into a finite number. -/
theorem isFinite_of_unpack {x : Float} {s : Sign} {m : Nat} {e : Int} {hm : 0 < m}
    (h : x.toModel.unpack = .finite s m e hm) : isFinite x = true := by
  obtain ⟨-, hinfinity, hnan⟩ := unpack_special x
  by_contra hfinite
  have hother := Bool.eq_false_iff.mpr hfinite
  by_cases hmantissa : unpackMantissa (bits x) = 0#52
  · rw [hinfinity hother hmantissa] at h
    cases h
  · rw [hnan hother hmantissa] at h
    cases h

/-! ## Comparing -/

/-- Finite numbers of one sign compare equal if their parts are the same. -/
theorem level_iff {m n : Nat} {e f : Int} :
    (compare e f).then (compare m n) = .eq ↔ e = f ∧ m = n := by
  rw [Ordering.then_eq_eq, Std.LawfulEqCmp.compare_eq_iff_eq, Std.LawfulEqCmp.compare_eq_iff_eq]

/-- What is taken apart into a zero compares equal to zero, and nothing else does. -/
theorem zero_iff {x : Float} : (x == 0) = true ↔ ∃ s, x.toModel.unpack = .zero s := by
  have hbeq : (x == 0) = x.toModel.unpack.beq (.zero .positive) := rfl
  rw [hbeq]
  generalize x.toModel.unpack = u
  constructor
  · intro h
    rcases u with s | _ | s | ⟨s, m, e, hm⟩
    · cases s <;> exact absurd h (by decide)
    · exact absurd h (by decide)
    · exact ⟨s, rfl⟩
    · cases s <;> exact absurd h Bool.false_ne_true
  · rintro ⟨s, rfl⟩
    rfl

/-- Two doubles compare equal if they are taken apart alike, NaNs apart, or into two zeros. -/
theorem unpacked_beq_iff (u v : UnpackedFloat) :
    u.beq v = true ↔ (u = v ∧ u.isNaN = false) ∨ ((∃ s, u = .zero s) ∧ ∃ s, v = .zero s) := by
  have hbeq : u.beq v = true ↔ u.compare v = some .eq := beq_iff_eq
  rw [hbeq]
  constructor
  · intro h
    rcases u with s | _ | s | ⟨s, m, e, hm⟩ <;> rcases v with t | _ | t | ⟨t, n, f, hn⟩
    case infinity.infinity =>
      cases s <;> cases t <;> first | exact .inl ⟨rfl, rfl⟩ | cases h
    case zero.zero => exact .inr ⟨⟨s, rfl⟩, t, rfl⟩
    case finite.finite =>
      have hsame : s = t ∧ (compare e f).then (compare m n) = .eq := by
        cases s <;> cases t
        case negative.negative => exact ⟨rfl, Ordering.swap_eq_eq.mp (Option.some.inj h)⟩
        case positive.positive => exact ⟨rfl, Option.some.inj h⟩
        all_goals cases h
      obtain ⟨rfl, hlevel⟩ := hsame
      obtain ⟨rfl, rfl⟩ := level_iff.mp hlevel
      exact .inl ⟨rfl, rfl⟩
    -- A NaN compares equal to nothing, and different kinds of doubles never do.
    all_goals first | cases h | (cases s <;> cases h) | (cases t <;> cases h)
  · rintro (⟨rfl, hnan⟩ | ⟨⟨s, rfl⟩, t, rfl⟩)
    · rcases u with s | _ | s | ⟨s, m, e, hm⟩
      · cases s <;> rfl
      · cases hnan
      · rfl
      · have hlevel : (compare e e).then (compare m m) = .eq := level_iff.mpr ⟨rfl, rfl⟩
        cases s
        · show some ((compare e e).then (compare m m)).swap = some .eq
          rw [hlevel]
          rfl
        · show some ((compare e e).then (compare m m)) = some .eq
          rw [hlevel]
    · rfl

/-- **Two doubles compare equal** exactly if they are the same and no NaN, or both are zero. -/
theorem beq_iff (x y : Float) :
    (x == y) = true ↔ (x = y ∧ x.isNaN = false) ∨ ((x == 0) = true ∧ (y == 0) = true) := by
  have hbeq : (x == y) = x.toModel.unpack.beq y.toModel.unpack := rfl
  have hnan : x.isNaN = x.toModel.unpack.isNaN := rfl
  rw [hbeq, unpacked_beq_iff, zero_iff, zero_iff, hnan]
  refine or_congr_left (and_congr_left fun _ => ?_)
  constructor
  · exact eq_of_unpack
  · rintro rfl
    rfl

/-- What is not finite is a NaN, or an infinity of one sign or the other. -/
theorem special_of_not_finite {x : Float} (h : isFinite x = false) :
    x.isNaN = true ∨
      x.isNaN = false ∧ x.isInf = true ∧ (x == 0) = false ∧ (x < 0 ↔ isNegative x = true) := by
  obtain ⟨-, hinfinity, hnan⟩ := unpack_special x
  by_cases hmantissa : unpackMantissa (bits x) = 0#52
  · have hunpack := hinfinity h hmantissa
    refine .inr ⟨?_, ?_, Bool.eq_false_iff.mpr fun hzero => ?_, ?_⟩
    · show x.toModel.unpack.isNaN = false
      rw [hunpack]
      rfl
    · show x.toModel.unpack.isInf = true
      rw [hunpack]
      rfl
    · obtain ⟨s, hs⟩ := zero_iff.mp hzero
      rw [hunpack] at hs
      cases hs
    · have hlt : x < 0 ↔ x.toModel.unpack.lt (.zero .positive) = true := decide_eq_true_iff
      rw [hlt, hunpack, isNegative_iff]
      cases sign x with
      | negative => exact iff_of_true rfl rfl
      | positive => exact iff_of_false Bool.false_ne_true (fun hsame => by cases hsame)
  · refine .inl ?_
    show x.toModel.unpack.isNaN = true
    rw [hnan h hmantissa]
    rfl

/-! ## Equal numbers -/

/-- **Two numbers are equal** exactly if they are the same or both are zero. -/
theorem same_iff (x y : Float) :
    same x y = true ↔ x = y ∨ ((x == 0) = true ∧ (y == 0) = true) := by
  rw [same, Bool.or_eq_true, Bool.and_eq_true, beq_iff]
  constructor
  · rintro ((⟨hxy, -⟩ | hzero) | ⟨hx, hy⟩)
    · exact .inl hxy
    · exact .inr hzero
    · refine .inl (eq_of_unpack ?_)
      have hnan (z : Float) (hz : z.isNaN = true) : z.toModel.unpack = .notANumber := by
        have hunpack : z.toModel.unpack.isNaN = true := hz
        cases hcases : z.toModel.unpack <;> rw [hcases] at hunpack <;> first | rfl | cases hunpack
      rw [hnan x hx, hnan y hy]
  · rintro (rfl | hzero)
    · cases hnan : x.isNaN with
      | true => exact .inr ⟨rfl, rfl⟩
      | false => exact .inl (.inl ⟨rfl, rfl⟩)
    · exact .inl (.inr hzero)

theorem same_symm {x y : Float} (h : same x y = true) : same y x = true := by
  rcases (same_iff x y).mp h with rfl | ⟨hx, hy⟩
  · exact h
  · exact (same_iff y x).mpr (.inr ⟨hy, hx⟩)

theorem same_trans {x y z : Float} (hxy : same x y = true) (hyz : same y z = true) :
    same x z = true := by
  rcases (same_iff x y).mp hxy with rfl | ⟨hx, -⟩
  · exact hyz
  · rcases (same_iff y z).mp hyz with rfl | ⟨-, hz⟩
    · exact hxy
    · exact (same_iff x z).mpr (.inr ⟨hx, hz⟩)

/-- What is the same for both zeros is the same for equal numbers. -/
theorem congr_of_same {α : Type} {f : Float → α} {zero : α}
    (hzero : ∀ x, (x == 0) = true → f x = zero) {x y : Float} (h : same x y = true) :
    f x = f y := by
  rcases (same_iff x y).mp h with rfl | ⟨hx, hy⟩
  · rfl
  · rw [hzero x hx, hzero y hy]

/-! ## Built doubles -/

namespace Magnitude

variable {m : Magnitude}

/-- A double that is built from a magnitude is finite, and its parts are found in it again. -/
theorem parts_double (hm : m.IsCanonical) (s : Sign) (hpos : 0 < m.significand) :
    isFinite (m.double s hpos) = true ∧ sign (m.double s hpos) = s ∧
      magnitude (m.double s hpos) = m := by
  have hunpack := @unpack_double m hpos hm s
  have hfinite := isFinite_of_unpack hunpack
  have hsignificand : 0 < (magnitude (m.double s hpos)).significand := by
    rcases unpack_of_isFinite hfinite with ⟨t, hzero, -⟩ | ⟨-, -, -, -, -, hlead⟩
    · rw [hunpack] at hzero
      cases hzero
    · exact hlead
  have hparts := (unpack_eq hfinite hsignificand).symm.trans hunpack
  injection hparts with hsign hmantissa hexponent
  refine ⟨hfinite, hsign, ?_⟩
  have hnarrow : (magnitude (m.double s hpos)).narrowBelow = m.narrowBelow := by
    rw [Bool.eq_iff_iff, (isCanonical_magnitude hfinite).narrow, hm.narrow, hmantissa, hexponent]
  generalize magnitude (m.double s hpos) = n at hmantissa hexponent hnarrow
  obtain ⟨significand, exponent, narrowBelow⟩ := n
  obtain rfl : significand = m.significand := hmantissa
  obtain rfl : exponent = m.exponent := hexponent
  obtain rfl : narrowBelow = m.narrowBelow := hnarrow
  rfl

end Magnitude

/-! ## The size of a double -/

section
variable {x : Float}

/-- The size of a finite double that is not zero is another one: it has no sign, and the same
    magnitude. -/
theorem parts_abs (h : isFinite x = true) (hne : (x == 0) = false) :
    isFinite x.abs = true ∧ isNegative x.abs = false ∧ (x.abs == 0) = false ∧
      magnitude x.abs = magnitude x := by
  have hpos := significand_pos h hne
  have habs : x.abs = (magnitude x).double .positive hpos := by
    show (⟨.pack x.toModel.unpack.abs⟩ : Float) = _
    rw [unpack_eq h hpos]
    rfl
  obtain ⟨hfinite, hsign, hmagnitude⟩ :=
    Magnitude.parts_double (isCanonical_magnitude h) .positive hpos
  rw [← habs] at hfinite hsign hmagnitude
  refine ⟨hfinite, Bool.eq_false_iff.mpr fun hnegative => ?_, Bool.eq_false_iff.mpr fun hzero => ?_,
    hmagnitude⟩
  · rw [(isNegative_iff _).mp hnegative] at hsign
    cases hsign
  · rw [beq_zero_iff hfinite, hmagnitude] at hzero
    exact Nat.ne_of_gt hpos hzero

end

end BellaLang.Number
