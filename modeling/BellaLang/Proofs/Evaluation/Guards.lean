import BellaLang.Machine.Evaluation
import BellaLang.Proofs.Number.Comparing

/-!
What is asked of the host is something that it can do.

Operations of the host may end with an error: a division by zero, a position that an array does not
have.  An evaluation meets them in three places, and only the last one can fail because of them.

  1. An operator catches every error that can come up, so there is always a result
     (`exists_compute`).
  2. A subscript looks at its number first.  What passes is a natural number and less than the size
     of the array (`isPosition_iff`), the host makes that very number of it (`hostInteger_eq`), and
     there is an element at that place, counted from the front.  So a subscript picks that element,
     or fails for being out of range (`pick_array_eq_pure`, `pick_array_eq_fail`).
  3. A native function is not the language's own, and what it ends with is its own business.

All that is known of operators and subscripts elsewhere is derived from the statements here.
-/

namespace BellaLang

/-! ## Operators -/

/-- An operator that computes with two numbers has a result. -/
theorem exists_compute (f : Number.ArithmeticOp) (x y : Float) :
    ∃ z, f.apply x y = .ok z ∧ compute f x y = pure (.number z) := by
  obtain ⟨z, hz⟩ := f.exists_apply x y
  refine ⟨z, hz, ?_⟩
  unfold compute
  rw [hz]
  rfl

namespace Number

open Float.Model.UnpackedFloat

/-! ## Positions -/

/-- A finite number is not below zero if it is a zero or has no sign; else it is below. -/
theorem nonneg_iff {x : Float} (h : isFinite x = true) :
    (0 ≤ x ↔ (x == 0 || !isNegative x) = true) ∧ (0 ≤ x → ¬ x < 0) := by
  have hle : 0 ≤ x ↔ (zero .positive).le x.toModel.unpack = true := decide_eq_true_iff
  have hlt : x < 0 ↔ x.toModel.unpack.lt (zero .positive) = true := decide_eq_true_iff
  obtain ⟨hunpack, -, -⟩ := unpack_special x
  have hnegative := isNegative_iff x
  rw [hle, hlt]
  by_cases hpos : 0 < (magnitude x).significand
  · have hne : (x == 0) = false := by
      rw [Bool.eq_false_iff, ne_eq, beq_zero_iff h]
      exact Nat.ne_of_gt hpos
    rw [unpack_eq h hpos, hne, Bool.false_or]
    cases hsign : sign x with
    | positive =>
      have hnone : isNegative x = false := by
        rw [Bool.eq_false_iff, ne_eq, hnegative, hsign]
        intro hsame
        cases hsame
      rw [hnone]
      exact ⟨iff_of_true rfl rfl, fun _ => Bool.false_ne_true⟩
    | negative =>
      rw [hnegative.mpr hsign]
      exact ⟨iff_of_false Bool.false_ne_true Bool.false_ne_true,
        fun hle => absurd hle Bool.false_ne_true⟩
  · have hnone := Nat.eq_zero_of_not_pos hpos
    rw [(beq_zero_iff h).mpr hnone, hunpack hnone]
    cases sign x <;> exact ⟨iff_of_true rfl rfl, fun _ => Bool.false_ne_true⟩

/-- A magnitude is less than a natural number if its whole part is. -/
theorem Magnitude.isBelow_iff (m : Magnitude) (n : Nat) : m.isBelow n = true ↔ m.floor < n := by
  have hpos : 0 < twoTo (-m.exponent).toNat := Nat.two_pow_pos _
  unfold isBelow floor
  rw [decide_eq_true_iff, Nat.div_lt_iff_lt_mul hpos]

/-- **A number passes for a position exactly if it is a natural number below the size.** -/
theorem isPosition_iff (x : Float) (size : Nat) :
    isPosition x size = true ↔ ∃ i < size, natural? x = some i := by
  unfold isPosition isBelow natural? isWhole
  cases hfinite : isFinite x with
  | false =>
    rw [Bool.false_and, Bool.false_and, Bool.and_false, Bool.false_and, if_neg Bool.false_ne_true]
    refine iff_of_false Bool.false_ne_true ?_
    rintro ⟨i, -, h⟩
    cases h
  | true =>
    obtain ⟨hnonneg, hnotBelow⟩ := nonneg_iff hfinite
    rw [Bool.true_and, Bool.true_and]
    constructor
    · intro h
      obtain ⟨hguard, hwhole⟩ := Bool.and_eq_true_iff.mp h
      obtain ⟨hsign, hbelow⟩ := Bool.and_eq_true_iff.mp hguard
      have hsign := of_decide_eq_true hsign
      rw [decide_eq_false (hnotBelow hsign), Bool.false_or, Magnitude.isBelow_iff] at hbelow
      refine ⟨_, hbelow, if_pos ?_⟩
      rw [hwhole, hnonneg.mp hsign]
      rfl
    · rintro ⟨i, hi, h⟩
      obtain ⟨hguard, hfloor⟩ := Option.ite_none_right_eq_some.mp h
      obtain ⟨hwhole, hsign⟩ := Bool.and_eq_true_iff.mp hguard
      have hsign := hnonneg.mpr hsign
      obtain rfl := Option.some.inj hfloor
      rw [decide_eq_true hsign, decide_eq_false (hnotBelow hsign), hwhole, Bool.true_and,
        Bool.false_or, (Magnitude.isBelow_iff _ _).mpr hi]
      rfl

/-- The host makes of a natural number that very number. -/
theorem hostInteger_eq {x : Float} {i : Nat} (h : natural? x = some i) :
    hostInteger x = .ok (i : Int) := by
  unfold natural? isWhole at h
  obtain ⟨hguard, hfloor⟩ := Option.ite_none_right_eq_some.mp h
  obtain ⟨hwhole, hsign⟩ := Bool.and_eq_true_iff.mp hguard
  obtain ⟨hfinite, hwhole⟩ := Bool.and_eq_true_iff.mp hwhole
  obtain rfl := Option.some.inj hfloor
  have hnumber : x.isNaN = false := by
    rw [Bool.eq_false_iff]
    intro hnan
    have hunpack : x.toModel.unpack.isNaN = true := hnan
    rcases unpack_of_isFinite hfinite with ⟨s, hzero, -⟩ | ⟨s, m, e, hm, hparts, -⟩
    · rw [hzero] at hunpack
      cases hunpack
    · rw [hparts] at hunpack
      cases hunpack
  unfold hostInteger
  rw [hnumber, hfinite, Bool.not_true, if_neg Bool.false_ne_true, if_neg Bool.false_ne_true]
  cases hnegative : isNegative x with
  | false => rfl
  | true =>
    -- Of the numbers with a sign, only the negative zero is a natural number.
    rw [hnegative, Bool.not_true, Bool.or_false, beq_zero_iff hfinite] at hsign
    have hnone : (magnitude x).floor = 0 := by
      rw [Magnitude.floor, hsign, Nat.zero_mul, Nat.zero_div]
    rw [hnone]
    rfl

/-- What is at a place of a list is what the host has at that position. -/
theorem hostItem_eq {α : Type} {elements : List α} {i : Nat} {element : α}
    (h : elements[i]? = some element) : hostItem elements (i : Int) = .ok element := by
  have hsign : ¬ (i : Int) < 0 := Int.not_lt.mpr (Int.natCast_nonneg i)
  unfold hostItem
  dsimp only
  rw [if_neg hsign, if_neg hsign, Int.toNat_natCast, h]

end Number

/-! ## Subscripts -/

section
variable {elements : List Value} {x : Float}

/-- A subscript picks the element whose place the number is. -/
theorem pick_array_eq_pure {element : Value}
    (h : (Number.natural? x).bind (elements[·]?) = some element) :
    pick (.array elements) (.number x) = pure element := by
  obtain ⟨i, hnatural, helement⟩ := Option.bind_eq_some_iff.mp h
  have hsize : i < elements.length := (List.getElem?_eq_some_iff.mp helement).1
  unfold pick
  dsimp only
  rw [if_pos ((Number.isPosition_iff _ _).mpr ⟨i, hsize, hnatural⟩), Number.hostInteger_eq hnatural]
  have hitem := Number.hostItem_eq helement
  show Action.ofHost (Number.hostItem elements (i : Int)) = pure element
  rw [hitem]
  rfl

/-- A subscript fails if the number is no place in the array. -/
theorem pick_array_eq_fail (h : (Number.natural? x).bind (elements[·]?) = none) :
    pick (.array elements) (.number x) = .fail (.outOfRange x elements.length) := by
  have hguard : ¬ Number.isPosition x elements.length = true := by
    rw [Number.isPosition_iff]
    rintro ⟨i, hi, hnatural⟩
    rw [hnatural, Option.bind_some, List.getElem?_eq_getElem hi] at h
    cases h
  unfold pick
  dsimp only
  rw [if_neg hguard]

end

/-- A subscript picks an element of an array, or fails for a cause that is not about operators. -/
theorem pick_cases (base index : Value) :
    (∃ elements element, base = .array elements ∧ element ∈ elements ∧
      pick base index = pure element) ∨
    ∃ cause, cause.kind ≠ .invalidOperator ∧ pick base index = .fail cause := by
  cases index with
  | number x =>
    cases base with
    | array elements =>
      cases hpicked : (Number.natural? x).bind (elements[·]?) with
      | some element =>
        obtain ⟨i, -, helement⟩ := Option.bind_eq_some_iff.mp hpicked
        exact .inl ⟨elements, element, rfl, List.mem_of_getElem? helement,
          pick_array_eq_pure hpicked⟩
      | none => exact .inr ⟨.outOfRange x elements.length, nofun, pick_array_eq_fail hpicked⟩
    | user f => exact .inr ⟨.functionSubscripted f, nofun, rfl⟩
    | native f => exact .inr ⟨.notAnArray .function, nofun, rfl⟩
    | number y => exact .inr ⟨.notAnArray .number, nofun, rfl⟩
    | boolean b => exact .inr ⟨.notAnArray .boolean, nofun, rfl⟩
  | boolean b => cases base <;> exact .inr ⟨.subscriptType .boolean, nofun, rfl⟩
  | array elements => cases base <;> exact .inr ⟨.subscriptType .array, nofun, rfl⟩
  | native f => cases base <;> exact .inr ⟨.subscriptType .function, nofun, rfl⟩
  | user f => cases base <;> exact .inr ⟨.subscriptType .function, nofun, rfl⟩

end BellaLang
