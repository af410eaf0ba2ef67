import BellaLang.Value.Basic

/-!
When two values are equal.

Numbers are compared as numbers, except that a NaN equals a NaN; arrays are compared element by
element, in order; functions are compared by identity; and values of different kinds differ.  The
hash of a value depends on nothing that equality overlooks: not on the sign of a zero, nor on which
NaN it is.

A program can build an array that holds one array many times, at every level, and that is far too
large to walk.  So there are two definitions: `Value.equals` is the rule, and `Value.sharedEquals`
gives the same answer without looking into an element that is one and the same on both sides, which
is right because every value equals itself.
-/

namespace BellaLang

/-! ## Equality -/

mutual

/-- Are two values equal? -/
def Value.equals : Value → Value → Bool
  | .number x, .number y => Number.same x y
  | .boolean a, .boolean b => a == b
  | .array xs, .array ys => Value.allEqual xs ys
  | .native f, .native g => f.identity == g.identity
  | .user f, .user g => f.identity == g.identity
  | _, _ => false

/-- Do two lists of values have the same length and equal values at each place? -/
def Value.allEqual : List Value → List Value → Bool
  | [], [] => true
  | x :: xs, y :: ys => x.equals y && Value.allEqual xs ys
  | _, _ => false

end

mutual

theorem Value.equals_self : ∀ v : Value, v.equals v = true
  | .number x => by simp [Value.equals, Number.same_self]
  | .boolean _ => by simp [Value.equals]
  | .array elements => by simp [Value.equals, Value.allEqual_self elements]
  | .native _ => by simp [Value.equals]
  | .user _ => by simp [Value.equals]

theorem Value.allEqual_self : ∀ vs : List Value, Value.allEqual vs vs = true
  | [] => by simp [Value.allEqual]
  | v :: vs => by simp [Value.allEqual, Value.equals_self v, Value.allEqual_self vs]

end

/-! ## Equality of values with shared parts -/

mutual

/-- Compare two values, together with the reason why the answer is right. -/
def Value.compareShared : (v w : Value) → { answer : Bool // answer = v.equals w }
  | .array xs, .array ys =>
    let ⟨answer, h⟩ := Value.compareAllShared xs ys
    ⟨answer, by simp [Value.equals, h]⟩
  | v, w => ⟨v.equals w, rfl⟩

/-- Compare two lists of values.  An element that is the same object on both sides is equal, and is
    not looked into. -/
def Value.compareAllShared :
    (vs ws : List Value) → { answer : Bool // answer = Value.allEqual vs ws }
  | v :: vs, w :: ws =>
    let first := withPtrEq v w (fun _ => (Value.compareShared v w).1)
      fun h => by rw [(Value.compareShared v w).2, h, Value.equals_self]
    ⟨first && (Value.compareAllShared vs ws).1, by
      simp only [first, withPtrEq, Value.allEqual]
      rw [(Value.compareShared v w).2, (Value.compareAllShared vs ws).2]⟩
  | vs, ws => ⟨Value.allEqual vs ws, rfl⟩

end

/-- Are two values equal?  Parts that they share are not walked. -/
def Value.sharedEquals (v w : Value) : Bool := (Value.compareShared v w).1

@[simp]
theorem Value.sharedEquals_eq (v w : Value) : v.sharedEquals w = v.equals w :=
  (Value.compareShared v w).2

/-! ## Hashing -/

/-- The hash of a number; a NaN and the two zeros have one each. -/
def Number.hash (x : Float) : UInt64 :=
  if x.isNaN then 7 else if x == 0 then 11 else Hashable.hash x.toBits

mutual

/-- The hash of a value. -/
def Value.hash : Value → UInt64
  | .number x => mixHash 1 (Number.hash x)
  | .boolean b => mixHash 2 (Hashable.hash b)
  | .array elements => mixHash 3 (Value.hashAll elements)
  | .native f => mixHash 4 (Hashable.hash f.identity)
  | .user f => mixHash 5 (Hashable.hash f.identity)

/-- The hash of a list of values. -/
def Value.hashAll : List Value → UInt64
  | [] => 0
  | v :: rest => mixHash v.hash (Value.hashAll rest)

end

end BellaLang
