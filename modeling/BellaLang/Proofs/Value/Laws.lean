import BellaLang.Proofs.Execution.Identities

/-!
The laws of equality.

What programs compare with `==` and `!=` is decided by an equivalence, and printing, conditions and
hashes respect it.  Most of this holds of any two values.  That equal functions are one function
hangs on identities being given once only, and holds of the values that a run can get hold of.

Main statement: `equality_respected`.
-/

namespace BellaLang

open Number

/-- What two values have in common that are equal. -/
structure Value.Alike (hashing : Hashing) (v w : Value) : Prop where
  kindText_eq : v.kind.text = w.kind.text
  truthy_eq : v.truthy = w.truthy
  text_eq : v.SharesObjects w → v.text = w.text
  hash_eq : v.hash = w.hash
  hashBy_eq : v.hashBy hashing = w.hashBy hashing

/-- **Equality is an equivalence that everything respects.**  It is reflexive, symmetric and
    transitive on all values; values of different kinds are never equal; arrays are equal exactly if
    they are of one length and equal at each place; and a function equals exactly itself, where an
    identity tells which function it is, as it does for all that a run can get hold of.  Equality is
    what `==` asks for, and `!=` is its opposite.  Equal values have the same word for their kind,
    behave alike as conditions, have the same text and the same hash, here and on any host on which
    equal doubles have the same hash. -/
theorem equality_respected (hashing : Hashing) (hhashing : hashing.RespectsDoubles) :
    Equivalence (fun v w : Value => v.sharedEquals w = true) ∧
    (∀ v w : Value, v.kind ≠ w.kind → v.sharedEquals w = false) ∧
    (∀ vs ws : List Value, (Value.array vs).sharedEquals (.array ws) = true ↔
      vs.length = ws.length ∧
        ∀ i (hv : i < vs.length) (hw : i < ws.length), vs[i].sharedEquals ws[i] = true) ∧
    (∀ v w : Value, v.SharesObjects w → v.kind = .function → (v.sharedEquals w = true ↔ v = w)) ∧
    (∀ (limits : Limits) (program : Program) (m : Machine) (v w : Value),
      program.GetsHoldOf limits m v → program.GetsHoldOf limits m w → v.SharesObjects w) ∧
    (∀ (call : Calling) (site inner : Site) (left right : Expr),
      (Expr.binary site "==" left right).evalWith call =
        (do
          let v ← left.evalWith call
          let w ← right.evalWith call
          pure (.boolean (v.sharedEquals w))) ∧
      (Expr.binary site "!=" left right).evalWith call =
        (Expr.unary site "!" (.binary inner "==" left right)).evalWith call) ∧
    ∀ v w : Value, v.sharedEquals w = true → v.Alike hashing w := by
  simp only [Value.sharedEquals_eq]
  refine ⟨⟨Value.equals_self, Value.equals_symm, Value.equals_trans⟩, ?_, ?_, ?_, ?_, ?_, ?_⟩
  · intro v w hkind
    rw [Bool.eq_false_iff]
    intro h
    exact hkind (Value.kind_of_equals h)
  · intro vs ws
    rw [Value.equals, Value.allEqual_iff, List.forall₂_iff_get]
    rfl
  · intro v w hobjects hfunction
    constructor
    · intro h
      exact hobjects.eq_of_equals .self .self hfunction h
    · rintro rfl
      exact v.equals_self
  · intro limits program m v w hv hw
    exact run_shares_objects limits program m hv hw
  · intro call site inner left right
    have hequal := Expr.evalWith_equal call site left right
    simp only [Value.sharedEquals_eq] at hequal
    exact ⟨hequal, Expr.evalWith_differ call site inner left right⟩
  · intro v w h
    have hhash : v.hash = w.hash := by
      rw [Value.hash_eq_hashBy, Value.hash_eq_hashBy,
        Value.hashBy_of_equals Hashing.standard_respectsDoubles h]
    exact ⟨congrArg Kind.text (Value.kind_of_equals h), Value.truthy_of_equals h,
      fun hobjects => Value.text_of_equals hobjects h, hhash, Value.hashBy_of_equals hhashing h⟩

/-- An array with a NaN, a zero and a function inside another array, and the same with the other
    zero. -/
theorem equality_respected_zeros :
    let f : UserFunction := ⟨3, "f", ["x"], .name ⟨"x", none⟩⟩
    let v : Value := .array [.number nan, .number 0, .array [.user f]]
    let w : Value := .array [.number nan, .number (-0.0), .array [.user f]]
    Hashing.standard.RespectsDoubles ∧ v.SharesObjects w ∧ v.sharedEquals w = true ∧
      w.sharedEquals v = true ∧ w.text = "NaN,0,<function f(x)>" ∧ v.text = w.text ∧
      v.hash = w.hash ∧ v.truthy = w.truthy := by
  intro f v w
  have hlaws := equality_respected .standard Hashing.standard_respectsDoubles
  obtain ⟨hequivalence, -, -, -, -, -, halike⟩ := hlaws
  have honly (x : Float) (u : Value) (hu : u.kind = .function)
      (h : u.AppearsIn (.array [.number nan, .number x, .array [.user f]])) : u = .user f := by
    cases h with
    | self => cases hu
    | element hmem h =>
      simp only [List.mem_cons, List.not_mem_nil, or_false] at hmem
      rcases hmem with rfl | rfl | rfl
      · cases h
        cases hu
      · cases h
        cases hu
      · cases h with
        | self => cases hu
        | element hmem h =>
          obtain rfl := List.mem_singleton.mp hmem
          cases h
          rfl
  have hobjects : v.SharesObjects w := by
    constructor
    · intro g h hg
      cases honly _ _ rfl hg
    · intro g h hg hh _
      cases honly _ _ rfl hg
      cases honly _ _ rfl hh
      rfl
  have hequal : v.sharedEquals w = true := by
    rw [Value.sharedEquals_eq]
    decide +kernel
  have halike := halike v w hequal
  exact ⟨Hashing.standard_respectsDoubles, hobjects, hequal, hequivalence.symm hequal,
    by decide +kernel, halike.text_eq hobjects, halike.hash_eq, halike.truthy_eq⟩

end BellaLang
