import BellaLang.Value.Basic

/-!
Bindings: names with their values, each name at most once, in the order in which the names came.

A name that is bound again keeps its place and gets the new value.
-/

namespace BellaLang

/-! ## Looking up and binding -/

/-- Names with values. -/
abbrev Bindings := List (String × Value)

/-- The value of a name. -/
def Bindings.get? (bindings : Bindings) (name : String) : Option Value :=
  bindings.lookup name

/-- Is the name bound? -/
def Bindings.holds (bindings : Bindings) (name : String) : Bool := (bindings.get? name).isSome

/-- Bind a name to a value. -/
def Bindings.put : Bindings → String → Value → Bindings
  | [], name, value => [(name, value)]
  | (key, held) :: rest, name, value =>
    if key = name then (key, value) :: rest else (key, held) :: Bindings.put rest name value

/-- Bind names to values one after the other: of a name that is repeated, the last value stays. -/
def Bindings.ofPairs (pairs : List (String × Value)) : Bindings :=
  pairs.foldl (fun bound pair => bound.put pair.1 pair.2) []

/-! ## What binding does to look-ups -/

/-- A name that has just been bound has the value it was bound to, and no other name changes. -/
theorem Bindings.get?_put (bindings : Bindings) (name other : String) (value : Value) :
    (bindings.put name value).get? other =
      if other = name then some value else bindings.get? other := by
  induction bindings with
  | nil =>
    by_cases h : other = name
    · simp [put, get?, h]
    · simp [put, get?, List.lookup_cons, h, beq_eq_false_iff_ne.mpr h]
  | cons entry rest ih =>
    obtain ⟨key, held⟩ := entry
    by_cases hk : key = name
    · subst hk
      by_cases h : other = key
      · simp [put, get?, h]
      · simp [put, get?, List.lookup_cons, h, beq_eq_false_iff_ne.mpr h]
    · by_cases h : other = key
      · subst h
        simp [put, get?, hk]
      · simp only [get?] at ih
        simp [put, get?, List.lookup_cons, hk, beq_eq_false_iff_ne.mpr h, ih]

end BellaLang
