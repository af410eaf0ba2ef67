import BellaLang.Value.Native

/-!
Which functions a value leads to.

An array holds its elements, and a native function may answer a value of any kind.  So a program can
get more out of a value than can be seen in it: the functions that lie in its arrays, those that its
native functions answer, those that lie in their answers, and so on.

  1. A value *appears in* another one if it lies in it, at any depth of arrays (`Value.AppearsIn`).
     It is *reachable from* it if it comes to light through arrays and answers, in any number of
     steps (`Value.ReachableFrom`).
  2. A value is *made of* certain functions if no other ones are reachable from it
     (`Value.MadeOf`).  Elements and answers of such a value are made of these functions too, so
     whatever is asked of the functions in a value holds on to all that can be got out of it.
  3. A native function is *steady* if it does not matter how often it has been called, and *pure* if
     that is so for all native functions that can be got out of it (`Native.IsPure`).

The built-in functions answer nothing but numbers, and are pure.
-/

namespace BellaLang

/-! ## What lies in a value, and what can be got out of it -/

/-- A value appears in another one if it is that one, or appears in an element of that array. -/
inductive Value.AppearsIn (v : Value) : Value → Prop
  | self : v.AppearsIn v
  | element {w : Value} {elements : List Value} (hmem : w ∈ elements) (h : v.AppearsIn w) :
    v.AppearsIn (.array elements)

/-- A value is reachable from another one if it is that one, or reachable from an element of that
    array, or from what that native function answers to some numbers. -/
inductive Value.ReachableFrom (v : Value) : Value → Prop
  | self : v.ReachableFrom v
  | element {w : Value} {elements : List Value} (hmem : w ∈ elements) (h : v.ReachableFrom w) :
    v.ReachableFrom (.array elements)
  | answer {w : Value} {f : Native} {callsBefore : Nat} {numbers : List Float}
    (hrun : f.run callsBefore numbers = .ok w) (h : v.ReachableFrom w) :
    v.ReachableFrom (.native f)

theorem Value.AppearsIn.reachableFrom {v w : Value} (h : v.AppearsIn w) : v.ReachableFrom w := by
  induction h with
  | self => exact .self
  | element hmem _ ih => exact .element hmem ih

/-! ## Values made of certain functions -/

/-- No functions but known ones are reachable from the value. -/
def Value.MadeOf (known : Value → Prop) (v : Value) : Prop :=
  ∀ f : Value, f.kind = .function → f.ReachableFrom v → known f

/-- A native function that answers nothing but numbers. -/
def Native.AnswersNumbers (f : Native) : Prop :=
  ∀ callsBefore numbers w, f.run callsBefore numbers = .ok w → ∃ x, w = .number x

namespace Value.MadeOf

variable {known more : Value → Prop}

theorem number (x : Float) : (Value.number x).MadeOf known := by
  intro f hf h
  cases h
  cases hf

theorem boolean (b : Bool) : (Value.boolean b).MadeOf known := by
  intro f hf h
  cases h
  cases hf

theorem user {f : UserFunction} (h : known (.user f)) : (Value.user f).MadeOf known := by
  intro g _ hg
  cases hg
  exact h

theorem native {f : Native} (h : known (.native f))
    (hanswers : ∀ callsBefore numbers w, f.run callsBefore numbers = .ok w → w.MadeOf known) :
    (Value.native f).MadeOf known := by
  intro g hg hreachable
  cases hreachable with
  | self => exact h
  | answer hrun hreachable => exact hanswers _ _ _ hrun g hg hreachable

theorem array {elements : List Value} (h : ∀ v ∈ elements, v.MadeOf known) :
    (Value.array elements).MadeOf known := by
  intro f hf hreachable
  cases hreachable with
  | self => cases hf
  | element hmem hreachable => exact h _ hmem f hf hreachable

theorem of_mem {elements : List Value} {v : Value} (h : (Value.array elements).MadeOf known)
    (hmem : v ∈ elements) : v.MadeOf known :=
  fun f hf hreachable => h f hf (.element hmem hreachable)

/-- What a native function answers leads to nothing that the function itself does not lead to. -/
theorem answer {f : Native} {callsBefore : Nat} {numbers : List Float} {w : Value}
    (h : (Value.native f).MadeOf known) (hrun : f.run callsBefore numbers = .ok w) :
    w.MadeOf known :=
  fun g hg hreachable => h g hg (.answer hrun hreachable)

/-- A native function that answers numbers leads to no function but itself. -/
theorem native_of_answersNumbers {f : Native} (h : known (.native f))
    (hnumbers : f.AnswersNumbers) : (Value.native f).MadeOf known := by
  refine native h fun callsBefore numbers w hrun => ?_
  obtain ⟨x, rfl⟩ := hnumbers callsBefore numbers w hrun
  exact number x

theorem weaken {v : Value} (h : v.MadeOf known) (hmore : ∀ f, known f → more f) :
    v.MadeOf more := fun f hf hreachable => hmore f (h f hf hreachable)

end Value.MadeOf

/-! ## Pure native functions -/

/-- A native function that answers the same to the same numbers, however often it has been
    called. -/
def Native.IsSteady (f : Native) : Prop :=
  ∀ callsBefore others numbers, f.run callsBefore numbers = f.run others numbers

/-- A native function that is steady, and only leads to native functions that are. -/
def Native.IsPure (f : Native) : Prop :=
  ∀ g, (Value.native g).ReachableFrom (.native f) → g.IsSteady

theorem Native.IsPure.isSteady {f : Native} (h : f.IsPure) : f.IsSteady := h f .self

/-- Where the native functions that appear are pure, all that can be got hold of are steady. -/
theorem Value.ReachableFrom.isSteady {g : Native} {v : Value}
    (h : (Value.native g).ReachableFrom v)
    (hpure : ∀ f, (Value.native f).AppearsIn v → f.IsPure) : g.IsSteady := by
  induction h with
  | self => exact (hpure g .self).isSteady
  | element hmem _ ih => exact ih fun f hf => hpure f (.element hmem hf)
  | answer hrun hreachable _ => exact hpure _ .self g (.answer hrun hreachable)

/-! ## The built-in functions -/

theorem Native.ofFunction_answersNumbers (identity : Nat) (name : String)
    (f : Float → Except HostFault Float) : (Native.ofFunction identity name f).AnswersNumbers := by
  intro callsBefore numbers w hrun
  unfold ofFunction at hrun
  dsimp only at hrun
  cases hanswer : f (numbers.headD Number.nan) with
  | ok y =>
    rw [hanswer] at hrun
    exact ⟨y, (Except.ok.inj hrun).symm⟩
  | error fault =>
    rw [hanswer] at hrun
    cases hrun

theorem Native.ofFunction_isSteady (identity : Nat) (name : String)
    (f : Float → Except HostFault Float) : (Native.ofFunction identity name f).IsSteady :=
  fun _ _ _ => rfl

theorem Native.ofFunction_isPure (identity : Nat) (name : String)
    (f : Float → Except HostFault Float) : (Native.ofFunction identity name f).IsPure := by
  intro g hreachable
  cases hreachable with
  | self => exact ofFunction_isSteady identity name f
  | answer hrun hreachable =>
    obtain ⟨x, rfl⟩ := ofFunction_answersNumbers identity name f _ _ _ hrun
    cases hreachable

end BellaLang
