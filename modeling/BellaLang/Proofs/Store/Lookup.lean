import BellaLang.Store.Basic
import BellaLang.Value.Native

/-!
Looking names up in a store, before and after a frame has been written to.

A look-up goes along the chain and takes the first binding that it meets.  Writing to one frame
changes neither the chain nor any other frame, so a look-up changes only for a name that the new
bindings of that frame treat differently.
-/

namespace BellaLang

/-! ## The names of bindings -/

/-- The names that are bound, in the order in which they came. -/
def Bindings.names (bindings : Bindings) : List String := bindings.map (·.1)

@[simp]
theorem Bindings.names_cons (entry : String × Value) (rest : Bindings) :
    Bindings.names (entry :: rest) = entry.1 :: rest.names := rfl

/-- The bound names are those that a look-up finds. -/
theorem Bindings.mem_names_iff (bindings : Bindings) (name : String) :
    name ∈ bindings.names ↔ (bindings.get? name).isSome := by
  induction bindings with
  | nil => simp [names, get?]
  | cons entry rest ih =>
    obtain ⟨key, held⟩ := entry
    rw [get?] at ih ⊢
    by_cases h : name = key
    · simp [h]
    · simp [h, List.lookup_cons, beq_eq_false_iff_ne.mpr h, ih]

/-- A name that is bound again keeps its place. -/
theorem Bindings.names_put_of_mem {bindings : Bindings} {name : String} (value : Value)
    (h : name ∈ bindings.names) : (bindings.put name value).names = bindings.names := by
  induction bindings with
  | nil => cases h
  | cons entry rest ih =>
    obtain ⟨key, held⟩ := entry
    rw [put]
    split
    · rfl
    · rename_i hne
      have hrest : name ∈ Bindings.names rest :=
        (List.mem_cons.mp h).resolve_left fun hname => hne hname.symm
      rw [names_cons, names_cons, ih hrest]

/-- A name that is new comes last. -/
theorem Bindings.names_put_of_notMem {bindings : Bindings} {name : String} (value : Value)
    (h : name ∉ bindings.names) : (bindings.put name value).names = bindings.names ++ [name] := by
  induction bindings with
  | nil => rfl
  | cons entry rest ih =>
    obtain ⟨key, held⟩ := entry
    have hne : ¬ key = name := fun hkey => h (List.mem_cons.mpr (.inl hkey.symm))
    have hrest : name ∉ Bindings.names rest := fun hmem => h (List.mem_cons_of_mem _ hmem)
    rw [put, if_neg hne, names_cons, names_cons, ih hrest]
    rfl

/-! ## Along the chain -/

/-- A look-up goes along the chain and takes the first binding it meets. -/
theorem Store.get?_eq_findSome? (store : Store) (name : String) :
    store.get? name = store.chain.findSome? fun id => (store.bindingsOf id).get? name := by
  unfold get? holder?
  induction store.chain with
  | nil => rfl
  | cons id older ih =>
    rw [List.find?_cons, List.findSome?_cons]
    unfold Bindings.holds
    cases h : (store.bindingsOf id).get? name with
    | some value => simpa using h
    | none => exact ih

/-- A name is visible if a look-up finds it. -/
theorem Store.contains_eq_isSome (store : Store) (name : String) :
    store.contains name = (store.get? name).isSome := by
  unfold contains get?
  cases h : store.holder? name with
  | none => rfl
  | some id => exact (List.find?_some h).symm

/-! ## After writing to a frame -/

/-- The frame that was written to holds the new bindings, if there is such a frame; every other one
    holds what it held. -/
theorem Store.bindingsOf_setBindings (store : Store) (id other : FrameId) (bindings : Bindings) :
    (store.setBindings id bindings).bindingsOf other =
      if id = other ∧ other < store.frames.size then bindings else store.bindingsOf other := by
  unfold bindingsOf setBindings
  rw [Array.getElem?_modify]
  by_cases hid : id = other
  · by_cases hsize : other < store.frames.size
    · simp [hid, hsize]
    · simp [hid, hsize]
  · simp [hid]

/-- A name that the new bindings of a frame show as the old ones did shows what it showed. -/
theorem Store.get?_setBindings_of_get?_eq (store : Store) (id : FrameId) {bindings : Bindings}
    {name : String} (h : bindings.get? name = (store.bindingsOf id).get? name) :
    (store.setBindings id bindings).get? name = store.get? name := by
  rw [get?_eq_findSome?, get?_eq_findSome?]
  refine congrArg store.chain.findSome? (funext fun other => ?_)
  rw [bindingsOf_setBindings]
  split
  · rename_i hother
    rw [h, hother.1]
  · rfl

/-- A declaration changes nothing about the other names. -/
theorem Store.get?_declare_of_ne {store declared : Store} {name other : String} {value : Value}
    (h : store.declare name value = .ok declared) (hne : other ≠ name) :
    declared.get? other = store.get? other := by
  unfold declare at h
  split at h
  · cases h
  · have hdeclared := Except.ok.inj h
    rw [← hdeclared]
    refine store.get?_setBindings_of_get?_eq store.top ?_
    rw [Bindings.get?_put, if_neg hne]

/-! ## The built-in names -/

/-- What a built-in name holds: a number, or a function with an identity of its own. -/
theorem builtIns_cases {next : Nat} {name : String} {v : Value}
    (h : (builtIns next).get? name = some v) :
    v = .number Number.pi ∨
      ∃ i entry, builtInFunctions[i]? = some entry ∧
        v = .native (.ofFunction (next + i) entry.1 entry.2) := by
  obtain ⟨before, after, hsplit, -⟩ := List.lookup_eq_some_iff.mp h
  have hmem : (name, v) ∈ builtIns next := by
    rw [hsplit]
    exact List.mem_append_right before List.mem_cons_self
  rcases List.mem_cons.mp hmem with hpi | hfunction
  · obtain ⟨-, rfl⟩ := Prod.mk.inj hpi
    exact .inl rfl
  · obtain ⟨i, hi, hentry⟩ := List.mem_mapIdx.mp hfunction
    obtain ⟨-, rfl⟩ := Prod.mk.inj hentry
    exact .inr ⟨i, _, List.getElem?_eq_getElem hi, rfl⟩

/-! ## What the frames in force hold -/

/-- All values that the bindings hold are good. -/
def Bindings.Hold (bindings : Bindings) (good : Value → Prop) : Prop :=
  ∀ name v, bindings.get? name = some v → good v

/-- All values that the frames in force hold are good, whether they can be seen or are hidden. -/
def Store.Hold (store : Store) (good : Value → Prop) : Prop :=
  ∀ id ∈ store.chain, (store.bindingsOf id).Hold good

section
variable {store changed : Store} {good : Value → Prop} {name : String} {value : Value}

theorem Bindings.Hold.put {bindings : Bindings} (h : bindings.Hold good) (name : String)
    (hvalue : good value) : (bindings.put name value).Hold good := by
  intro other v hv
  rw [get?_put] at hv
  split at hv
  · rw [← Option.some.inj hv]
    exact hvalue
  · exact h other v hv

/-- What a name shows is good. -/
theorem Store.Hold.get? (h : store.Hold good) {v : Value} (hv : store.get? name = some v) :
    good v := by
  rw [get?_eq_findSome?] at hv
  obtain ⟨id, hid, hget⟩ := List.exists_of_findSome?_eq_some hv
  exact h id hid name v hget

/-- A write keeps everything good, if what is written to a frame in force is. -/
theorem Store.Hold.setBindings (h : store.Hold good) {id : FrameId} {bindings : Bindings}
    (hbindings : id ∈ store.chain → bindings.Hold good) :
    (store.setBindings id bindings).Hold good := by
  intro other hother
  rw [bindingsOf_setBindings]
  split
  · rename_i hsame
    exact hbindings (hsame.1 ▸ hother)
  · exact h other hother

theorem Store.Hold.declare (h : store.Hold good) (hvalue : good value)
    (hdeclare : store.declare name value = .ok changed) : changed.Hold good := by
  unfold Store.declare at hdeclare
  split at hdeclare
  · cases hdeclare
  · rw [← Except.ok.inj hdeclare]
    exact h.setBindings fun htop => (h store.top htop).put name hvalue

theorem Store.Hold.assign (h : store.Hold good) (hvalue : good value)
    (hassign : store.assign name value = .ok changed) : changed.Hold good := by
  unfold Store.assign at hassign
  split at hassign
  · cases hassign
  · rename_i id _
    dsimp only at hassign
    split at hassign
    · cases hassign
    · split at hassign
      · cases hassign
      · rw [← Except.ok.inj hassign]
        exact h.setBindings fun hid => (h id hid).put name hvalue

/-- A store with nothing but the root in force holds what the root is given, if there is a root. -/
theorem Store.hold_reset (store : Store) {bindings : Bindings} (h : bindings.Hold good) :
    (store.reset bindings).Hold good := by
  intro id hid
  obtain rfl : id = rootFrame := List.mem_singleton.mp hid
  show ((store.setBindings rootFrame bindings).bindingsOf rootFrame).Hold good
  rw [Store.bindingsOf_setBindings]
  split
  · exact h
  · rename_i hroot
    have hnone : store.frames[rootFrame]? = none :=
      Array.getElem?_eq_none (Nat.le_of_not_lt fun h => hroot ⟨rfl, h⟩)
    unfold Store.bindingsOf
    rw [hnone]
    intro name v hv
    cases hv

end

end BellaLang
