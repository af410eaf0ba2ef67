import BellaLang.Proofs.Evaluation.Renumbering
import BellaLang.Proofs.Execution.Atomicity
import BellaLang.Proofs.Execution.Globals
import BellaLang.Proofs.Store.Rewinding

/-!
A run starts from a clean slate.

A machine can have been through a lot before a program is run on it: other programs, which may have
failed, statements and expressions on their own, operations on its store, with calls that have never
been left and snapshots that were brought back.  All of this leaves frames behind, lines with the
listener, notes about calls, and a next identity that is higher than it was.  None of it shows.

  1. Of two machines with nothing but globals in force, one is the other one *renumbered* if it
     holds the same but for the identities, which are counted on from another number
     (`Machine.Renumbered`).  A step *tracks* another one if it leads from such machines to such
     machines again; so do simple statements, and all that executions are put together from
     (`Action.Tracks`, `Journey.Tracks`, `watch_tracks`).
  2. Whatever is done with a machine, the heap keeps its root and identities are never given twice
     (`Machine.Grows`, `performAll_grows`).
  3. So a machine with a past that starts over is a new machine that starts over, renumbered
     (`reset_renumbered`).

Main statement: `run_forgets_past`.
-/

namespace BellaLang

open Machine

/-! ## Assignments to globals -/

namespace Store.HoldsOnly

variable {store : Store} {names : List String} {name : String}

theorem holder?_eq (h : store.HoldsOnly names) (name : String) :
    store.holder? name = (store.globals.get? name).map fun _ => rootFrame := by
  have hholds : (store.bindingsOf rootFrame).holds name = (store.globals.get? name).isSome := rfl
  rw [holder?, h.chain_eq, List.find?_cons, hholds]
  cases store.globals.get? name <;> rfl

theorem assign_of_none (h : store.HoldsOnly names) {value : Value}
    (hget : store.globals.get? name = none) :
    store.assign name value = .error (.notDeclared name) := by
  rw [Store.assign, h.holder?_eq, hget]
  rfl

theorem assign_of_some (h : store.HoldsOnly names) (value : Value) {held : Value}
    (hget : store.globals.get? name = some held) :
    store.assign name value =
      if held.kind.isFixed then .error (.notAssignable name held.kind)
      else .ok (store.setBindings rootFrame (store.globals.put name value)) := by
  have hheld : (store.bindingsOf rootFrame).get? name = some held := hget
  rw [Store.assign, h.holder?_eq, hget]
  dsimp only [Option.map_some]
  rw [hheld]
  rfl

end Store.HoldsOnly

/-! ## Machines that are renumbered -/

/-- With nothing but globals in force, the second machine holds what the first one does, but for the
    identities of functions.  What the listener got and what was noted about calls may differ. -/
structure Machine.Renumbered (k : Nat) (first second : Machine) : Prop where
  holdsOnly : first.store.HoldsOnly first.store.globals.names
  alsoHoldsOnly : second.store.HoldsOnly second.store.globals.names
  globals_eq : second.store.globals = Bindings.renumber k first.store.globals
  tame : ∀ name v, first.store.globals.get? name = some v → v.Tame
  output_eq : second.output = first.output
  atWork_eq : second.atWork = first.atWork
  next_eq : second.host.nextIdentity = first.host.nextIdentity + k

namespace Machine.Renumbered

variable {k : Nat} {first second : Machine}

/-- What names show is renumbered as well. -/
theorem shows (h : first.Renumbered k second) : first.store.Renumbered k second.store := by
  constructor
  · intro name
    rw [h.alsoHoldsOnly.get?_eq, h.globals_eq, Bindings.get?_renumber, h.holdsOnly.get?_eq]
  · intro name v hv
    rw [h.holdsOnly.get?_eq] at hv
    exact h.tame name v hv

theorem names_eq (h : first.Renumbered k second) :
    second.store.globals.names = first.store.globals.names := by
  rw [h.globals_eq, Bindings.names_renumber]

theorem contains_eq (h : first.Renumbered k second) (name : String) :
    second.store.contains name = first.store.contains name := by
  rw [Store.contains_eq_isSome, Store.contains_eq_isSome, h.shows.shows, Option.isSome_map]

/-- Writing to the globals on both sides. -/
theorem put (h : first.Renumbered k second) {changed changedMirror : Store} {names : List String}
    {name : String} {v : Value} (hv : v.Tame) (hfirst : changed.HoldsOnly names)
    (hsecond : changedMirror.HoldsOnly names)
    (hglobals : changed.globals = first.store.globals.put name v)
    (hmirror : changedMirror.globals = second.store.globals.put name (v.renumber k)) :
    Renumbered k { first with store := changed } { second with store := changedMirror } where
  holdsOnly := hfirst.names_eq ▸ hfirst
  alsoHoldsOnly := hsecond.names_eq ▸ hsecond
  globals_eq := by
    show changedMirror.globals = Bindings.renumber k changed.globals
    rw [hmirror, hglobals, h.globals_eq, Bindings.renumber_put]
  tame := by
    intro other w hw
    change changed.globals.get? other = some w at hw
    rw [hglobals, Bindings.get?_put] at hw
    split at hw
    · obtain rfl : v = w := Option.some.inj hw
      exact hv
    · exact h.tame other w hw
  output_eq := h.output_eq
  atWork_eq := h.atWork_eq
  next_eq := h.next_eq

end Machine.Renumbered

/-! ## Steps that track each other -/

/-- From a machine, and that machine renumbered, the second step ends as the first one does,
    renumbered, and so do the machines. -/
def Action.Tracks (k : Nat) {α : Type} (ren : α → α) (good : α → Prop) (a b : Action α) : Prop :=
  ∀ m₁ m₂ : Machine, m₁.Renumbered k m₂ →
    EndRenumbered k ren good (a m₁).1 (b m₂).1 ∧ (a m₁).2.Renumbered k (b m₂).2

namespace Action.Tracks

variable {k : Nat} {α β : Type} {ren : α → α} {good : α → Prop} {renNext : β → β}
  {goodNext : β → Prop}

theorem pure {x : α} (hx : good x) : Tracks k ren good (Pure.pure x) (Pure.pure (ren x)) :=
  fun _ _ h => ⟨.value hx, h⟩

theorem stop (reason : Stop) :
    Tracks k ren good (Action.stop reason) (Action.stop (reason.renumber k)) :=
  fun _ _ h => ⟨.stop reason, h⟩

/-- Steps that keep the machine track each other if they mirror each other. -/
theorem of_mirrors {a b : Action α} (hfirst : a.Keeps) (hsecond : b.Keeps)
    (h : Action.Mirrors k ren good a b) : Tracks k ren good a b := by
  intro m₁ m₂ hm
  refine ⟨h m₁ m₂ hm.shows, ?_⟩
  obtain ⟨calls, hkept⟩ := hfirst m₁
  obtain ⟨callsMirror, hkeptMirror⟩ := hsecond m₂
  rw [hkept, hkeptMirror]
  exact ⟨hm.holdsOnly, hm.alsoHoldsOnly, hm.globals_eq, hm.tame, hm.output_eq, hm.atWork_eq,
    hm.next_eq⟩

theorem bind {a b : Action α} {next nextMirror : α → Action β} (h : Tracks k ren good a b)
    (hnext : ∀ x, good x → Tracks k renNext goodNext (next x) (nextMirror (ren x))) :
    Tracks k renNext goodNext (a >>= next) (b >>= nextMirror) := by
  intro m₁ m₂ hm
  obtain ⟨hends, hmachines⟩ := h m₁ m₂ hm
  rcases hrun₁ : a m₁ with ⟨result₁, m₁'⟩
  rcases hrun₂ : b m₂ with ⟨result₂, m₂'⟩
  rw [hrun₁, hrun₂] at hends hmachines
  cases hends with
  | value hx =>
    rw [bind_apply_ok hrun₁, bind_apply_ok hrun₂]
    exact hnext _ hx m₁' m₂' hmachines
  | stop reason =>
    rw [bind_apply_stop hrun₁, bind_apply_stop hrun₂]
    exact ⟨.stop reason, hmachines⟩

theorem ite {p : Prop} [Decidable p] {a b a' b' : Action α} (h : Tracks k ren good a b)
    (h' : Tracks k ren good a' b') :
    Tracks k ren good (if p then a else a') (if p then b else b') := by
  split
  · exact h
  · exact h'

theorem contains (name : String) : Tracks k id anyValue (Action.ask (·.store.contains name))
    (Action.ask (·.store.contains name)) := by
  intro m₁ m₂ hm
  refine ⟨?_, hm⟩
  have hsame : (Action.ask (·.store.contains name) m₂).1 = .ok (m₁.store.contains name) :=
    congrArg Except.ok (hm.contains_eq name)
  rw [hsame]
  exact .value trivial

theorem setAtWork (s : Stmt) :
    Tracks k id anyValue (Machine.setAtWork s) (Machine.setAtWork s) :=
  fun _ _ hm => ⟨.value trivial, hm.holdsOnly, hm.alsoHoldsOnly, hm.globals_eq, hm.tame,
    hm.output_eq, rfl, hm.next_eq⟩

theorem emit (line : String) : Tracks k id anyValue (Machine.emit line) (Machine.emit line) :=
  fun _ _ hm => ⟨.value trivial, hm.holdsOnly, hm.alsoHoldsOnly, hm.globals_eq, hm.tame,
    congrArg (·.push line) hm.output_eq, hm.atWork_eq, hm.next_eq⟩

/-- Both sides take their next identity. -/
theorem newIdentity : Tracks k (· + k) anyValue Machine.newIdentity Machine.newIdentity := by
  intro m₁ m₂ hm
  have hnext : m₂.host.nextIdentity + 1 = m₁.host.nextIdentity + 1 + k := by
    rw [hm.next_eq, Nat.add_right_comm]
  refine ⟨?_, hm.holdsOnly, hm.alsoHoldsOnly, hm.globals_eq, hm.tame, hm.output_eq, hm.atWork_eq,
    hnext⟩
  unfold Machine.newIdentity
  rw [hm.next_eq]
  exact .value trivial

/-- A change of the store on both sides. -/
theorem changeStore {change changeMirror : Store → Except Cause Store}
    (h : ∀ m₁ m₂ : Machine, m₁.Renumbered k m₂ →
      (∃ cause, change m₁.store = .error cause ∧ changeMirror m₂.store = .error cause ∧
        cause.renumber k = cause) ∨
      ∃ s₁ s₂, change m₁.store = .ok s₁ ∧ changeMirror m₂.store = .ok s₂ ∧
        Renumbered k { m₁ with store := s₁ } { m₂ with store := s₂ }) :
    Tracks k id anyValue (Machine.changeStore change) (Machine.changeStore changeMirror) := by
  intro m₁ m₂ hm
  unfold Machine.changeStore
  rcases h m₁ m₂ hm with ⟨cause, hfirst, hsecond, hcause⟩ | ⟨s₁, s₂, hfirst, hsecond, hboth⟩
  · rw [hfirst, hsecond]
    exact ⟨.stop_of_eq (congrArg (fun cause => Stop.failure ⟨cause, []⟩) hcause), hm⟩
  · rw [hfirst, hsecond]
    exact ⟨.value trivial, hboth⟩

/-- A name is new on both sides or on none. -/
theorem declare (name : String) {v : Value} (hv : v.Tame) :
    Tracks k id anyValue (Machine.declare name v) (Machine.declare name (v.renumber k)) := by
  refine changeStore fun m₁ m₂ hm => ?_
  cases hvisible : m₁.store.contains name with
  | true =>
    refine .inl ⟨.alreadyDeclared name, ?_, ?_, rfl⟩
    · exact if_pos hvisible
    · exact if_pos ((hm.contains_eq name).trans hvisible)
  | false =>
    have hnew : ¬ m₁.store.contains name = true := Bool.eq_false_iff.mp hvisible
    have hfirst : m₁.store.declare name v = .ok _ := if_neg hnew
    have hsecond : m₂.store.declare name (v.renumber k) = .ok _ :=
      if_neg (hm.contains_eq name ▸ hnew)
    obtain ⟨hholds, hglobals, -⟩ := hm.holdsOnly.declare hfirst
    obtain ⟨hholdsMirror, hglobalsMirror, -⟩ := hm.alsoHoldsOnly.declare hsecond
    rw [hm.names_eq] at hholdsMirror
    exact .inr ⟨_, _, hfirst, hsecond, hm.put hv hholds hholdsMirror hglobals hglobalsMirror⟩

/-- What a name holds is of the same kind on both sides, so it can be replaced on both or on
    none. -/
theorem assign (name : String) {v : Value} (hv : v.Tame) :
    Tracks k id anyValue (Machine.assign name v) (Machine.assign name (v.renumber k)) := by
  refine changeStore fun m₁ m₂ hm => ?_
  have hmirror : m₂.store.globals.get? name =
      (m₁.store.globals.get? name).map (Value.renumber k) := by
    rw [hm.globals_eq, Bindings.get?_renumber]
  cases hget : m₁.store.globals.get? name with
  | none =>
    rw [hget] at hmirror
    exact .inl ⟨.notDeclared name, hm.holdsOnly.assign_of_none hget,
      hm.alsoHoldsOnly.assign_of_none hmirror, rfl⟩
  | some held =>
    rw [hget] at hmirror
    have hfirst := hm.holdsOnly.assign_of_some v hget
    have hsecond := hm.alsoHoldsOnly.assign_of_some (v.renumber k) hmirror
    rw [Value.kind_renumber] at hsecond
    cases hfixed : held.kind.isFixed with
    | true =>
      rw [hfixed] at hfirst hsecond
      exact .inl ⟨.notAssignable name held.kind, hfirst, hsecond, rfl⟩
    | false =>
      rw [hfixed] at hfirst hsecond
      obtain ⟨hholds, hglobals, -⟩ := hm.holdsOnly.assign hfirst
      obtain ⟨hholdsMirror, hglobalsMirror, -⟩ := hm.alsoHoldsOnly.assign hsecond
      rw [hm.names_eq] at hholdsMirror
      exact .inr ⟨_, _, hfirst, hsecond, hm.put hv hholds hholdsMirror hglobals hglobalsMirror⟩

end Action.Tracks

/-- A simple statement tracks itself. -/
theorem Stmt.work_tracks (k : Nat) (limits : Limits) (s : Stmt) :
    Action.Tracks k id anyValue (s.work limits) (s.work limits) := by
  have hvalue (value : Expr) : Action.Tracks k (Value.renumber k) Value.Tame
      (value.evalWithin limits.calls) (value.evalWithin limits.calls) :=
    .of_mirrors (value.evalWithin_keeps limits.calls) (value.evalWithin_keeps limits.calls)
      (value.evalWithin_mirrors limits.calls)
  cases s with
  | declaration site id value =>
    refine .bind (.contains id.spelling) fun visible _ => ?_
    exact .ite (.stop (.failure ⟨.alreadyDeclared id.spelling, []⟩))
      (.bind (hvalue value) fun v hv => .declare id.spelling hv)
  | assignment site id value => exact .bind (hvalue value) fun v hv => .assign id.spelling hv
  | function site id params body =>
    refine .bind .newIdentity fun identity _ => ?_
    let f : UserFunction := ⟨identity, id.spelling, params.map (·.spelling), body⟩
    have htame : (Value.user f).Tame := .user trivial
    exact .declare id.spelling htame
  | print site value =>
    refine .bind (hvalue value) fun v _ => ?_
    unfold shown
    rw [Value.text_renumber, Value.depth_renumber]
    split
    · exact .emit v.text
    · exact .stop .tooDeep
  | block body => exact .pure trivial
  | loop site test body => exact .pure trivial

/-! ## Executions that track themselves -/

/-- From a machine, and that machine renumbered, a journey ends alike. -/
def Journey.Tracks (k : Nat) (j : Journey) : Prop :=
  ∀ m₁ m₂ : Machine, m₁.Renumbered k m₂ →
    EndRenumbered k id anyValue (j m₁).result (j m₂).result ∧
      (j m₁).machine.Renumbered k (j m₂).machine

namespace Journey.Tracks

variable {k : Nat} {j next : Journey}

theorem silent {a : Action Unit} (h : Action.Tracks k id anyValue a a) :
    (Journey.silent a).Tracks k := h

theorem around (statement : Stmt) (h : j.Tracks k) : (j.around statement).Tracks k := h

theorem andThen (hj : j.Tracks k) (hnext : next.Tracks k) : (j.andThen next).Tracks k := by
  intro m₁ m₂ hm
  obtain ⟨hends, hmachines⟩ := hj m₁ m₂ hm
  unfold Journey.andThen
  dsimp only
  generalize hfirst : (j m₁).result = result₁ at hends ⊢
  generalize hsecond : (j m₂).result = result₂ at hends ⊢
  cases hends with
  | value _ => exact hnext _ _ hmachines
  | stop reason =>
    dsimp only
    rw [hfirst, hsecond]
    exact ⟨.stop reason, hmachines⟩

theorem rounds (loop : Stmt) {test : Action Bool} (htest : Action.Tracks k id anyValue test test)
    (hj : j.Tracks k) (count : Nat) : (j.rounds loop test count).Tracks k := by
  induction count with
  | zero => exact silent (.stop .endless)
  | succ count ih =>
    intro m₁ m₂ hm
    obtain ⟨hends, hmachines⟩ := htest m₁ m₂ hm
    unfold Journey.rounds
    rcases hrun₁ : test m₁ with ⟨result₁, m₁'⟩
    rcases hrun₂ : test m₂ with ⟨result₂, m₂'⟩
    rw [hrun₁, hrun₂] at hends hmachines
    cases hends with
    | stop reason => exact ⟨.stop reason, hmachines⟩
    | @value again _ =>
      cases again with
      | false => exact ⟨.value trivial, hmachines⟩
      | true => exact hj.andThen ih m₁' m₂' hmachines

end Journey.Tracks

mutual

theorem Stmt.watch_tracks (k : Nat) (limits : Limits) : ∀ s : Stmt, (s.watch limits).Tracks k
  | .block body => by
    unfold Stmt.watch
    exact .around _ (Block.watch_tracks k limits body)
  | .loop site test body => by
    unfold Stmt.watch
    have hkeeps := test.evalWithin_keeps limits.calls
    have htest : Action.Tracks k id anyValue (Value.truthy <$> test.evalWithin limits.calls)
        (Value.truthy <$> test.evalWithin limits.calls) := by
      refine .bind (.of_mirrors hkeeps hkeeps (test.evalWithin_mirrors limits.calls)) fun v _ => ?_
      show Action.Tracks k id anyValue (pure v.truthy) (pure (v.renumber k).truthy)
      rw [Value.truthy_renumber]
      exact .pure trivial
    have hbody := Journey.Tracks.around (.block body) (Block.watch_tracks k limits body)
    exact .around _ (.rounds _ htest (hbody.andThen (.silent (.setAtWork _))) _)
  | .declaration .. | .assignment .. | .function .. | .print .. => by
    unfold Stmt.watch
    exact .around _ (.silent (Stmt.work_tracks k _ _))

theorem Stmt.watchAll_tracks (k : Nat) (limits : Limits) :
    ∀ ss : List Stmt, (Stmt.watchAll limits ss).Tracks k
  | [] => .silent (.pure trivial)
  | s :: rest => by
    unfold Stmt.watchAll
    exact .andThen (.silent (.setAtWork s))
      (.andThen (Stmt.watch_tracks k limits s) (Stmt.watchAll_tracks k limits rest))

theorem Block.watch_tracks (k : Nat) (limits : Limits) :
    ∀ b : Block, (b.watch limits).Tracks k
  | .mk _ statements => by
    unfold Block.watch
    exact Stmt.watchAll_tracks k limits statements

end

/-! ## Starting over -/

/-- New built-in functions are the same ones, renumbered. -/
theorem builtIns_add (next k : Nat) :
    builtIns (next + k) = Bindings.renumber k (builtIns next) := by
  refine congrArg (List.cons _) (List.ext_getElem? fun i => ?_)
  rw [List.getElem?_mapIdx, List.getElem?_map, List.getElem?_mapIdx, Option.map_map]
  have hidentity : next + k + i = next + i + k := Nat.add_right_comm next k i
  rw [hidentity]
  rfl

/-- The built-in functions are steady and answer numbers. -/
theorem builtIns_tame (next : Nat) {name : String} {v : Value}
    (h : (builtIns next).get? name = some v) : v.Tame := by
  rcases builtIns_cases h with rfl | ⟨i, entry, -, rfl⟩
  · exact .number Number.pi
  · have hnumbers := Native.ofFunction_answersNumbers (next + i) entry.1 entry.2
    exact .native_of_answersNumbers ⟨Native.ofFunction_isSteady _ _ _, hnumbers⟩ hnumbers

/-- Two machines that start over, each with the root in its heap. -/
theorem Machine.reset_renumbered {k : Nat} {m₁ m₂ : Machine}
    (hroot : rootFrame < m₁.store.frames.size) (hrootMirror : rootFrame < m₂.store.frames.size)
    (hnext : m₂.host.nextIdentity = m₁.host.nextIdentity + k) :
    m₁.reset.Renumbered k m₂.reset := by
  obtain ⟨hholds, hglobals⟩ := reset_holdsOnly hroot
  obtain ⟨hholdsMirror, hglobalsMirror⟩ := reset_holdsOnly hrootMirror
  refine ⟨hholds.names_eq ▸ hholds, hholdsMirror.names_eq ▸ hholdsMirror, ?_, ?_, rfl, rfl, ?_⟩
  · rw [hglobals, hglobalsMirror, hnext, builtIns_add]
  · intro name v hv
    rw [hglobals] at hv
    exact builtIns_tame _ hv
  · show m₂.host.nextIdentity + _ = m₁.host.nextIdentity + _ + k
    rw [hnext, Nat.add_right_comm]

/-! ## The past of a machine -/

/-- No frame has gone from the heap, and no identity is given a second time. -/
structure Machine.Grows (m m' : Machine) : Prop where
  store : m.store.Grows m'.store
  next : m.host.nextIdentity ≤ m'.host.nextIdentity

namespace Machine.Grows

variable {m m' m'' : Machine}

theorem refl (m : Machine) : m.Grows m := ⟨.refl m.store, Nat.le_refl _⟩

theorem trans (h : m.Grows m') (h' : m'.Grows m'') : m.Grows m'' :=
  ⟨h.store.trans h'.store, Nat.le_trans h.next h'.next⟩

theorem reset (m : Machine) : m.Grows m.reset :=
  ⟨m.store.grows_setBindings rootFrame _, Nat.le_add_right _ _⟩

end Machine.Grows

theorem Action.Keeps.grows {α : Type} {a : Action α} (h : a.Keeps) : a.Within Machine.Grows := by
  intro m
  obtain ⟨calls, hkept⟩ := h m
  rw [hkept]
  exact ⟨.refl m.store, Nat.le_refl _⟩

theorem Machine.changeStore_grows {change : Store → Except Cause Store}
    (h : ∀ store changed, change store = .ok changed →
      ∃ id bindings, changed = store.setBindings id bindings) :
    (changeStore change).Within Machine.Grows := by
  intro m
  rcases changeStore_cases change m with ⟨cause, hrun⟩ | ⟨changed, hchange, hrun⟩
  · rw [hrun]
    exact .refl m
  · obtain ⟨id, bindings, rfl⟩ := h m.store changed hchange
    rw [hrun]
    exact ⟨m.store.grows_setBindings id bindings, Nat.le_refl _⟩

theorem Stmt.work_grows (limits : Limits) (s : Stmt) : (s.work limits).Within Machine.Grows := by
  have hvalue (value : Expr) : (value.evalWithin limits.calls).Within Machine.Grows :=
    (value.evalWithin_keeps limits.calls).grows
  have hdeclare (name : String) (v : Value) : (declare name v).Within Machine.Grows :=
    changeStore_grows fun _ _ => Store.exists_of_declare
  have hassign (name : String) (v : Value) : (assign name v).Within Machine.Grows :=
    changeStore_grows fun _ _ => Store.exists_of_assign
  cases s with
  | declaration site id value =>
    refine .bind (fun _ _ _ => .trans) (fun m => .refl m) fun visible => ?_
    exact .ite (fun m => .refl m) (.bind (fun _ _ _ => .trans) (hvalue value) fun v => hdeclare _ v)
  | assignment site id value =>
    exact .bind (fun _ _ _ => .trans) (hvalue value) fun v => hassign _ v
  | function site id params body =>
    exact .bind (fun _ _ _ => .trans) (fun m => ⟨.refl m.store, Nat.le_succ _⟩)
      fun identity => hdeclare _ _
  | print site value =>
    refine .bind (fun _ _ _ => .trans) (hvalue value) fun v => ?_
    exact .bind (fun _ _ _ => .trans) (Action.Keeps.shown limits.nesting v).grows
      fun text m => ⟨.refl m.store, Nat.le_refl _⟩
  | block body => exact fun m => .refl m
  | loop site test body => exact fun m => .refl m

theorem repeatWhile_grows {test : Action Bool} {body : Action Unit}
    (htest : test.Within Machine.Grows) (hbody : body.Within Machine.Grows) (count : Nat) :
    (repeatWhile count test body).Within Machine.Grows := by
  induction count with
  | zero => exact fun m => .refl m
  | succ count ih =>
    intro m
    have hfirst := htest m
    unfold repeatWhile
    rcases hrun : test m with ⟨result, m'⟩
    rw [hrun] at hfirst
    rcases result with stop | _ | _
    · exact hfirst
    · exact hfirst
    · have hsecond := hbody m'
      dsimp only
      rcases hround : body m' with ⟨result, m''⟩
      rw [hround] at hsecond
      cases result with
      | error stop => exact hfirst.trans hsecond
      | ok u => exact (hfirst.trans hsecond).trans (ih m'')

section
variable (limits : Limits)

mutual

theorem Stmt.exec_grows : ∀ s : Stmt, (s.execWithin limits).Within Machine.Grows
  | .block body => by
    unfold Stmt.execWithin
    exact Block.exec_grows body
  | .loop site test body => by
    unfold Stmt.execWithin
    refine repeatWhile_grows ?_ ?_ limits.rounds
    · exact .bind (fun _ _ _ => .trans) (test.evalWithin_keeps limits.calls).grows
        fun v m => .refl m
    · exact .bind (fun _ _ _ => .trans) (Block.exec_grows body)
        fun _ m => ⟨.refl m.store, Nat.le_refl _⟩
  | .declaration site id value => by
    unfold Stmt.execWithin
    exact Stmt.work_grows limits (.declaration site id value)
  | .assignment site id value => by
    unfold Stmt.execWithin
    exact Stmt.work_grows limits (.assignment site id value)
  | .function site id params body => by
    unfold Stmt.execWithin
    exact Stmt.work_grows limits (.function site id params body)
  | .print site value => by
    unfold Stmt.execWithin
    exact Stmt.work_grows limits (.print site value)

theorem Stmt.execAll_grows :
    ∀ ss : List Stmt, (Stmt.execAllWithin limits ss).Within Machine.Grows
  | [] => fun m => .refl m
  | s :: rest => by
    unfold Stmt.execAllWithin
    refine .bind (fun _ _ _ => .trans) (fun m => ⟨.refl m.store, Nat.le_refl _⟩) fun _ => ?_
    exact .bind (fun _ _ _ => .trans) (Stmt.exec_grows s) fun _ => Stmt.execAll_grows rest

theorem Block.exec_grows : ∀ b : Block, (b.execWithin limits).Within Machine.Grows
  | .mk _ statements => by
    unfold Block.execWithin
    exact Stmt.execAll_grows statements

end

end

/-- What can be done with a machine, apart from looking at it; programs, statements and expressions
    within any limits. -/
inductive Activity where
  | run (limits : Limits) (program : Program)
  | execute (limits : Limits) (s : Stmt)
  | evaluate (calls : Nat) (e : Expr)
  | emit (line : String)
  | reset
  /-- An operation on the store. -/
  | memory (op : Operation)

/-- A machine with the calls that have been entered from outside, and the snapshots taken. -/
structure Workbench where
  machine : Machine
  entered : List Activation
  snapshots : List Snapshot

namespace Workbench

/-- A new machine, and nothing else. -/
def new (host : Host) : Workbench := ⟨.new host, [], []⟩

/-- The store of the machine as a memory. -/
def memory (bench : Workbench) : Memory := ⟨⟨bench.machine.store, bench.entered⟩, bench.snapshots⟩

/-- A machine in the place of the machine. -/
def withMachine (bench : Workbench) (machine : Machine) : Workbench := { bench with machine }

/-- A memory in the place of the store. -/
def withMemory (bench : Workbench) (memory : Memory) : Workbench :=
  ⟨{ bench.machine with store := memory.store }, memory.calls.entered, memory.snapshots⟩

/-- Do something with the machine, whatever comes of it. -/
def perform (bench : Workbench) : Activity → Workbench
  | .run limits program => bench.withMachine (program.runWithin limits bench.machine).2
  | .execute limits s => bench.withMachine (s.execWithin limits bench.machine).2
  | .evaluate calls e => bench.withMachine (e.evalWithin calls bench.machine).2
  | .emit line => bench.withMachine (Machine.emit line bench.machine).2
  | .reset => bench.withMachine bench.machine.reset
  | .memory op => bench.withMemory (bench.memory.perform op).2

/-- Do several things one after the other. -/
def performAll (bench : Workbench) (past : List Activity) : Workbench := past.foldl perform bench

theorem perform_grows (bench : Workbench) (activity : Activity) :
    bench.machine.Grows (bench.perform activity).machine := by
  cases activity with
  | run limits program =>
    exact (Machine.Grows.reset _).trans (Block.exec_grows limits program.block _)
  | execute limits s => exact s.exec_grows limits _
  | evaluate calls e => exact (e.evalWithin_keeps calls).grows _
  | emit line => exact ⟨.refl _, Nat.le_refl _⟩
  | reset => exact .reset _
  | memory op => exact ⟨(bench.memory.perform_extends op).1, Nat.le_refl _⟩

/-- **Whatever is done with a machine**, its frames stay and its next identity only grows. -/
theorem performAll_grows (past : List Activity) (bench : Workbench) :
    bench.machine.Grows (bench.performAll past).machine := by
  induction past generalizing bench with
  | nil => exact .refl _
  | cons activity rest ih => exact (bench.perform_grows activity).trans (ih _)

end Workbench

/-! ## A run does not depend on the past -/

/-- Two passages are the same but for the identities of functions. -/
structure Passage.Renumbered (k : Nat) (first second : Passage) : Prop where
  /-- Both come to their end, or both stop for the same reason. -/
  result_eq : second.result = first.result.mapError (Stop.renumber k)
  /-- If they fail, then with the same kind, detail and descriptions of calls. -/
  failure : ∀ f, first.result = .error (.failure f) → ∃ g, second.result = .error (.failure g) ∧
    g.cause.kind = f.cause.kind ∧ g.cause.detail = f.cause.detail ∧
    g.calls.map CallRecord.text = f.calls.map CallRecord.text
  output_eq : second.machine.output = first.machine.output
  atWork_eq : second.machine.atWork = first.machine.atWork
  chain_eq : first.machine.store.chain = [rootFrame] ∧ second.machine.store.chain = [rootFrame]
  globals_eq : second.machine.store.globals = Bindings.renumber k first.machine.store.globals

theorem Program.watch_renumbered {k : Nat} {m₁ m₂ : Machine} (limits : Limits) (program : Program)
    (h : m₁.reset.Renumbered k m₂.reset) :
    Passage.Renumbered k (program.watch limits m₁) (program.watch limits m₂) := by
  obtain ⟨hends, hmachines⟩ := Journey.Tracks.around (.block program.block)
    (Block.watch_tracks k limits program.block) _ _ h
  change EndRenumbered k id anyValue (program.watch limits m₁).result
    (program.watch limits m₂).result at hends
  refine ⟨?_, fun f hf => ?_, hmachines.output_eq, hmachines.atWork_eq,
    ⟨hmachines.holdsOnly.chain_eq, hmachines.alsoHoldsOnly.chain_eq⟩, hmachines.globals_eq⟩
  · generalize (program.watch limits m₁).result = first at hends ⊢
    generalize (program.watch limits m₂).result = second at hends ⊢
    cases hends with
    | value _ => rfl
    | stop reason => rfl
  · rw [hf] at hends
    generalize (program.watch limits m₂).result = result at hends ⊢
    cases hends with
    | stop reason =>
      refine ⟨f.renumber k, rfl, f.cause.kind_renumber k, f.cause.detail_renumber k, ?_⟩
      show (f.calls.map (CallRecord.renumber k)).map CallRecord.text = _
      rw [List.map_map]
      exact List.map_congr_left fun call _ => call.text_renumber k

/-- What the printed lines of a program are, if it has any. -/
theorem Program.interpret_eq {program : Program} {result : Except Stop Unit} {m : Machine}
    (h : program.run (Machine.new .fresh) = (result, m)) :
    program.interpret = result.map fun _ => m.output := by
  unfold interpret
  rw [h]
  cases result <;> rfl

/-- **A run forgets the past.**  Let anything have been done with a machine: programs that ran to
    their end or failed, single statements and expressions, operations on its store, snapshots that
    were brought back, calls that are still in progress.  A program that is run on it then does what
    it does on a new machine, whatever the limits: it prints the same, stops for the same reason or
    for none, and leaves the same statement at work and the same global bindings, but for the
    identities of functions, which are counted on from another number.  That number is one and the
    same for all programs.  So each of several programs that are run one after the other does what
    it does alone. -/
theorem run_forgets_past (host : Host) (past : List Activity) :
    let used := ((Workbench.new host).performAll past).machine
    let fresh := Machine.new .fresh
    ∃ k, ∀ program : Program,
      (∀ limits, Passage.Renumbered k (program.watch limits fresh) (program.watch limits used) ∧
        ((program.watch limits used).result, (program.watch limits used).machine) =
          program.runWithin limits used) ∧
      (∀ output, program.interpret = .ok output → ∃ m, program.run used = (.ok (), m) ∧
        m.output = output) ∧
      ∀ stop, program.interpret = .error stop →
        (program.run used).1 = .error (stop.renumber k) := by
  intro used fresh
  have hgrows : (Machine.new host).Grows used := (Workbench.new host).performAll_grows past
  have hroot : rootFrame < used.store.frames.size := by
    have hnew : (Machine.new host).store.InHeap [rootFrame] := (Memory.sound_new _).root
    exact hgrows.store.inHeap hnew rootFrame List.mem_cons_self
  obtain ⟨k, hk⟩ : ∃ k, used.host.nextIdentity = fresh.host.nextIdentity + k := by
    have hleast : fresh.host.nextIdentity ≤ (Machine.new host).host.nextIdentity :=
      Nat.add_le_add_right (Nat.zero_le host.nextIdentity) _
    exact Nat.exists_eq_add_of_le (Nat.le_trans hleast hgrows.next)
  have hsame (program : Program) (limits : Limits) :=
    program.watch_renumbered limits (Machine.reset_renumbered (by decide) hroot hk)
  refine ⟨k, fun program => ⟨fun limits => ⟨hsame program limits, ?_⟩, ?_⟩⟩
  · exact program.watch_eq_run limits used
  have hstandard := hsame program .standard
  have hinterpret := program.interpret_eq (program.watch_eq_run .standard fresh).symm
  have hrun : program.run used = _ := (program.watch_eq_run .standard used).symm
  rw [hinterpret, hrun, hstandard.result_eq]
  cases (program.watch .standard fresh).result with
  | ok u =>
    constructor
    · intro output houtput
      exact ⟨_, rfl, hstandard.output_eq.trans (Except.ok.inj houtput)⟩
    · intro stop hstop
      cases hstop
  | error stop =>
    constructor
    · intro output houtput
      cases houtput
    · intro reason hreason
      obtain rfl := Except.error.inj hreason
      rfl

end BellaLang
