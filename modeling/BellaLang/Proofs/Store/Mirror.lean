import BellaLang.Proofs.Store.Links

/-!
The chain of frames is what the links lead along.

Nothing in a memory with links says that they lead to the root, or anywhere: whatever is put on top
may be a frame whose call was left long ago, and what is left may be a call whose frame is not on
top any more.

  1. A linked memory *mirrors* a memory with a chain if the links lead from the top along the chain
     in force to the root, and likewise from all that can be put on top again: the links of the
     calls in progress, and the tops of the snapshots (`LinkedMemory.Mirrors`).

  2. Every operation can be performed, in one way, gives the same answer on both sides, and keeps
     the one the mirror of the other (`Mirrors.perform`); so does a history (`Mirrors.performAll`).

  3. Between the entering and the leaving of a call, calls nest (`Balanced`).  Whatever else happens
     then, the calls in progress are afterwards what they were (`Balanced.entered_eq`), so it is
     that call which is left, and its link is still what was on top when it was entered.

Main statement: `links_reach_root`.
-/

namespace BellaLang

namespace LinkedMemory

section
variable {l l' : LinkedMemory}

/-! ## Mirroring a memory -/

/-- A frame is the one of a call in progress, and its link leads along what was in force before. -/
structure Awaits (l : LinkedMemory) (id : FrameId) (call : Activation) : Prop where
  frame_eq : call.frame = id
  leads : ∃ frame, l.frames[id]? = some frame ∧ frame.caller = some call.function ∧
    l.LeadsToRoot frame.link call.below

/-- Two snapshots keep the same, and the top of the one leads along the chain of the other. -/
structure Keeps (l : LinkedMemory) (kept : LinkedSnapshot) (snapshot : Snapshot) : Prop where
  contents_eq : kept.contents = snapshot.contents
  leads : l.LeadsToRoot kept.top snapshot.chain

theorem Awaits.mono {id : FrameId} {call : Activation} (h : l.Awaits id call)
    (hkeeps : l.KeepsLinks l') : l'.Awaits id call := by
  obtain ⟨frame, hframe, hcaller, hleads⟩ := h.leads
  obtain ⟨bindings, hframe'⟩ := hkeeps id frame hframe
  exact ⟨h.frame_eq, _, hframe', hcaller, hleads.mono hkeeps⟩

theorem Keeps.mono {kept : LinkedSnapshot} {snapshot : Snapshot} (h : l.Keeps kept snapshot)
    (hkeeps : l.KeepsLinks l') : l'.Keeps kept snapshot := ⟨h.contents_eq, h.leads.mono hkeeps⟩

/-- A linked memory mirrors a memory if its frames hold the same, and all that can be put into force
    there is what links lead along here, down to the root. -/
structure Mirrors (l : LinkedMemory) (m : Memory) : Prop where
  frames_eq : l.frames.map (·.toFrame) = m.store.frames
  root : l.RootEnds
  top : l.LeadsToRoot l.top m.store.chain
  pending : List.Forall₂ l.Awaits l.pending m.calls.entered
  snapshots : List.Forall₂ l.Keeps l.snapshots m.snapshots

/-- An operation can be performed on both sides, and ends alike. -/
def PerformsAlike (l : LinkedMemory) (m : Memory) (op : Operation) : Prop :=
  ∃ outcome, l.Performs op outcome ∧ outcome.1 = (m.perform op).1 ∧
    outcome.2.Mirrors (m.perform op).2

namespace Mirrors

variable {m : Memory}

theorem size_eq (h : l.Mirrors m) : l.frames.size = m.store.frames.size := by
  rw [← h.frames_eq, Array.size_map]

theorem bindingsOf_eq (h : l.Mirrors m) (id : FrameId) :
    l.bindingsOf id = m.store.bindingsOf id := by
  unfold bindingsOf Store.bindingsOf
  rw [← h.frames_eq, Array.getElem?_map]
  cases l.frames[id]? with
  | none => rfl
  | some frame => rfl

/-- The loop that looks for a name finds the frame that holds it. -/
theorem finds (h : l.Mirrors m) (name : String) :
    ∃ passed, l.Walk (l.holds name) l.top passed (m.store.holder? name) := by
  have hholds : l.holds name = fun id => (m.store.bindingsOf id).holds name := by
    funext id
    rw [holds, h.bindingsOf_eq]
  rw [hholds]
  exact h.top.follows.search _

theorem top_eq (h : l.Mirrors m) : l.top = some m.store.top := h.top.start_eq

theorem finds_from_top (h : l.Mirrors m) (name : String) :
    ∃ passed, l.Walk (l.holds name) (some m.store.top) passed (m.store.holder? name) := by
  rw [← h.top_eq]
  exact h.finds name

/-- Writing, and putting something on top from where the root is reached. -/
theorem change (h : l.Mirrors m) (hkeeps : l.KeepsLinks l') (hpending : l'.pending = l.pending)
    (hsnapshots : l'.snapshots = l.snapshots) {store : Store}
    (hframes : l'.frames.map (·.toFrame) = store.frames)
    (htop : l'.LeadsToRoot l'.top store.chain) :
    l'.Mirrors (m.withStore store) where
  frames_eq := hframes
  root := h.root.mono hkeeps
  top := htop
  pending := by
    rw [hpending]
    exact h.pending.imp fun _ _ hcall => hcall.mono hkeeps
  snapshots := by
    rw [hsnapshots]
    exact h.snapshots.imp fun _ _ hkept => hkept.mono hkeeps

theorem map_toFrame_write {frames : Array Frame} (h : l.frames.map (·.toFrame) = frames)
    (id : FrameId) (bindings : Bindings) :
    (l.write id bindings).frames.map (·.toFrame) =
      frames.modify id fun frame => { frame with bindings } := by
  refine Array.ext_getElem? fun other => ?_
  unfold write
  rw [← h, Array.getElem?_map, Array.getElem?_modify, Array.getElem?_modify, Array.getElem?_map]
  by_cases hid : id = other
  · rw [if_pos hid, if_pos hid, Option.map_map, Option.map_map]
    rfl
  · rw [if_neg hid, if_neg hid]

/-- Writing to one frame. -/
theorem write (h : l.Mirrors m) (id : FrameId) (bindings : Bindings) :
    (l.write id bindings).Mirrors (m.withStore (m.store.setBindings id bindings)) :=
  h.change (l.keepsLinks_write id bindings) rfl rfl (map_toFrame_write h.frames_eq id bindings)
    (h.top.mono (l.keepsLinks_write id bindings))

/-! ## One operation -/

theorem perform_declare (h : l.Mirrors m) (name : String) (value : Value) :
    l.PerformsAlike m (.names (.declare name value)) := by
  obtain ⟨passed, hwalk⟩ := h.finds_from_top name
  refine ⟨_, .declare h.top_eq hwalk, ?_⟩
  show (l.declared m.store.top name value (m.store.holder? name)).1 =
      (m.calls.change (m.store.declare name value) (.value value)).1 ∧
    (l.declared m.store.top name value (m.store.holder? name)).2.Mirrors
      { m with calls := (m.calls.change (m.store.declare name value) (.value value)).2 }
  unfold Store.declare Store.contains
  cases m.store.holder? name with
  | some id => exact ⟨rfl, h⟩
  | none =>
    refine ⟨rfl, ?_⟩
    have hwrite := h.write m.store.top ((m.store.bindingsOf m.store.top).put name value)
    rw [← h.bindingsOf_eq] at hwrite ⊢
    exact hwrite

theorem perform_assign (h : l.Mirrors m) (name : String) (value : Value) :
    l.PerformsAlike m (.names (.assign name value)) := by
  obtain ⟨passed, hwalk⟩ := h.finds_from_top name
  refine ⟨_, .assign h.top_eq hwalk, ?_⟩
  show (l.assigned name value (m.store.holder? name)).1 =
      (m.calls.change (m.store.assign name value) (.value value)).1 ∧
    (l.assigned name value (m.store.holder? name)).2.Mirrors
      { m with calls := (m.calls.change (m.store.assign name value) (.value value)).2 }
  unfold Store.assign assigned
  cases m.store.holder? name with
  | none => exact ⟨rfl, h⟩
  | some id =>
    dsimp only
    rw [h.bindingsOf_eq]
    cases (m.store.bindingsOf id).get? name with
    | none => exact ⟨rfl, h⟩
    | some held =>
      dsimp only
      split
      · exact ⟨rfl, h⟩
      · exact ⟨rfl, h.write id _⟩

theorem perform_lookup (h : l.Mirrors m) (name : String) :
    l.PerformsAlike m (.names (.lookup name)) := by
  obtain ⟨passed, hwalk⟩ := h.finds_from_top name
  refine ⟨_, .lookup h.top_eq hwalk, ?_⟩
  show l.lookedUp name (m.store.holder? name) = (m.calls.look name).1 ∧
    l.Mirrors { m with calls := (m.calls.look name).2 }
  rw [m.calls.look_snd name]
  refine ⟨?_, h⟩
  have hget : m.calls.store.get? name =
      (m.store.holder? name).bind fun id => (m.store.bindingsOf id).get? name := rfl
  unfold CallStore.look Store.lookup lookedUp
  rw [hget]
  cases m.store.holder? name with
  | none => rfl
  | some id =>
    dsimp only [Option.bind_some]
    rw [h.bindingsOf_eq]
    cases (m.store.bindingsOf id).get? name with
    | none => rfl
    | some value => rfl

theorem perform_contains (h : l.Mirrors m) (name : String) :
    l.PerformsAlike m (.names (.contains name)) := by
  obtain ⟨passed, hwalk⟩ := h.finds_from_top name
  exact ⟨_, .contains h.top_eq hwalk, rfl, h⟩

theorem perform_enter (h : l.Mirrors m) (f : UserFunction) (args : List Value) :
    l.PerformsAlike m (.names (.enter f args)) := by
  refine ⟨_, .enter f args, ?_⟩
  show (l.entered f args).1 = (m.calls.enter f args).1 ∧
    (l.entered f args).2.Mirrors { m with calls := (m.calls.enter f args).2 }
  by_cases hargs : f.params.length = args.length
  · let frame : LinkedFrame := ⟨⟨Bindings.ofPairs (f.params.zip args), some f⟩, l.top⟩
    let inside : LinkedMemory := { l with
      frames := l.frames.push frame, top := some l.frames.size
      pending := l.frames.size :: l.pending }
    have hlinked : l.entered f args = (.done, inside) := if_pos hargs
    have hchain : m.calls.enter f args =
        (.done, ⟨m.store.entered f args, m.store.activation f :: m.calls.entered⟩) := by
      rw [CallStore.enter, m.calls.store.enter?_eq hargs]
      rfl
    rw [hlinked, hchain]
    have hkeeps : l.KeepsLinks inside := l.keepsLinks_push frame
    have hnew : inside.frames[l.frames.size]? = some frame := Array.getElem?_push_size
    refine ⟨rfl, ?_, h.root.mono hkeeps, ?_, .cons ⟨h.size_eq.symm, frame, hnew, rfl, ?_⟩ ?_, ?_⟩
    · show (l.frames.push frame).map (·.toFrame) = m.store.frames.push frame.toFrame
      rw [Array.map_push, h.frames_eq]
    · show inside.LeadsToRoot (some l.frames.size) (m.store.frames.size :: m.store.chain)
      rw [← h.size_eq]
      exact (h.top.mono hkeeps).cons hnew rfl
    · exact h.top.mono hkeeps
    · exact h.pending.imp fun _ _ hcall => hcall.mono hkeeps
    · exact h.snapshots.imp fun _ _ hkept => hkept.mono hkeeps
  · have hlinked : l.entered f args = (.refused, l) := if_neg hargs
    have hchain : m.calls.enter f args = (.refused, m.calls) := by
      rw [CallStore.enter, Store.enter?, if_neg hargs]
    rw [hlinked, hchain]
    exact ⟨rfl, h⟩

/-- Leaving a call, with whatever answer. -/
theorem left (h : l.Mirrors m) (answer : UserFunction → FlatMap → Answer) :
    ∃ outcome, l.left answer = some outcome ∧ outcome.1 = (m.calls.pop false answer).1 ∧
      outcome.2.Mirrors { m with calls := (m.calls.pop false answer).2 } := by
  have hpending := h.pending
  generalize hids : l.pending = ids at hpending
  generalize hcalls : m.calls.entered = calls at hpending
  cases hpending with
  | nil =>
    have hlinked : l.left answer = some (.refused, l) := by rw [LinkedMemory.left, hids]
    have hchain : m.calls.pop false answer = (.refused, m.calls) := by
      rw [CallStore.pop, hcalls]
    rw [hchain]
    exact ⟨_, hlinked, rfl, h⟩
  | @cons id call ids calls hcall hrest =>
    obtain ⟨rfl, frame, hframe, hcaller, hleads⟩ := hcall
    let after : LinkedMemory := { l with top := frame.link, pending := ids }
    have hlinked : l.left answer =
        some (answer call.function frame.bindings.get?, after) := by
      rw [LinkedMemory.left, hids]
      dsimp only
      rw [hframe]
      dsimp only [bind, Option.bind]
      rw [hcaller]
      rfl
    have hchain : m.calls.pop false answer =
        (answer call.function (m.store.bindingsOf call.frame).get?,
          ⟨m.store.leave call, calls⟩) := by
      rw [CallStore.pop, hcalls]
      rfl
    have hbindings : m.store.bindingsOf call.frame = frame.bindings := by
      rw [← h.bindingsOf_eq, LinkedMemory.bindingsOf, hframe]
    have hkeeps : l.KeepsLinks after := .refl l
    rw [hchain, hbindings]
    refine ⟨_, hlinked, rfl, h.frames_eq, h.root.mono hkeeps, hleads.mono hkeeps, ?_, ?_⟩
    · exact hrest.imp fun _ _ hcall => hcall.mono hkeeps
    · exact h.snapshots.imp fun _ _ hkept => hkept.mono hkeeps

theorem perform_snapshot (h : l.Mirrors m) : l.PerformsAlike m .snapshot := by
  let kept : LinkedSnapshot := ⟨l.top, m.store.chain.map fun id => (id, l.bindingsOf id)⟩
  let after : LinkedMemory := { l with snapshots := l.snapshots ++ [kept] }
  have hkeeps : l.KeepsLinks after := .refl l
  have hnew : after.Keeps kept m.store.snapshot := by
    constructor
    · show (m.store.chain.map fun id => (id, l.bindingsOf id)) = m.store.snapshot.contents
      exact List.map_congr_left fun id _ => by rw [h.bindingsOf_eq]
    · rw [Store.snapshot_chain]
      exact h.top.mono hkeeps
  refine ⟨_, .snapshot h.top.follows, rfl, h.frames_eq, h.root.mono hkeeps, h.top.mono hkeeps, ?_,
    ?_⟩
  · exact h.pending.imp fun _ _ hcall => hcall.mono hkeeps
  · have hold := h.snapshots.imp fun _ _ hkept => Keeps.mono hkept hkeeps
    exact List.rel_append hold (.cons hnew .nil)

/-- Putting copies back. -/
theorem map_toFrame_foldl_write (contents : List (FrameId × Bindings)) {store : Store}
    (h : l.frames.map (·.toFrame) = store.frames) :
    (contents.foldl (fun l entry => l.write entry.1 entry.2) l).frames.map (·.toFrame) =
      (contents.foldl (fun store entry => store.setBindings entry.1 entry.2) store).frames := by
  induction contents generalizing l store with
  | nil => exact h
  | cons entry rest ih => exact ih (map_toFrame_write h entry.1 entry.2)

/-- Two snapshots that were taken at the same time. -/
theorem snapshot_cases (h : l.Mirrors m) (taken : Nat) :
    (l.snapshots[taken]? = none ∧ m.snapshots[taken]? = none) ∨
      ∃ kept snapshot, l.snapshots[taken]? = some kept ∧ m.snapshots[taken]? = some snapshot ∧
        l.Keeps kept snapshot := by
  have hall := h.snapshots
  generalize l.snapshots = snapshots at hall ⊢
  generalize m.snapshots = others at hall ⊢
  induction hall generalizing taken with
  | nil => exact .inl ⟨rfl, rfl⟩
  | @cons kept snapshot _ _ hkept _ ih =>
    cases taken with
    | zero => exact .inr ⟨kept, snapshot, rfl, rfl, hkept⟩
    | succ taken => exact ih taken

theorem perform_restore (h : l.Mirrors m) (taken : Nat) :
    l.PerformsAlike m (.restore taken) := by
  refine ⟨_, .restore taken, ?_⟩
  show (l.restored taken).1 = (m.bringBack taken).1 ∧
    (l.restored taken).2.Mirrors (m.bringBack taken).2
  unfold restored Memory.bringBack
  rcases h.snapshot_cases taken with ⟨hlinked, hchain⟩ |
    ⟨⟨top, contents⟩, snapshot, hlinked, hchain, hkept⟩
  · rw [hlinked, hchain]
    exact ⟨rfl, h⟩
  · obtain rfl : contents = snapshot.contents := hkept.contents_eq
    rw [hlinked, hchain]
    let after : LinkedMemory := { l with
      frames := (snapshot.contents.foldl (fun l entry => l.write entry.1 entry.2) l).frames
      top }
    have hkeeps : l.KeepsLinks after := l.keepsLinks_foldl_write snapshot.contents
    have hframes : after.frames.map (·.toFrame) = (m.store.restore snapshot).frames :=
      map_toFrame_foldl_write snapshot.contents h.frames_eq
    exact ⟨rfl, h.change hkeeps rfl rfl hframes (hkept.leads.mono hkeeps)⟩

theorem startedOver (h : l.Mirrors m) (bindings : Bindings) :
    (l.startedOver bindings).Mirrors (m.withStore (m.store.reset bindings)) := by
  have hkeeps : l.KeepsLinks (l.startedOver bindings) := l.keepsLinks_write rootFrame bindings
  have hframes := map_toFrame_write h.frames_eq rootFrame bindings
  exact h.change hkeeps rfl rfl hframes (.root (h.root.mono hkeeps))

/-- **One operation** can be performed in a mirror too, with the same answer, and leaves a
    mirror. -/
theorem perform (h : l.Mirrors m) (op : Operation) : l.PerformsAlike m op := by
  cases op with
  | names op =>
    cases op with
    | declare name value => exact h.perform_declare name value
    | assign name value => exact h.perform_assign name value
    | lookup name => exact h.perform_lookup name
    | contains name => exact h.perform_contains name
    | enter f args => exact h.perform_enter f args
    | leave =>
      obtain ⟨outcome, hleft, hends⟩ := h.left fun _ _ => .done
      exact ⟨outcome, .leave hleft, hends⟩
    | unwind =>
      obtain ⟨outcome, hleft, hends⟩ := h.left .unwound
      exact ⟨outcome, .unwind hleft, hends⟩
  | snapshot => exact h.perform_snapshot
  | restore taken => exact h.perform_restore taken
  | reset bindings => exact ⟨_, .reset bindings, rfl, h.startedOver bindings⟩
  | clear => exact ⟨_, .clear, rfl, h.startedOver []⟩

end Mirrors

end

end LinkedMemory

/-! ## Histories -/

/-- The answers to operations one after the other. -/
def Memory.answersTo (m : Memory) : List Operation → List Answer
  | [] => []
  | op :: rest => (m.perform op).1 :: (m.perform op).2.answersTo rest

namespace LinkedMemory

/-- **A history** can be gone through in a mirror too, with the same answers, and leaves a
    mirror. -/
theorem Mirrors.performAll {l : LinkedMemory} {m : Memory} (h : l.Mirrors m)
    (history : List Operation) :
    ∃ last, l.Goes history (m.answersTo history) last ∧ last.Mirrors (m.performAll history) := by
  induction history generalizing l m with
  | nil => exact ⟨l, .done l, h⟩
  | cons op rest ih =>
    obtain ⟨⟨answer, next⟩, hperforms, rfl, hnext⟩ := h.perform op
    obtain ⟨last, hgoes, hlast⟩ := ih hnext
    exact ⟨last, .step hperforms hgoes, hlast⟩

/-- New memories mirror each other. -/
theorem mirrors_new (bindings : Bindings) : (new bindings).Mirrors (Memory.new bindings) := by
  have hroot : empty.RootEnds := ⟨⟨⟨[], none⟩, none⟩, rfl, rfl⟩
  have hframes : empty.frames.map (·.toFrame) = Store.empty.frames := by
    simp [empty, Store.empty]
  have hempty : empty.Mirrors ⟨⟨Store.empty, []⟩, []⟩ := ⟨hframes, hroot, .root hroot, .nil, .nil⟩
  exact hempty.startedOver bindings

end LinkedMemory

/-! ## Calls that nest -/

/-- Does an operation leave a call? -/
def Operation.leaves : Operation → Bool
  | .names .leave | .names .unwind => true
  | _ => false

/-- Does an operation have nothing to do with calls?  A call that cannot be entered is none. -/
def Operation.isPlain : Operation → Bool
  | .names (.enter f args) => f.params.length != args.length
  | op => !op.leaves

/-- In a history every call that is entered is left, and no other one. -/
inductive Balanced : List Operation → Prop
  | nil : Balanced []
  | plain {op : Operation} {rest : List Operation} (hop : op.isPlain = true)
    (hrest : Balanced rest) : Balanced (op :: rest)
  | call {f : UserFunction} {args : List Value} {inner : List Operation} {op : Operation}
    {rest : List Operation} (hcount : f.params.length = args.length) (hinner : Balanced inner)
    (hop : op.leaves = true) (hrest : Balanced rest) :
    Balanced (.names (.enter f args) :: (inner ++ op :: rest))

namespace Memory

theorem performAll_append (m : Memory) (first second : List Operation) :
    m.performAll (first ++ second) = (m.performAll first).performAll second := List.foldl_append

/-- What has nothing to do with calls leaves the calls in progress alone. -/
theorem entered_of_isPlain (m : Memory) {op : Operation} (h : op.isPlain = true) :
    (m.perform op).2.calls.entered = m.calls.entered := by
  have hchange (changed : Except Cause Store) (answer : Answer) :
      (m.calls.change changed answer).2.entered = m.calls.entered := by
    cases changed <;> rfl
  cases op with
  | names op =>
    cases op with
    | declare name value => exact hchange _ _
    | assign name value => exact hchange _ _
    | lookup name =>
      show (m.calls.look name).2.entered = m.calls.entered
      rw [m.calls.look_snd name]
    | contains name => rfl
    | enter f args =>
      have hcount : ¬ f.params.length = args.length := bne_iff_ne.mp h
      show (m.calls.enter f args).2.entered = m.calls.entered
      rw [CallStore.enter, Store.enter?, if_neg hcount]
    | leave => cases h
    | unwind => cases h
  | snapshot => rfl
  | restore taken =>
    show (m.bringBack taken).2.calls.entered = m.calls.entered
    unfold bringBack
    cases m.snapshots[taken]? <;> rfl
  | reset bindings => rfl
  | clear => rfl

/-- A call with as many arguments as parameters is entered. -/
theorem perform_enter (m : Memory) {f : UserFunction} {args : List Value}
    (h : f.params.length = args.length) :
    (m.perform (.names (.enter f args))).2.calls =
      ⟨m.store.entered f args, m.store.activation f :: m.calls.entered⟩ := by
  show (m.calls.enter f args).2 = _
  rw [CallStore.enter, m.calls.store.enter?_eq h]
  rfl

/-- The newest call is left. -/
theorem perform_of_leaves (m : Memory) {op : Operation} (h : op.leaves = true) {call : Activation}
    {rest : List Activation} (hentered : m.calls.entered = call :: rest) :
    (m.perform op).2.calls = ⟨m.store.leave call, rest⟩ := by
  have hpop (answer : UserFunction → FlatMap → Answer) :
      (m.calls.pop false answer).2 = ⟨m.store.leave call, rest⟩ := by
    rw [CallStore.pop, hentered]
    rfl
  cases op with
  | names op => cases op <;> first | exact hpop _ | cases h
  | snapshot => cases h
  | restore taken => cases h
  | reset bindings => cases h
  | clear => cases h

/-- **From entering to leaving.**  After a call has been entered, calls have come and gone, and the
    call has been left, the chain in force and the calls in progress are what they were. -/
theorem performAll_call (m : Memory) {f : UserFunction} {args : List Value}
    {inner : List Operation} {op : Operation} (hcount : f.params.length = args.length)
    (hinner : ∀ m : Memory, (m.performAll inner).calls.entered = m.calls.entered)
    (hop : op.leaves = true) :
    let after := m.performAll (.names (.enter f args) :: (inner ++ [op]))
    after.store.chain = m.store.chain ∧ after.calls.entered = m.calls.entered := by
  intro after
  let inside := (m.perform (.names (.enter f args))).2
  have hentered : (inside.performAll inner).calls.entered =
      m.store.activation f :: m.calls.entered := by
    rw [hinner, m.perform_enter hcount]
  have hafter : after.calls = ⟨(inside.performAll inner).store.leave (m.store.activation f),
      m.calls.entered⟩ := by
    show (inside.performAll (inner ++ [op])).calls = _
    rw [performAll_append]
    exact perform_of_leaves _ hop hentered
  constructor
  · show after.calls.store.chain = m.store.chain
    rw [hafter]
    rfl
  · rw [hafter]

end Memory

/-- Where calls nest, the calls in progress are afterwards what they were. -/
theorem Balanced.entered_eq {history : List Operation} (h : Balanced history) (m : Memory) :
    (m.performAll history).calls.entered = m.calls.entered := by
  induction h generalizing m with
  | nil => rfl
  | plain hop _ ih => exact (ih _).trans (m.entered_of_isPlain hop)
  | @call f args inner op rest hcount _ hop _ ihInner ihRest =>
    have hsplit : Operation.names (.enter f args) :: (inner ++ op :: rest) =
        (.names (.enter f args) :: (inner ++ [op])) ++ rest := by
      rw [List.cons_append, List.append_assoc]
      rfl
    obtain ⟨-, hentered⟩ := m.performAll_call hcount ihInner hop
    rw [hsplit, Memory.performAll_append, ihRest, hentered]

/-! ## The links of every history -/

/-- The links of a memory are well formed, and what its loops find is what the store tells. -/
structure LinkedMemory.WellFormed (l : LinkedMemory) (store : Store) : Prop where
  /-- Looking for the root ends at the root, after as many frames as there are calls. -/
  reachesRoot : ∃ passed, l.Walk (· == rootFrame) l.top passed (some rootFrame) ∧
    passed.length = store.depth
  /-- Following all links goes along the chain, and the root comes last. -/
  runsOut : l.Follows l.top store.chain ∧ store.chain.getLast? = some rootFrame
  /-- Looking for a name ends, with the frame that holds it. -/
  finds : ∀ name, ∃ passed, l.Walk (l.holds name) l.top passed (store.holder? name)

theorem LinkedMemory.Mirrors.wellFormed {l : LinkedMemory} {m : Memory} (h : l.Mirrors m) :
    l.WellFormed m.store :=
  ⟨h.top.findsRoot h.root, ⟨h.top.follows, h.top.last⟩, h.finds⟩

/-- **The links always lead to the root.**  Whatever is done with a new memory, in whatever order:
    declarations, assignments, look-ups, calls entered and left, normally or by a failure, snapshots
    taken and restored, and starting over in the middle of calls.  With links instead of a chain it
    can be gone through too, in one way and with the same answers.  Then every loop along the links
    ends: from the frame on top the root is reached after as many frames as there are calls in
    force, all links lead along the chain, and a name is found in the frame that the store finds.
    And once a call has been left on top is what was on top when it was entered, and the chain in
    force is what it was, whatever has been done in between. -/
theorem links_reach_root (bindings : Bindings) :
    (∀ history : List Operation, ∃ l : LinkedMemory,
      (LinkedMemory.new bindings).Goes history ((Memory.new bindings).answersTo history) l ∧
        (∀ answers other, (LinkedMemory.new bindings).Goes history answers other →
          answers = (Memory.new bindings).answersTo history ∧ other = l) ∧
        l.WellFormed ((Memory.new bindings).performAll history).store) ∧
    ∀ (before inner : List Operation) (f : UserFunction) (args : List Value) (op : Operation),
      f.params.length = args.length → Balanced inner → op.leaves = true →
        let history := before ++ .names (.enter f args) :: (inner ++ [op])
        ∃ l l' : LinkedMemory,
          (LinkedMemory.new bindings).Goes before ((Memory.new bindings).answersTo before) l ∧
          (LinkedMemory.new bindings).Goes history ((Memory.new bindings).answersTo history) l' ∧
          l'.top = l.top ∧ ((Memory.new bindings).performAll history).store.chain =
            ((Memory.new bindings).performAll before).store.chain := by
  have hnew := LinkedMemory.mirrors_new bindings
  constructor
  · intro history
    obtain ⟨l, hgoes, hmirrors⟩ := hnew.performAll history
    refine ⟨l, hgoes, fun answers other hother => ?_, hmirrors.wellFormed⟩
    exact hother.unique hgoes
  · intro before inner f args op hcount hinner hop history
    obtain ⟨l, hgoes, hmirrors⟩ := hnew.performAll before
    obtain ⟨l', hgoes', hmirrors'⟩ := hnew.performAll history
    have hchain : ((Memory.new bindings).performAll history).store.chain =
        ((Memory.new bindings).performAll before).store.chain := by
      rw [Memory.performAll_append]
      exact (Memory.performAll_call _ hcount hinner.entered_eq hop).1
    refine ⟨l, l', hgoes, hgoes', ?_, hchain⟩
    rw [hmirrors'.top_eq, hmirrors.top_eq, Store.top, hchain, Store.top]

/-- A call is left by a failure after a frame was put back into force whose call had been left, and
    after starting over twice. -/
theorem links_reach_root_restored :
    let f : UserFunction := ⟨1, "f", ["a"], .nothing⟩
    let before : List Operation := [.names (.enter f [.boolean false])]
    let inner : List Operation := [.names (.enter f [.boolean true]), .snapshot, .names .leave,
      .restore 0, .reset [("a", .boolean true)], .restore 0, .clear]
    let history := before ++ .names (.enter f [.array []]) :: (inner ++ [.names .unwind])
    Balanced inner ∧ ∃ l l' : LinkedMemory,
      (LinkedMemory.new []).Goes before ((Memory.new []).answersTo before) l ∧
      (LinkedMemory.new []).Goes history ((Memory.new []).answersTo history) l' ∧
      l'.top = l.top ∧ l'.top = some 1 := by
  intro f before inner history
  have hinner : Balanced inner := by
    refine @Balanced.call f [.boolean true] [.snapshot] (.names .leave) _ rfl ?_ rfl ?_
    · exact .plain rfl .nil
    · exact .plain rfl (.plain rfl (.plain rfl (.plain rfl .nil)))
  obtain ⟨hwell, hleave⟩ := links_reach_root []
  obtain ⟨l, l', hgoes, hgoes', htop, -⟩ :=
    hleave before inner f [.array []] (.names .unwind) rfl hinner rfl
  obtain ⟨m, hm, -, hwell⟩ := hwell before
  obtain ⟨-, rfl⟩ := hgoes.unique hm
  have hchain : ((Memory.new []).performAll before).store.chain = [1, rootFrame] := rfl
  obtain ⟨hfollows, hlast⟩ := hwell.runsOut
  have hstart := LinkedMemory.LeadsToRoot.start_eq ⟨hfollows, hlast⟩
  rw [hchain] at hstart
  exact ⟨hinner, l, l', hgoes, hgoes', htop, htop.trans hstart⟩

end BellaLang
