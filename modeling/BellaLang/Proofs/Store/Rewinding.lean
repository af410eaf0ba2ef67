import BellaLang.Proofs.Store.Layers
import BellaLang.Store.Snapshot

/-!
Restoring a snapshot undoes everything that has happened since.

A snapshot and the store share the frames and must not share what the frames hold.  Meanwhile the
frames may be written to, left, put back into force by another snapshot, or dropped by starting
over; none of that can be allowed to show after the snapshot has been restored.

  1. `Memory` is a store with the calls in progress and the snapshots that have been taken of it;
     an operation is one on names and calls, or takes a snapshot, restores any of those taken, or
     starts over.

  2. No operation takes a frame out of the heap or changes whose call it was made for: only the
     bindings of a frame ever change (`Store.Grows`).  The snapshots taken stay as they are, and
     new ones come behind them.

  3. Everything that can be put into force lies in the heap (`Memory.Sound`): the chain, what was in
     force when a call was entered, and the chains of the snapshots.

  4. Restoring writes the copies back into the frames of the snapshot and into no others
     (`Store.frames_restore`), so by 2 those frames are again what they were.

Main statement: `restore_undoes`.
-/

namespace BellaLang

/-! ## Operations -/

/-- What can be asked of a store of which snapshots are taken. -/
inductive Operation where
  | names (op : StoreOp)
  | snapshot
  /-- Restore a snapshot, by its place in the order in which they were taken. -/
  | restore (taken : Nat)
  | reset (bindings : Bindings)
  | clear

/-- A store with the calls in progress, and the snapshots taken of it, the first one first. -/
structure Memory where
  calls : CallStore
  snapshots : List Snapshot

namespace Memory

/-- A new memory, with nothing but some global names. -/
def new (bindings : Bindings) : Memory := ⟨⟨Store.empty.reset bindings, []⟩, []⟩

/-- The store of a memory. -/
def store (m : Memory) : Store := m.calls.store

/-- A memory with another store. -/
def withStore (m : Memory) (store : Store) : Memory := { m with calls := { m.calls with store } }

/-- Restore a snapshot, if it has been taken. -/
def bringBack (m : Memory) (taken : Nat) : Answer × Memory :=
  match m.snapshots[taken]? with
  | some snapshot => (.done, m.withStore (m.store.restore snapshot))
  | none => (.refused, m)

/-- An operation on a memory.  A call that has been left keeps its frame in the heap, because a
    snapshot may have kept it. -/
def perform (m : Memory) : Operation → Answer × Memory
  | .names op => ((m.calls.perform false op).1, { m with calls := (m.calls.perform false op).2 })
  | .snapshot => (.done, { m with snapshots := m.snapshots ++ [m.store.snapshot] })
  | .restore taken => m.bringBack taken
  | .reset bindings => (.done, m.withStore (m.store.reset bindings))
  | .clear => (.done, m.withStore m.store.clear)

/-- The memory after operations one after the other. -/
def performAll (m : Memory) (history : List Operation) : Memory :=
  history.foldl (fun m op => (m.perform op).2) m

end Memory

/-! ## Frames stay -/

/-- Every frame of the one store is in the other, for the same call, with whatever bindings. -/
def Store.Grows (old new : Store) : Prop :=
  ∀ (id : FrameId) (frame : Frame), old.frames[id]? = some frame →
    ∃ bindings, new.frames[id]? = some { frame with bindings }

/-- All these frames are in the heap. -/
def Store.InHeap (store : Store) (ids : List FrameId) : Prop :=
  ∀ id ∈ ids, id < store.frames.size

namespace Store

theorem Grows.refl (store : Store) : store.Grows store := fun _ frame h => ⟨frame.bindings, h⟩

theorem Grows.trans {first second third : Store} (h : first.Grows second)
    (h' : second.Grows third) : first.Grows third := by
  intro id frame hframe
  obtain ⟨bindings, hsecond⟩ := h id frame hframe
  obtain ⟨later, hthird⟩ := h' id _ hsecond
  exact ⟨later, hthird⟩

/-- What lies in a heap lies in all later ones. -/
theorem Grows.inHeap {old new : Store} (h : old.Grows new) {ids : List FrameId}
    (hids : old.InHeap ids) : new.InHeap ids := by
  intro id hid
  have hlt : id < old.frames.size := hids id hid
  obtain ⟨bindings, hnew⟩ := h id _ (Array.getElem?_eq_getElem hlt)
  exact (Array.getElem?_eq_some_iff.mp hnew).1

theorem grows_setBindings (store : Store) (id : FrameId) (bindings : Bindings) :
    store.Grows (store.setBindings id bindings) := by
  intro other frame hframe
  unfold setBindings
  rw [Array.getElem?_modify, hframe]
  by_cases h : id = other
  · exact ⟨bindings, by rw [if_pos h]; rfl⟩
  · exact ⟨frame.bindings, by rw [if_neg h]⟩

theorem grows_entered (store : Store) (f : UserFunction) (args : List Value) :
    store.Grows (store.entered f args) := by
  intro id frame hframe
  have hlt : id < store.frames.size := (Array.getElem?_eq_some_iff.mp hframe).1
  refine ⟨frame.bindings, ?_⟩
  unfold entered
  rw [Array.getElem?_push, if_neg (Nat.ne_of_lt hlt), hframe]

/-! ## Restoring, frame by frame -/

/-- Writing copies back changes the frames that they are copies of, and no others. -/
theorem frames_foldl_setBindings (copies : FrameId → Bindings) (ids : List FrameId) (store : Store)
    (id : FrameId) :
    ((ids.map fun id => (id, copies id)).foldl
        (fun store entry => store.setBindings entry.1 entry.2) store).frames[id]? =
      if id ∈ ids then store.frames[id]?.map fun frame => { frame with bindings := copies id }
      else store.frames[id]? := by
  induction ids generalizing store with
  | nil => rfl
  | cons first rest ih =>
    rw [List.map_cons, List.foldl_cons, ih]
    show (if id ∈ rest then (store.frames.modify first _)[id]?.map _
      else (store.frames.modify first _)[id]?) = _
    rw [Array.getElem?_modify]
    by_cases hfirst : first = id
    · subst hfirst
      rw [if_pos rfl, if_pos List.mem_cons_self, Option.map_map]
      -- the frame may come again further on, with the same copy
      split <;> rfl
    · have hmem : id ∈ first :: rest ↔ id ∈ rest := by
        rw [List.mem_cons, or_iff_right (Ne.symm hfirst)]
      rw [if_neg hfirst]
      simp only [hmem]

/-- Restoring a snapshot writes to the frames of its chain, and to no others. -/
theorem frames_restore (store old : Store) (id : FrameId) :
    (store.restore old.snapshot).frames[id]? =
      if id ∈ old.chain then
        store.frames[id]?.map fun frame => { frame with bindings := old.bindingsOf id }
      else store.frames[id]? :=
  frames_foldl_setBindings old.bindingsOf old.chain store id

/-- Whatever the frames of a snapshot hold by now, restoring it makes them what they were. -/
theorem frames_restore_of_mem {old store : Store} (hgrows : old.Grows store)
    (hheap : old.InHeap old.chain) {id : FrameId} (hid : id ∈ old.chain) :
    (store.restore old.snapshot).frames[id]? = old.frames[id]? := by
  have hin : id < old.frames.size := hheap id hid
  have hold : old.frames[id]? = some old.frames[id] := Array.getElem?_eq_getElem hin
  obtain ⟨bindings, hstore⟩ := hgrows id _ hold
  have hbindings : old.bindingsOf id = old.frames[id].bindings := by
    unfold bindingsOf
    rw [hold]
  rw [frames_restore, if_pos hid, hstore, hbindings, hold]
  rfl

theorem grows_restore (store : Store) (snapshot : Snapshot) :
    store.Grows (store.restore snapshot) := by
  suffices h : ∀ (contents : List (FrameId × Bindings)) (store : Store),
      store.Grows (contents.foldl (fun store entry => store.setBindings entry.1 entry.2) store) from
    h snapshot.contents store
  intro contents
  induction contents with
  | nil => exact Grows.refl
  | cons entry rest ih =>
    intro store
    exact (store.grows_setBindings entry.1 entry.2).trans (ih _)

end Store

/-! ## What one operation can do -/

/-- A change of the store that writes to one frame does that, or fails and does nothing. -/
theorem CallStore.change_cases (c : CallStore) (changed : Except Cause Store) (answer : Answer)
    (hwrite : ∀ store, changed = .ok store →
      ∃ id bindings, store = c.store.setBindings id bindings) :
    (c.change changed answer).2 = c ∨
      ∃ id bindings,
        (c.change changed answer).2 = { c with store := c.store.setBindings id bindings } := by
  cases changed with
  | error cause => exact .inl rfl
  | ok store =>
    obtain ⟨id, bindings, rfl⟩ := hwrite store rfl
    exact .inr ⟨id, bindings, rfl⟩

/-- A call is left if there is one. -/
theorem CallStore.pop_cases (c : CallStore) (answer : UserFunction → FlatMap → Answer) :
    (c.pop false answer).2 = c ∨
      ∃ call rest, c.entered = call :: rest ∧
        (c.pop false answer).2 = ⟨c.store.leave call, rest⟩ := by
  obtain ⟨store, entered⟩ := c
  cases entered with
  | nil => exact .inl rfl
  | cons call rest => exact .inr ⟨call, rest, rfl, rfl⟩

/-- A call is entered if there are as many arguments as parameters. -/
theorem CallStore.enter_cases (c : CallStore) (f : UserFunction) (args : List Value) :
    (c.enter f args).2 = c ∨
      (c.enter f args).2 = ⟨c.store.entered f args, c.store.activation f :: c.entered⟩ := by
  unfold enter
  by_cases hargs : f.params.length = args.length
  · rw [c.store.enter?_eq hargs]
    exact .inr rfl
  · rw [Store.enter?, if_neg hargs]
    exact .inl rfl

/-- An operation on names and calls does nothing, writes to one frame, puts a new frame in front, or
    has in force again what was in force before the newest call. -/
theorem CallStore.perform_cases (c : CallStore) (op : StoreOp) :
    (c.perform false op).2 = c ∨
      (∃ id bindings,
        (c.perform false op).2 = { c with store := c.store.setBindings id bindings }) ∨
      (∃ f args, (c.perform false op).2 =
        ⟨c.store.entered f args, c.store.activation f :: c.entered⟩) ∨
      ∃ call rest, c.entered = call :: rest ∧
        (c.perform false op).2 = ⟨c.store.leave call, rest⟩ := by
  cases op with
  | declare name value =>
    have h := c.change_cases (c.store.declare name value) (.value value)
      fun _ hdeclare => Store.exists_of_declare hdeclare
    exact h.imp_right .inl
  | assign name value =>
    have h := c.change_cases (c.store.assign name value) (.value value)
      fun _ hassign => Store.exists_of_assign hassign
    exact h.imp_right .inl
  | lookup name => exact .inl (c.look_snd name)
  | contains name => exact .inl rfl
  | enter f args => exact (c.enter_cases f args).imp_right fun h => .inr (.inl ⟨f, args, h⟩)
  | leave => exact (c.pop_cases fun _ _ => .done).imp_right fun h => .inr (.inr h)
  | unwind => exact (c.pop_cases .unwound).imp_right fun h => .inr (.inr h)

/-- An operation on names and calls takes no frame out of the heap, if calls that have been left
    keep theirs. -/
theorem CallStore.grows_perform (c : CallStore) (op : StoreOp) :
    c.store.Grows (c.perform false op).2.store := by
  rcases c.perform_cases op with h | ⟨id, bindings, h⟩ | ⟨f, args, h⟩ | ⟨call, rest, -, h⟩
  · rw [h]
    exact .refl c.store
  · rw [h]
    exact c.store.grows_setBindings id bindings
  · rw [h]
    exact c.store.grows_entered f args
  · rw [h]
    exact .refl c.store

namespace Memory

/-- Restoring keeps the snapshots and takes no frame out of the heap. -/
theorem bringBack_extends (m : Memory) (taken : Nat) :
    m.store.Grows (m.bringBack taken).2.store ∧ m.snapshots = (m.bringBack taken).2.snapshots := by
  unfold bringBack
  cases m.snapshots[taken]? with
  | none => exact ⟨.refl m.store, rfl⟩
  | some snapshot => exact ⟨m.store.grows_restore snapshot, rfl⟩

/-- **One operation** takes no frame out of the heap and keeps the snapshots taken. -/
theorem perform_extends (m : Memory) (op : Operation) :
    m.store.Grows (m.perform op).2.store ∧ m.snapshots <+: (m.perform op).2.snapshots := by
  cases op with
  | names op => exact ⟨m.calls.grows_perform op, List.prefix_rfl⟩
  | snapshot => exact ⟨.refl m.store, List.prefix_append _ _⟩
  | restore taken =>
    obtain ⟨hgrows, hkept⟩ := m.bringBack_extends taken
    exact ⟨hgrows, hkept ▸ List.prefix_rfl⟩
  | reset bindings => exact ⟨m.store.grows_setBindings rootFrame bindings, List.prefix_rfl⟩
  | clear => exact ⟨m.store.grows_setBindings rootFrame [], List.prefix_rfl⟩

/-- **A history** takes no frame out of the heap and keeps the snapshots taken. -/
theorem performAll_extends (m : Memory) (history : List Operation) :
    m.store.Grows (m.performAll history).store ∧
      m.snapshots <+: (m.performAll history).snapshots := by
  induction history generalizing m with
  | nil => exact ⟨.refl m.store, List.prefix_rfl⟩
  | cons op rest ih =>
    obtain ⟨hgrows, hkept⟩ := m.perform_extends op
    obtain ⟨hgrowsRest, hkeptRest⟩ := ih (m.perform op).2
    exact ⟨hgrows.trans hgrowsRest, hkept.trans hkeptRest⟩

/-! ## Everything that can be put into force lies in the heap -/

/-- The frames in force, those in force before each call in progress, and those of each snapshot all
    lie in the heap, and so does the root. -/
structure Sound (m : Memory) : Prop where
  root : m.store.InHeap [rootFrame]
  chain : m.store.InHeap m.store.chain
  below : ∀ call ∈ m.calls.entered, m.store.InHeap call.below
  kept : ∀ snapshot ∈ m.snapshots, m.store.InHeap snapshot.chain

/-- What is sound stays so while frames are written to, if the chain is one that lies in the
    heap. -/
theorem Sound.withStore {m : Memory} (h : m.Sound) {store : Store} (hgrows : m.store.Grows store)
    (hchain : store.InHeap store.chain) : (m.withStore store).Sound where
  root := hgrows.inHeap h.root
  chain := hchain
  below := fun call hcall => hgrows.inHeap (h.below call hcall)
  kept := fun snapshot hsnapshot => hgrows.inHeap (h.kept snapshot hsnapshot)

/-- **One operation** keeps everything in the heap that can be put into force. -/
theorem Sound.perform {m : Memory} (h : m.Sound) (op : Operation) : (m.perform op).2.Sound := by
  obtain ⟨hgrows, -⟩ := m.perform_extends op
  cases op with
  | names op =>
    change m.store.Grows (m.calls.perform false op).2.store at hgrows
    show Sound { m with calls := (m.calls.perform false op).2 }
    rcases m.calls.perform_cases op with hop | ⟨id, bindings, hop⟩ | ⟨f, args, hop⟩ |
        ⟨call, rest, hentered, hop⟩ <;> rw [hop] at hgrows ⊢
    · exact h
    · exact h.withStore hgrows (hgrows.inHeap h.chain)
    · refine ⟨hgrows.inHeap h.root, fun id hid => ?_, fun call hcall => ?_,
        fun snapshot hsnapshot => hgrows.inHeap (h.kept snapshot hsnapshot)⟩
      · rcases List.mem_cons.mp hid with rfl | hold
        · show m.store.frames.size < (m.store.frames.push _).size
          rw [Array.size_push]
          exact Nat.lt_succ_self _
        · exact hgrows.inHeap h.chain id hold
      · rcases List.mem_cons.mp hcall with rfl | hold
        · exact hgrows.inHeap h.chain
        · exact hgrows.inHeap (h.below call hold)
    · have hmem : ∀ other ∈ rest, other ∈ m.calls.entered := by
        intro other hother
        rw [hentered]
        exact List.mem_cons_of_mem _ hother
      have hcall : call ∈ m.calls.entered := hentered ▸ List.mem_cons_self
      exact ⟨h.root, h.below call hcall, fun other hother => h.below other (hmem other hother),
        h.kept⟩
  | snapshot =>
    refine ⟨h.root, h.chain, h.below, fun snapshot hsnapshot => ?_⟩
    rcases List.mem_append.mp hsnapshot with hold | hnew
    · exact h.kept snapshot hold
    · rw [List.mem_singleton.mp hnew, Store.snapshot_chain]
      exact h.chain
  | restore taken =>
    change m.store.Grows (m.bringBack taken).2.store at hgrows
    show (m.bringBack taken).2.Sound
    unfold bringBack at hgrows ⊢
    cases hfind : m.snapshots[taken]? with
    | none => exact h
    | some snapshot =>
      simp only [hfind] at hgrows
      refine h.withStore hgrows ?_
      exact hgrows.inHeap (h.kept snapshot (List.mem_of_getElem? hfind))
  | reset bindings => exact h.withStore hgrows (hgrows.inHeap h.root)
  | clear => exact h.withStore hgrows (hgrows.inHeap h.root)

/-- **A history** keeps everything in the heap that can be put into force. -/
theorem Sound.performAll {m : Memory} (h : m.Sound) (history : List Operation) :
    (m.performAll history).Sound := by
  induction history generalizing m with
  | nil => exact h
  | cons op rest ih => exact ih (h.perform op)

/-- A new memory has its root in the heap. -/
theorem sound_new (bindings : Bindings) : (new bindings).Sound := by
  have hroot : (new bindings).store.InHeap [rootFrame] := by
    intro id hid
    have hsize : (new bindings).store.frames.size = 1 := Array.size_modify
    rw [List.mem_singleton.mp hid, hsize]
    decide
  exact ⟨hroot, hroot, nofun, nofun⟩

end Memory

/-! ## Restoring after anything -/

/-- **Restoring a snapshot undoes everything since.**  Take a snapshot of a memory that any history
    has led to, let anything happen afterwards, and restore it.  Then the chain in force and every
    frame of it are what they were when the snapshot was taken, and all other frames are what they
    were just before.  The snapshot itself is what it was, before it is restored and after, so what
    happens afterwards can contain that it is restored, and it can be restored again. -/
theorem restore_undoes (bindings : Bindings) (before later : List Operation) :
    let m := (Memory.new bindings).performAll before
    let taken := m.snapshots.length
    let changed := (m.perform .snapshot).2.performAll later
    let restored := (changed.perform (.restore taken)).2
    (changed.perform (.restore taken)).1 = .done ∧
      restored.store.top = m.store.top ∧ restored.store.chain = m.store.chain ∧
      (∀ id ∈ m.store.chain, ∃ frame, m.store.frames[id]? = some frame ∧
        restored.store.frames[id]? = some frame) ∧
      (∀ id ∉ m.store.chain, restored.store.frames[id]? = changed.store.frames[id]?) ∧
      changed.snapshots[taken]? = some m.store.snapshot ∧
      restored.snapshots[taken]? = some m.store.snapshot := by
  intro m taken changed restored
  have hsound : m.Sound := (Memory.sound_new bindings).performAll before
  obtain ⟨hgrows, hsnapshots⟩ := (m.perform .snapshot).2.performAll_extends later
  have hgrows : m.store.Grows changed.store := hgrows
  have hkept : changed.snapshots[taken]? = some m.store.snapshot := by
    obtain ⟨newer, hnewer⟩ := hsnapshots
    have hall : changed.snapshots = m.snapshots ++ m.store.snapshot :: newer :=
      hnewer.symm.trans (List.append_cons _ _ _).symm
    rw [hall, List.getElem?_append_right (Nat.le_refl _), Nat.sub_self]
    rfl
  have hrestore : changed.perform (.restore taken) =
      (.done, changed.withStore (changed.store.restore m.store.snapshot)) := by
    show changed.bringBack taken = _
    rw [Memory.bringBack, hkept]
  have hrestored : restored = changed.withStore (changed.store.restore m.store.snapshot) :=
    congrArg Prod.snd hrestore
  have hchain : restored.store.chain = m.store.chain := by
    rw [hrestored]
    exact m.store.snapshot_chain
  refine ⟨congrArg Prod.fst hrestore, ?_, hchain, fun id hid => ?_, fun id hid => ?_, hkept, ?_⟩
  · rw [Store.top, hchain, Store.top]
  · have hframe := Array.getElem?_eq_getElem (hsound.chain id hid)
    refine ⟨_, hframe, ?_⟩
    rw [hrestored, ← hframe]
    exact Store.frames_restore_of_mem hgrows hsound.chain hid
  · rw [hrestored]
    show (changed.store.restore m.store.snapshot).frames[id]? = _
    rw [Store.frames_restore, if_neg hid]
  · rw [hrestored]
    exact hkept

end BellaLang
