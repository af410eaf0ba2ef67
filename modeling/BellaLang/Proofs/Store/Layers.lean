import BellaLang.Proofs.Evaluation.FlatStore

/-!
The name store is a stack of finite maps.

The store is a heap of frames that are written to in place, and a chain of numbers that says which
of them are in force.  Seen from outside it is much simpler: a stack of maps from names to values,
one for each frame in force, the newest on top.

  1. **The stack.**  `Layered` is the stack of maps together with the functions whose calls have
     been entered.  Entering a call pushes a map, leaving it pops one, a declaration writes to the
     map on top, and an assignment to the nearest map that has the name (`Layers.assign`).

  2. **The store.**  `CallStore` is a store with the calls that have been entered and not been left.
     A call is left normally or by a failure, and its frame stays in the heap or is given up.

  3. **The invariant.**  `CallStore.Sound`: the calls in progress are nested as the chain is, and
     along the chain the numbers of the frames fall.  So no frame occurs twice, and a write to one
     map of the stack is a write to one frame of the heap.

  4. **The simulation.**  One operation on a sound store gives the answer that the stack gives, and
     leaves a sound store whose maps are those of the stack (`CallStore.perform_simulates`).  A
     history of operations does so by induction.

Main statement: `history_refines_layers`.
-/

namespace BellaLang

/-! ## Operations and their answers -/

/-- What can be asked of the name store while calls are entered and left. -/
inductive StoreOp where
  | declare (name : String) (value : Value)
  | assign (name : String) (value : Value)
  | lookup (name : String)
  | contains (name : String)
  | enter (function : UserFunction) (args : List Value)
  /-- Leave the newest call normally. -/
  | leave
  /-- Leave the newest call by a failure, which takes down what its frame holds. -/
  | unwind

/-- What the name store answers. -/
inductive Answer where
  | done
  | value (v : Value)
  | visible (b : Bool)
  | unwound (function : UserFunction) (held : FlatMap)
  | failed (cause : Cause)
  /-- There is no call to be left, or the number of arguments is not that of the parameters. -/
  | refused

/-! ## The stack of maps -/

/-- Maps from names to values, the newest first. -/
abbrev Layers := List FlatMap

/-- The value that the nearest map has for a name. -/
def Layers.get? (layers : Layers) (name : String) : Option Value := layers.findSome? (· name)

/-- Bind a name that no map has in the newest map. -/
def Layers.declare (layers : Layers) (name : String) (value : Value) : Except Cause Layers :=
  if (layers.get? name).isSome then .error (.alreadyDeclared name)
  else .ok (layers.modifyHead (Function.update · name (some value)))

/-- Change the value of a name in the nearest map that has it. -/
def Layers.assign (name : String) (value : Value) : Layers → Except Cause Layers
  | [] => .error (.notDeclared name)
  | layer :: older =>
    match layer name with
    | some held =>
      if held.kind.isFixed then .error (.notAssignable name held.kind)
      else .ok (Function.update layer name (some value) :: older)
    | none => (layer :: ·) <$> Layers.assign name value older

/-- A stack of maps, and the functions whose calls have been entered, the newest first. -/
structure Layered where
  layers : Layers
  calls : List UserFunction

namespace Layered

/-- Put a changed stack of maps in the place of the old one, unless the change fails. -/
def change (s : Layered) : Except Cause Layers → Answer → Answer × Layered
  | .ok layers, answer => (answer, { s with layers })
  | .error cause, _ => (.failed cause, s)

/-- The value of a name. -/
def look (s : Layered) (name : String) : Answer × Layered :=
  match s.layers.get? name with
  | some value => (.value value, s)
  | none => (.failed (.notDeclared name), s)

/-- Push the map of the parameters of a function. -/
def enter (s : Layered) (f : UserFunction) (args : List Value) : Answer × Layered :=
  if f.params.length = args.length then
    (.done, ⟨FlatMap.overwrite (fun _ => none) (f.params.zip args) :: s.layers, f :: s.calls⟩)
  else (.refused, s)

/-- Pop the map of the newest call. -/
def pop (s : Layered) (answer : UserFunction → FlatMap → Answer) : Answer × Layered :=
  match s.calls, s.layers with
  | f :: calls, top :: layers => (answer f top, ⟨layers, calls⟩)
  | _, _ => (.refused, s)

/-- An operation on a stack of maps. -/
def perform (s : Layered) : StoreOp → Answer × Layered
  | .declare name value => s.change (s.layers.declare name value) (.value value)
  | .assign name value => s.change (s.layers.assign name value) (.value value)
  | .lookup name => s.look name
  | .contains name => (.visible (s.layers.get? name).isSome, s)
  | .enter f args => s.enter f args
  | .leave => s.pop fun _ _ => .done
  | .unwind => s.pop .unwound

/-- Operations one after the other, with their answers in the same order. -/
def performAll (s : Layered) : List StoreOp → List Answer × Layered
  | [] => ([], s)
  | op :: rest =>
    let (answer, next) := s.perform op
    (answer :: (next.performAll rest).1, (next.performAll rest).2)

end Layered

/-! ## The store with its calls -/

/-- The map that a frame holds. -/
def Store.layer (store : Store) (id : FrameId) : FlatMap := (store.bindingsOf id).get?

/-- The maps of the frames in force, the newest first. -/
def Store.layers (store : Store) : Layers := store.chain.map store.layer

/-- A store, and the calls that have been entered and not been left, the newest first. -/
structure CallStore where
  store : Store
  entered : List Activation

namespace CallStore

/-- Put a changed store in the place of the old one, unless the change fails. -/
def change (c : CallStore) : Except Cause Store → Answer → Answer × CallStore
  | .ok store, answer => (answer, { c with store })
  | .error cause, _ => (.failed cause, c)

/-- The store after a call has been left, with its frame in the heap or without it. -/
def afterLeaving (forGood : Bool) (store : Store) (call : Activation) : Store :=
  if forGood then store.leaveForGood call else store.leave call

/-- The value of a name. -/
def look (c : CallStore) (name : String) : Answer × CallStore :=
  match c.store.lookup name with
  | .ok value => (.value value, c)
  | .error cause => (.failed cause, c)

/-- Enter a call. -/
def enter (c : CallStore) (f : UserFunction) (args : List Value) : Answer × CallStore :=
  match c.store.enter? f args with
  | some (call, store) => (.done, ⟨store, call :: c.entered⟩)
  | none => (.refused, c)

/-- Leave the newest call. -/
def pop (forGood : Bool) (c : CallStore) (answer : UserFunction → FlatMap → Answer) :
    Answer × CallStore :=
  match c.entered with
  | call :: rest =>
    let held := c.store.record call
    (answer held.function (Bindings.get? held.bindings), ⟨afterLeaving forGood c.store call, rest⟩)
  | [] => (.refused, c)

/-- An operation on a store. -/
def perform (forGood : Bool) (c : CallStore) : StoreOp → Answer × CallStore
  | .declare name value => c.change (c.store.declare name value) (.value value)
  | .assign name value => c.change (c.store.assign name value) (.value value)
  | .lookup name => c.look name
  | .contains name => (.visible (c.store.contains name), c)
  | .enter f args => c.enter f args
  | .leave => c.pop forGood fun _ _ => .done
  | .unwind => c.pop forGood .unwound

/-- Operations one after the other, with their answers in the same order. -/
def performAll (forGood : Bool) (c : CallStore) : List StoreOp → List Answer × CallStore
  | [] => ([], c)
  | op :: rest =>
    let (answer, next) := c.perform forGood op
    (answer :: (next.performAll forGood rest).1, (next.performAll forGood rest).2)

/-- The stack of maps that a store shows. -/
def layered (c : CallStore) : Layered := ⟨c.store.layers, c.entered.map (·.function)⟩

end CallStore

/-! ## Calls nested as the chain is -/

/-- The calls that have been entered are on the chain, each in front of what was in force when it
    was entered; below them all there is at least one frame. -/
inductive Nested : List Activation → List FrameId → Prop
  | outermost {chain : List FrameId} (h : chain ≠ []) : Nested [] chain
  | call {call : Activation} {rest : List Activation} (h : Nested rest call.below) :
      Nested (call :: rest) (call.frame :: call.below)

/-- Whatever calls are in progress, some frame is in force. -/
theorem Nested.chain_ne_nil {entered : List Activation} {chain : List FrameId}
    (h : Nested entered chain) : chain ≠ [] := by
  cases h with
  | outermost h => exact h
  | call h => exact List.cons_ne_nil _ _

/-- A chain along which the numbers of the frames fall, all of them in the heap. -/
structure Store.Ordered (store : Store) : Prop where
  falling : store.chain.Pairwise (· > ·)
  inHeap : ∀ id ∈ store.chain, id < store.frames.size

/-- A store whose chain is ordered and has the calls in progress nested on it. -/
structure CallStore.Sound (c : CallStore) : Prop where
  nested : Nested c.entered c.store.chain
  ordered : c.store.Ordered

/-! ## Writing to one frame -/

/-- A write to a frame of the heap is a change of its own map only. -/
theorem Store.layer_setBindings (store : Store) {id : FrameId} (bindings : Bindings)
    (hid : id < store.frames.size) :
    (store.setBindings id bindings).layer = Function.update store.layer id bindings.get? := by
  funext other
  unfold layer
  rw [bindingsOf_setBindings]
  by_cases h : other = id
  · subst h
    rw [Function.update_self, if_pos ⟨rfl, hid⟩]
  · rw [Function.update_of_ne h, if_neg fun hboth => h hboth.1.symm]

/-- Binding one name more in a frame updates its map. -/
theorem Bindings.put_get? (bindings : Bindings) (name : String) (value : Value) :
    (bindings.put name value).get? = Function.update bindings.get? name (some value) := by
  funext other
  rw [get?_put, Function.update_apply]

/-- A write changes nothing about the maps of frames that are further down a falling chain. -/
theorem Store.map_layer_setBindings (store : Store) {id : FrameId} {older : List FrameId}
    (bindings : Bindings) (hid : id < store.frames.size) (hnot : id ∉ older) :
    older.map (store.setBindings id bindings).layer = older.map store.layer := by
  refine List.map_congr_left fun other hother => ?_
  have hne : other ≠ id := fun h => hnot (h ▸ hother)
  rw [store.layer_setBindings bindings hid, Function.update_of_ne hne]

/-- On a falling chain no frame comes again further down. -/
theorem notMem_of_falling {id : FrameId} {older : List FrameId}
    (h : (id :: older).Pairwise (· > ·)) : id ∉ older := fun hmem =>
  Nat.lt_irrefl id ((List.pairwise_cons.mp h).1 id hmem)

/-- What a look-up finds is what the nearest map has. -/
theorem Store.layers_get? (store : Store) (name : String) :
    store.layers.get? name = store.get? name := by
  rw [get?_eq_findSome?, layers, Layers.get?, List.findSome?_map]
  rfl

/-! ## Names, on the store and on the stack -/

/-- A declaration writes to the newest map. -/
theorem Store.declare_layers (store : Store) (name : String) (value : Value)
    (h : store.Ordered) (hchain : store.chain ≠ []) :
    store.layers.declare name value = (store.declare name value).map Store.layers := by
  unfold Layers.declare declare
  rw [layers_get?, contains_eq_isSome]
  split
  · rfl
  · obtain ⟨id, older, hcons⟩ := List.exists_cons_of_ne_nil hchain
    have htop : store.top = id := by rw [top, hcons]; rfl
    have hid : id < store.frames.size := h.inHeap id (by rw [hcons]; exact List.mem_cons_self)
    have hnot : id ∉ older := notMem_of_falling (hcons ▸ h.falling)
    -- the chain stays, so the new maps are those of the same frames
    show Except.ok _ = Except.ok (List.map _ store.chain)
    rw [layers, hcons, htop, List.map_cons, List.map_cons, List.modifyHead_cons,
      store.map_layer_setBindings _ hid hnot, store.layer_setBindings _ hid,
      Function.update_self, Bindings.put_get?]
    rfl

/-- Along a falling chain of frames, an assignment to the nearest map that has the name is one to
    the nearest frame that holds it. -/
theorem Store.assign_map_layer (store : Store) (name : String) (value : Value)
    (ids : List FrameId) (hfalling : ids.Pairwise (· > ·))
    (hheap : ∀ id ∈ ids, id < store.frames.size) :
    Layers.assign name value (ids.map store.layer) =
      match ids.find? fun id => (store.bindingsOf id).holds name with
      | none => .error (.notDeclared name)
      | some id =>
        match (store.bindingsOf id).get? name with
        | none => .error (.notDeclared name)
        | some held =>
          if held.kind.isFixed then .error (.notAssignable name held.kind)
          else
            .ok (ids.map (store.setBindings id ((store.bindingsOf id).put name value)).layer) := by
  induction ids with
  | nil => rfl
  | cons id older ih =>
    have hid : id < store.frames.size := hheap id List.mem_cons_self
    have hnot : id ∉ older := notMem_of_falling hfalling
    have hholds : (store.bindingsOf id).holds name = (store.layer id name).isSome := rfl
    rw [List.map_cons, List.find?_cons, Layers.assign, hholds]
    cases hlayer : store.layer id name with
    | some held =>
      have hheld : (store.bindingsOf id).get? name = some held := hlayer
      simp only [hheld, Option.isSome_some, List.map_cons]
      rw [store.map_layer_setBindings _ hid hnot, store.layer_setBindings _ hid,
        Function.update_self, Bindings.put_get?]
      rfl
    | none =>
      simp only [Option.isSome_none]
      rw [ih (List.pairwise_cons.mp hfalling).2 fun other hother =>
        hheap other (List.mem_cons_of_mem _ hother)]
      -- whatever the search below finds is another frame, so this one keeps its map
      cases hfind : older.find? fun id => (store.bindingsOf id).holds name with
      | none => rfl
      | some found =>
        have hmem : found ∈ older := List.mem_of_find?_eq_some hfind
        have hne : id ≠ found := fun h => hnot (h ▸ hmem)
        have hkeep : ∀ bindings, (store.setBindings found bindings).layer id = store.layer id := by
          intro bindings
          rw [store.layer_setBindings _ (hheap found (List.mem_cons_of_mem _ hmem)),
            Function.update_of_ne hne]
        cases hheld : (store.bindingsOf found).get? name with
        | none => simp only [hheld]; rfl
        | some held =>
          simp only [hheld, List.map_cons, hkeep]
          split <;> rfl

/-- An assignment writes to the nearest map that has the name. -/
theorem Store.assign_layers (store : Store) (name : String) (value : Value) (h : store.Ordered) :
    store.layers.assign name value = (store.assign name value).map Store.layers := by
  rw [layers, store.assign_map_layer name value store.chain h.falling h.inHeap]
  unfold assign holder?
  cases store.chain.find? fun id => (store.bindingsOf id).holds name with
  | none => rfl
  | some id =>
    cases hheld : (store.bindingsOf id).get? name with
    | none => simp only [hheld]; rfl
    | some held =>
      simp only [hheld]
      split <;> rfl

/-! ## What keeps a store sound -/

/-- Writing to a frame keeps the chain and the size of the heap. -/
theorem Store.Ordered.setBindings {store : Store} (h : store.Ordered) (id : FrameId)
    (bindings : Bindings) : (store.setBindings id bindings).Ordered := by
  refine ⟨h.falling, fun other hother => ?_⟩
  show other < (store.frames.modify id _).size
  rw [Array.size_modify]
  exact h.inHeap other hother

/-- A declaration and an assignment write to one frame. -/
theorem Store.exists_of_declare {store declared : Store} {name : String} {value : Value}
    (h : store.declare name value = .ok declared) :
    ∃ id bindings, declared = store.setBindings id bindings := by
  unfold declare at h
  split at h
  · cases h
  · exact ⟨_, _, (Except.ok.inj h).symm⟩

theorem Store.exists_of_assign {store assigned : Store} {name : String} {value : Value}
    (h : store.assign name value = .ok assigned) :
    ∃ id bindings, assigned = store.setBindings id bindings := by
  unfold assign at h
  split at h
  · cases h
  · dsimp only at h
    split at h
    · cases h
    · split at h
      · cases h
      · exact ⟨_, _, (Except.ok.inj h).symm⟩

/-- The frame of a call that has been entered comes after all others. -/
theorem Store.Ordered.entered {store : Store} (h : store.Ordered) (f : UserFunction)
    (args : List Value) : (store.entered f args).Ordered := by
  have hsize : (store.entered f args).frames.size = store.frames.size + 1 := Array.size_push _
  constructor
  · exact List.pairwise_cons.mpr ⟨h.inHeap, h.falling⟩
  · intro id hid
    rw [hsize]
    rcases List.mem_cons.mp hid with rfl | hid
    · exact Nat.lt_succ_self _
    · exact Nat.lt_succ_of_lt (h.inHeap id hid)

/-- Below a frame of the chain there are only frames before that one, so not the last of the
    heap. -/
theorem Store.Ordered.lt_of_mem_below {store : Store} {call : Activation} (h : store.Ordered)
    (hchain : store.chain = call.frame :: call.below) {id : FrameId} (hid : id ∈ call.below) :
    id < store.frames.size - 1 := by
  have hfalling : (call.frame :: call.below).Pairwise (· > ·) := hchain ▸ h.falling
  have hlt : id < call.frame := (List.pairwise_cons.mp hfalling).1 id hid
  have hframe : call.frame < store.frames.size :=
    h.inHeap call.frame (by rw [hchain]; exact List.mem_cons_self)
  exact Nat.lt_of_lt_of_le hlt (Nat.le_sub_one_of_lt hframe)

/-- Leaving a call for good takes away the last frame of the heap, which is none of those that are
    in force afterwards. -/
theorem Store.Ordered.afterLeaving {store : Store} {call : Activation} (forGood : Bool)
    (h : store.Ordered) (hchain : store.chain = call.frame :: call.below) :
    (CallStore.afterLeaving forGood store call).Ordered := by
  have hfalling : (call.frame :: call.below).Pairwise (· > ·) := hchain ▸ h.falling
  unfold CallStore.afterLeaving
  split
  · refine ⟨(List.pairwise_cons.mp hfalling).2, fun id hid => ?_⟩
    show id < store.frames.pop.size
    rw [Array.size_pop]
    exact h.lt_of_mem_below hchain hid
  · refine ⟨(List.pairwise_cons.mp hfalling).2, fun id hid => ?_⟩
    exact Nat.lt_of_lt_of_le (h.lt_of_mem_below hchain hid) (Nat.sub_le _ _)

/-- A store in which nothing but the root is in force is sound. -/
theorem CallStore.sound_reset {store : Store} (h : 0 < store.frames.size) (bindings : Bindings) :
    CallStore.Sound ⟨store.reset bindings, []⟩ := by
  have hsize : (store.reset bindings).frames.size = store.frames.size := Array.size_modify
  refine ⟨.outermost (List.cons_ne_nil _ _), List.pairwise_singleton _ _, fun id hid => ?_⟩
  rw [hsize, List.mem_singleton.mp hid]
  exact h

/-! ## Entering and leaving, on the store and on the stack -/

/-- Entering a call pushes the map of its parameters. -/
theorem Store.layers_entered (store : Store) (f : UserFunction) (args : List Value)
    (h : store.Ordered) :
    (store.entered f args).layers =
      FlatMap.overwrite (fun _ => none) (f.params.zip args) :: store.layers := by
  show List.map _ (store.frames.size :: store.chain) = _
  rw [List.map_cons]
  congr 1
  · rw [layer, bindingsOf_entered_size, Bindings.ofPairs_get?]
  · refine List.map_congr_left fun id hid => ?_
    have hne : id ≠ store.frames.size := Nat.ne_of_lt (h.inHeap id hid)
    rw [layer, store.bindingsOf_entered_of_ne f args hne]
    rfl

/-- Leaving a call pops the map of its frame, and the older ones are what they were. -/
theorem Store.layers_afterLeaving {store : Store} {call : Activation} (forGood : Bool)
    (h : store.Ordered) (hchain : store.chain = call.frame :: call.below) :
    store.layers =
      store.layer call.frame :: (CallStore.afterLeaving forGood store call).layers := by
  rw [layers, hchain, List.map_cons]
  congr 1
  unfold CallStore.afterLeaving
  split
  · refine List.map_congr_left fun id hid => ?_
    have hkept : id < store.frames.size - 1 := h.lt_of_mem_below hchain hid
    show (store.bindingsOf id).get? = (Store.bindingsOf ⟨store.frames.pop, call.below⟩ id).get?
    unfold bindingsOf
    rw [Array.getElem?_pop, if_pos hkept]
  · rfl

/-! ## The simulation -/

section Simulation

variable {forGood : Bool} {c : CallStore}

/-- A change of the store that is one of its maps answers as the stack does and keeps the store
    sound. -/
theorem CallStore.change_simulates (h : c.Sound) {changed : Except Cause Store}
    {expected : Except Cause Layers} (answer : Answer)
    (hlayers : expected = changed.map Store.layers)
    (hwrite : ∀ store, changed = .ok store →
      ∃ id bindings, store = c.store.setBindings id bindings) :
    c.layered.change expected answer =
        ((c.change changed answer).1, (c.change changed answer).2.layered) ∧
      (c.change changed answer).2.Sound := by
  subst hlayers
  cases changed with
  | error cause => exact ⟨rfl, h⟩
  | ok store =>
    obtain ⟨id, bindings, rfl⟩ := hwrite store rfl
    exact ⟨rfl, h.nested, h.ordered.setBindings id bindings⟩

/-- A look-up changes nothing. -/
theorem CallStore.look_snd (c : CallStore) (name : String) : (c.look name).2 = c := by
  unfold look
  split <;> rfl

/-- A look-up answers the value in the nearest map. -/
theorem CallStore.look_simulates (c : CallStore) (name : String) :
    c.layered.look name = ((c.look name).1, (c.look name).2.layered) := by
  have hget : c.layered.layers.get? name = c.store.get? name := c.store.layers_get? name
  unfold Layered.look look Store.lookup
  rw [hget]
  cases c.store.get? name with
  | none => rfl
  | some value => rfl

/-- Entering a call with a value for each parameter pushes their map. -/
theorem CallStore.enter_simulates (h : c.Sound) (f : UserFunction) (args : List Value) :
    c.layered.enter f args = ((c.enter f args).1, (c.enter f args).2.layered) ∧
      (c.enter f args).2.Sound := by
  unfold Layered.enter enter
  by_cases hargs : f.params.length = args.length
  · have hlayers := c.store.layers_entered f args h.ordered
    rw [if_pos hargs, c.store.enter?_eq hargs]
    refine ⟨?_, .call h.nested, h.ordered.entered f args⟩
    show _ = (Answer.done, (⟨(c.store.entered f args).layers, _⟩ : Layered))
    rw [hlayers]
    rfl
  · rw [if_neg hargs, Store.enter?, if_neg hargs]
    exact ⟨rfl, h⟩

/-- Leaving a call pops its map. -/
theorem CallStore.pop_simulates (h : c.Sound) (answer : UserFunction → FlatMap → Answer) :
    c.layered.pop answer = ((c.pop forGood answer).1, (c.pop forGood answer).2.layered) ∧
      (c.pop forGood answer).2.Sound := by
  obtain ⟨store, entered⟩ := c
  cases entered with
  | nil => exact ⟨rfl, h⟩
  | cons call rest =>
    have hnested : Nested (call :: rest) store.chain := h.nested
    generalize hchain : store.chain = chain at hnested
    cases hnested with
    | call hrest =>
      refine ⟨?_, ?_, h.ordered.afterLeaving forGood hchain⟩
      · have hlayers := Store.layers_afterLeaving forGood h.ordered hchain
        unfold Layered.pop layered
        rw [hlayers]
        rfl
      · show Nested rest (afterLeaving forGood store call).chain
        have hbelow : (afterLeaving forGood store call).chain = call.below := by
          unfold afterLeaving
          split <;> rfl
        rw [hbelow]
        exact hrest

/-- **One operation.**  On a sound store it gives the answer that the stack of maps gives, shows the
    same maps afterwards, and leaves a sound store. -/
theorem CallStore.perform_simulates (forGood : Bool) (h : c.Sound) (op : StoreOp) :
    c.layered.perform op = ((c.perform forGood op).1, (c.perform forGood op).2.layered) ∧
      (c.perform forGood op).2.Sound := by
  cases op with
  | declare name value =>
    exact change_simulates h _
      (c.store.declare_layers name value h.ordered h.nested.chain_ne_nil)
      fun _ hdeclare => Store.exists_of_declare hdeclare
  | assign name value =>
    exact change_simulates h _ (c.store.assign_layers name value h.ordered)
      fun _ hassign => Store.exists_of_assign hassign
  | lookup name =>
    refine ⟨c.look_simulates name, ?_⟩
    show (c.look name).2.Sound
    rw [c.look_snd name]
    exact h
  | contains name =>
    refine ⟨?_, h⟩
    show (Answer.visible (c.store.layers.get? name).isSome, c.layered) =
      (.visible (c.store.contains name), c.layered)
    rw [c.store.layers_get? name, c.store.contains_eq_isSome name]
  | enter f args => exact enter_simulates h f args
  | leave => exact pop_simulates h _
  | unwind => exact pop_simulates h _

/-- **A history.**  The answers are those of the stack of maps, one after the other, and so are the
    maps in the end. -/
theorem CallStore.performAll_simulates (forGood : Bool) (h : c.Sound)
    (history : List StoreOp) :
    c.layered.performAll history =
        ((c.performAll forGood history).1, (c.performAll forGood history).2.layered) ∧
      (c.performAll forGood history).2.Sound := by
  induction history generalizing c with
  | nil => exact ⟨rfl, h⟩
  | cons op rest ih =>
    obtain ⟨hstep, hsound⟩ := perform_simulates forGood h op
    obtain ⟨hrest, hlast⟩ := ih hsound
    refine ⟨?_, hlast⟩
    rw [Layered.performAll, hstep]
    dsimp only
    rw [hrest]
    rfl

end Simulation

/-! ## Failed operations -/

theorem CallStore.change_of_failed {c : CallStore} {changed : Except Cause Store} {answer : Answer}
    {cause : Cause} (hanswer : answer ≠ .failed cause)
    (h : (c.change changed answer).1 = .failed cause) : (c.change changed answer).2 = c := by
  cases changed with
  | error _ => rfl
  | ok store => exact absurd h hanswer

/-- An operation that fails leaves everything as it was: the heap, the chain and the calls in
    progress. -/
theorem CallStore.perform_of_failed {forGood : Bool} {c : CallStore} {op : StoreOp} {cause : Cause}
    (h : (c.perform forGood op).1 = .failed cause) : (c.perform forGood op).2 = c := by
  have hpop : ∀ answer : UserFunction → FlatMap → Answer,
      (∀ f held, answer f held ≠ .failed cause) →
        (c.pop forGood answer).1 ≠ .failed cause := by
    intro answer hanswer
    unfold pop
    split
    · exact hanswer _ _
    · exact nofun
  cases op with
  | declare name value => exact change_of_failed nofun h
  | assign name value => exact change_of_failed nofun h
  | lookup name => exact c.look_snd name
  | contains name => rfl
  | enter f args =>
    change (c.enter f args).1 = _ at h
    unfold enter at h
    split at h <;> cases h
  | leave => exact absurd h (hpop _ nofun)
  | unwind => exact absurd h (hpop _ nofun)

/-! ## The store and the stack -/

/-- **The name store is a stack of finite maps.**  From any sound store, for any history of
    declarations, assignments, look-ups, membership tests, calls entered and calls left, normally or
    by a failure, whether the frames of calls that have been left stay in the heap or not: the
    answers are those of the stack of maps, one after the other, and in the end the frames in force
    hold the maps of the stack.  At every moment an operation that fails changes nothing. -/
theorem history_refines_layers (c : CallStore) (h : c.Sound) (forGood : Bool)
    (history : List StoreOp) :
    (c.performAll forGood history).1 = (c.layered.performAll history).1 ∧
      (c.performAll forGood history).2.layered = (c.layered.performAll history).2 ∧
      ∀ op cause, ((c.performAll forGood history).2.perform forGood op).1 = .failed cause →
        ((c.performAll forGood history).2.perform forGood op).2 =
          (c.performAll forGood history).2 := by
  obtain ⟨hhistory, -⟩ := CallStore.performAll_simulates forGood h history
  rw [hhistory]
  exact ⟨rfl, rfl, fun _ _ hfailed => CallStore.perform_of_failed hfailed⟩

/-- A global name, a call whose parameter shadows it, writes to both, and a failure that leaves the
    call. -/
def shadowedCall : List StoreOp :=
  [.declare "n" (.boolean true), .enter ⟨7, "f", ["n"], .nothing⟩ [.array []],
   .assign "n" (.boolean false), .declare "local" (.boolean true), .unwind, .lookup "n",
   .contains "local"]

/-- The parameter holds an array, so the call cannot write to the global name through it. -/
theorem history_refines_layers_shadowedCall :
    CallStore.Sound ⟨Store.empty.clear, []⟩ ∧
      (CallStore.performAll true ⟨Store.empty.clear, []⟩ shadowedCall).1 =
        (Layered.performAll ⟨[fun _ => none], []⟩ shadowedCall).1 := by
  have hsound : CallStore.Sound ⟨Store.empty.clear, []⟩ := CallStore.sound_reset (by decide) []
  exact ⟨hsound, (history_refines_layers ⟨Store.empty.clear, []⟩ hsound true shadowedCall).1⟩

end BellaLang
