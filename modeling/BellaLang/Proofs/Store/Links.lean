import BellaLang.Proofs.Store.Rewinding
import Mathlib.Data.List.Forall2

/-!
The chain of frames, followed by links.

A memory can also be kept without any chain: there is a frame on top, each frame of a call has a
link to the frame that was on top when the call was entered, and the root has none.  Whoever wants
to know the depth, find a name or take a snapshot follows the links in a loop.  Nothing in such a
loop says that it ends, or that it meets the root: that is a matter of how the links are arranged.

  1. `LinkedMemory` is such a memory.  A loop along its links is a walk (`LinkedMemory.Walk`): it
     ends where it wants to stop, or with nothing when the links run out, and what does not end has
     no walk.  An operation that needs a loop can be performed only if the loop has a walk
     (`LinkedMemory.Performs`).

  2. Only what frames hold is ever written to, and new frames come behind the old ones.  So a link
     stays what it was (`Performs.keepsLinks`), and with it where the links lead to
     (`LeadsToRoot.mono`).

  3. The links lead to the root from a frame if they can be followed along certain frames to their
     end, the last of which is the root (`LeadsToRoot`).  Then each loop has a walk: the one that
     looks for a name stops at the first of these frames that holds it (`Follows.search`), and the
     one that looks for the root finds it (`LeadsToRoot.findsRoot`).
-/

namespace BellaLang

/-! ## A memory with links -/

/-- A frame with its link. -/
structure LinkedFrame extends Frame where
  link : Option FrameId

/-- What a snapshot keeps: the frame on top, and copies of what frames held. -/
structure LinkedSnapshot where
  top : Option FrameId
  contents : List (FrameId × Bindings)

/-- A memory whose frames are linked. -/
structure LinkedMemory where
  frames : Array LinkedFrame
  top : Option FrameId
  /-- The frames of the calls in progress, the newest first. -/
  pending : List FrameId
  snapshots : List LinkedSnapshot

namespace LinkedMemory

/-- A memory without any binding. -/
def empty : LinkedMemory := ⟨#[⟨⟨[], none⟩, none⟩], some rootFrame, [], []⟩

/-- What a frame holds. -/
def bindingsOf (l : LinkedMemory) (id : FrameId) : Bindings :=
  match l.frames[id]? with
  | some frame => frame.bindings
  | none => []

/-- Does a frame hold a name? -/
def holds (l : LinkedMemory) (name : String) (id : FrameId) : Bool := (l.bindingsOf id).holds name

/-- Replace what a frame holds. -/
def write (l : LinkedMemory) (id : FrameId) (bindings : Bindings) : LinkedMemory :=
  { l with frames := l.frames.modify id fun frame => { frame with bindings } }

/-! ## Loops along the links -/

/-- A loop from a frame along the links, with the frames that it passes and the frame at which it
    stops, which is none if the links run out first. -/
inductive Walk (l : LinkedMemory) (stop : FrameId → Bool) :
    Option FrameId → List FrameId → Option FrameId → Prop
  | off : Walk l stop none [] none
  | stops {id : FrameId} (hstop : stop id = true) : Walk l stop (some id) [] (some id)
  | goes {id : FrameId} {frame : LinkedFrame} {passed : List FrameId} {found : Option FrameId}
    (hstop : stop id = false) (hframe : l.frames[id]? = some frame)
    (hrest : Walk l stop frame.link passed found) : Walk l stop (some id) (id :: passed) found

/-- The loop that follows the links until there are no more passes these frames. -/
def Follows (l : LinkedMemory) (start : Option FrameId) (ids : List FrameId) : Prop :=
  l.Walk (fun _ => false) start ids none

/-! ## Operations -/

/-- Bind a new name in the frame on top, if no frame has been found that holds it. -/
def declared (l : LinkedMemory) (top : FrameId) (name : String) (value : Value) :
    Option FrameId → Answer × LinkedMemory
  | some _ => (.failed (.alreadyDeclared name), l)
  | none => (.value value, l.write top ((l.bindingsOf top).put name value))

/-- Change a name in the frame that has been found to hold it. -/
def assigned (l : LinkedMemory) (name : String) (value : Value) :
    Option FrameId → Answer × LinkedMemory
  | none => (.failed (.notDeclared name), l)
  | some id =>
    match (l.bindingsOf id).get? name with
    | none => (.failed (.notDeclared name), l)
    | some held =>
      if held.kind.isFixed then (.failed (.notAssignable name held.kind), l)
      else (.value value, l.write id ((l.bindingsOf id).put name value))

/-- The value of a name in the frame that has been found to hold it. -/
def lookedUp (l : LinkedMemory) (name : String) : Option FrameId → Answer
  | none => .failed (.notDeclared name)
  | some id =>
    match (l.bindingsOf id).get? name with
    | some value => .value value
    | none => .failed (.notDeclared name)

/-- Put a frame on top for a call, with a link to the frame that was there. -/
def entered (l : LinkedMemory) (f : UserFunction) (args : List Value) : Answer × LinkedMemory :=
  if f.params.length = args.length then
    (.done, { l with
      frames := l.frames.push ⟨⟨Bindings.ofPairs (f.params.zip args), some f⟩, l.top⟩
      top := some l.frames.size
      pending := l.frames.size :: l.pending })
  else (.refused, l)

/-- Put back what a snapshot kept, if it has been taken. -/
def restored (l : LinkedMemory) (taken : Nat) : Answer × LinkedMemory :=
  match l.snapshots[taken]? with
  | some snapshot =>
    (.done, { l with
      frames := (snapshot.contents.foldl (fun l entry => l.write entry.1 entry.2) l).frames
      top := snapshot.top })
  | none => (.refused, l)

/-- Have nothing but the root in force, and these names in it. -/
def startedOver (l : LinkedMemory) (bindings : Bindings) : LinkedMemory :=
  { l.write rootFrame bindings with top := some rootFrame }

/-- Leave the newest call, if there is one: what is on top then is what the frame of the call has a
    link to. -/
def left (l : LinkedMemory) (answer : UserFunction → FlatMap → Answer) :
    Option (Answer × LinkedMemory) :=
  match l.pending with
  | [] => some (.refused, l)
  | id :: rest => do
    let frame ← l.frames[id]?
    let f ← frame.caller
    pure (answer f frame.bindings.get?, { l with top := frame.link, pending := rest })

/-- A new memory, with nothing but some global names. -/
def new (bindings : Bindings) : LinkedMemory := empty.startedOver bindings

/-- What an operation comes to.  A loop that does not end, or a frame on top that is none, leaves an
    operation without anything to come to. -/
inductive Performs (l : LinkedMemory) : Operation → Answer × LinkedMemory → Prop
  | declare {top : FrameId} {name : String} {value : Value} {passed : List FrameId}
    {found : Option FrameId} (htop : l.top = some top)
    (hwalk : l.Walk (l.holds name) (some top) passed found) :
    Performs l (.names (.declare name value)) (l.declared top name value found)
  | assign {top : FrameId} {name : String} {value : Value} {passed : List FrameId}
    {found : Option FrameId} (htop : l.top = some top)
    (hwalk : l.Walk (l.holds name) (some top) passed found) :
    Performs l (.names (.assign name value)) (l.assigned name value found)
  | lookup {top : FrameId} {name : String} {passed : List FrameId} {found : Option FrameId}
    (htop : l.top = some top) (hwalk : l.Walk (l.holds name) (some top) passed found) :
    Performs l (.names (.lookup name)) (l.lookedUp name found, l)
  | contains {top : FrameId} {name : String} {passed : List FrameId} {found : Option FrameId}
    (htop : l.top = some top) (hwalk : l.Walk (l.holds name) (some top) passed found) :
    Performs l (.names (.contains name)) (.visible found.isSome, l)
  | enter (f : UserFunction) (args : List Value) :
    Performs l (.names (.enter f args)) (l.entered f args)
  | leave {outcome : Answer × LinkedMemory} (h : l.left (fun _ _ => .done) = some outcome) :
    Performs l (.names .leave) outcome
  | unwind {outcome : Answer × LinkedMemory} (h : l.left .unwound = some outcome) :
    Performs l (.names .unwind) outcome
  | snapshot {ids : List FrameId} (hwalk : l.Follows l.top ids) :
    Performs l .snapshot (.done, { l with
      snapshots := l.snapshots ++ [⟨l.top, ids.map fun id => (id, l.bindingsOf id)⟩] })
  | restore (taken : Nat) : Performs l (.restore taken) (l.restored taken)
  | reset (bindings : Bindings) : Performs l (.reset bindings) (.done, l.startedOver bindings)
  | clear : Performs l .clear (.done, l.startedOver [])

/-- Operations one after the other, with their answers in the same order. -/
inductive Goes : LinkedMemory → List Operation → List Answer → LinkedMemory → Prop
  | done (l : LinkedMemory) : Goes l [] [] l
  | step {l next last : LinkedMemory} {op : Operation} {rest : List Operation} {answer : Answer}
    {answers : List Answer} (h : l.Performs op (answer, next))
    (hrest : Goes next rest answers last) : Goes l (op :: rest) (answer :: answers) last

/-! ## One way only -/

section
variable {l : LinkedMemory}

/-- A loop has one way to go. -/
theorem Walk.unique {stop : FrameId → Bool} {start found other : Option FrameId}
    {passed others : List FrameId} (h : l.Walk stop start passed found)
    (h' : l.Walk stop start others other) : passed = others ∧ found = other := by
  induction h generalizing others other with
  | off =>
    cases h'
    exact ⟨rfl, rfl⟩
  | stops hstop =>
    cases h' with
    | stops _ => exact ⟨rfl, rfl⟩
    | goes hgo _ _ =>
      rw [hstop] at hgo
      cases hgo
  | goes hgo hframe _ ih =>
    cases h' with
    | stops hstop =>
      rw [hgo] at hstop
      cases hstop
    | goes _ hframe' hrest' =>
      obtain rfl := Option.some.inj (hframe.symm.trans hframe')
      obtain ⟨rfl, rfl⟩ := ih hrest'
      exact ⟨rfl, rfl⟩

/-- From the frame on top there is one way to go. -/
theorem Walk.unique_of_top {stop : FrameId → Bool} {top other : FrameId}
    {passed others : List FrameId} {found another : Option FrameId} (htop : l.top = some top)
    (h : l.Walk stop (some top) passed found) (htop' : l.top = some other)
    (h' : l.Walk stop (some other) others another) : top = other ∧ found = another := by
  obtain rfl := Option.some.inj (htop.symm.trans htop')
  exact ⟨rfl, (h.unique h').2⟩

/-- An operation comes to one thing at most. -/
theorem Performs.unique {op : Operation} {outcome other : Answer × LinkedMemory}
    (h : l.Performs op outcome) (h' : l.Performs op other) : outcome = other := by
  cases h with
  | declare htop hwalk =>
    cases h' with
    | declare htop' hwalk' =>
      obtain ⟨rfl, rfl⟩ := hwalk.unique_of_top htop htop' hwalk'
      rfl
  | assign htop hwalk =>
    cases h' with
    | assign htop' hwalk' =>
      obtain ⟨rfl, rfl⟩ := hwalk.unique_of_top htop htop' hwalk'
      rfl
  | lookup htop hwalk =>
    cases h' with
    | lookup htop' hwalk' =>
      obtain ⟨rfl, rfl⟩ := hwalk.unique_of_top htop htop' hwalk'
      rfl
  | contains htop hwalk =>
    cases h' with
    | contains htop' hwalk' =>
      obtain ⟨rfl, rfl⟩ := hwalk.unique_of_top htop htop' hwalk'
      rfl
  | snapshot hwalk =>
    cases h' with
    | snapshot hwalk' =>
      obtain ⟨rfl, -⟩ := Walk.unique hwalk hwalk'
      rfl
  | leave hleft =>
    cases h' with
    | leave hleft' => exact Option.some.inj (hleft.symm.trans hleft')
  | unwind hleft =>
    cases h' with
    | unwind hleft' => exact Option.some.inj (hleft.symm.trans hleft')
  | enter f args =>
    cases h'
    rfl
  | restore taken =>
    cases h'
    rfl
  | reset bindings =>
    cases h'
    rfl
  | clear =>
    cases h'
    rfl

/-- A history has one way to go. -/
theorem Goes.unique {history : List Operation} {answers others : List Answer}
    {last other : LinkedMemory} (h : l.Goes history answers last)
    (h' : l.Goes history others other) : answers = others ∧ last = other := by
  induction h generalizing others with
  | done l =>
    cases h'
    exact ⟨rfl, rfl⟩
  | step hop _ ih =>
    cases h' with
    | step hop' hrest' =>
      obtain ⟨rfl, rfl⟩ := Prod.mk.inj (hop.unique hop')
      obtain ⟨rfl, rfl⟩ := ih hrest'
      exact ⟨rfl, rfl⟩

end

/-! ## Links stay -/

/-- Every frame of the one memory is in the other, with the same link and for the same call. -/
def KeepsLinks (l l' : LinkedMemory) : Prop :=
  ∀ (id : FrameId) (frame : LinkedFrame), l.frames[id]? = some frame →
    ∃ bindings, l'.frames[id]? = some { frame with bindings }

section
variable {l l' l'' : LinkedMemory}

theorem KeepsLinks.refl (l : LinkedMemory) : l.KeepsLinks l :=
  fun _ frame h => ⟨frame.bindings, h⟩

theorem KeepsLinks.trans (h : l.KeepsLinks l') (h' : l'.KeepsLinks l'') : l.KeepsLinks l'' := by
  intro id frame hframe
  obtain ⟨bindings, hnext⟩ := h id frame hframe
  obtain ⟨later, hlast⟩ := h' id _ hnext
  exact ⟨later, hlast⟩

theorem keepsLinks_write (l : LinkedMemory) (id : FrameId) (bindings : Bindings) :
    l.KeepsLinks (l.write id bindings) := by
  intro other frame hframe
  unfold write
  rw [Array.getElem?_modify, hframe]
  by_cases h : id = other
  · exact ⟨bindings, by rw [if_pos h]; rfl⟩
  · exact ⟨frame.bindings, by rw [if_neg h]⟩

theorem keepsLinks_foldl_write (contents : List (FrameId × Bindings)) (l : LinkedMemory) :
    l.KeepsLinks (contents.foldl (fun l entry => l.write entry.1 entry.2) l) := by
  induction contents generalizing l with
  | nil => exact .refl l
  | cons entry rest ih => exact (l.keepsLinks_write entry.1 entry.2).trans (ih _)

theorem keepsLinks_push (l : LinkedMemory) (frame : LinkedFrame) :
    l.KeepsLinks { l with frames := l.frames.push frame } := by
  intro id held hheld
  have hlt : id < l.frames.size := (Array.getElem?_eq_some_iff.mp hheld).1
  refine ⟨held.bindings, ?_⟩
  show (l.frames.push frame)[id]? = _
  rw [Array.getElem?_push, if_neg (Nat.ne_of_lt hlt), hheld]

/-- What leaving comes to: nothing, if no call is in progress, or else the frame of the newest call
    tells what is on top. -/
theorem left_cases {answer : UserFunction → FlatMap → Answer} {outcome : Answer × LinkedMemory}
    (h : l.left answer = some outcome) :
    outcome = (.refused, l) ∨
      ∃ id rest frame f, l.pending = id :: rest ∧ l.frames[id]? = some frame ∧
        outcome = (answer f frame.bindings.get?,
          { l with top := frame.link, pending := rest }) := by
  unfold left at h
  split at h
  · exact .inl (Option.some.inj h).symm
  · rename_i id rest hpending
    obtain ⟨frame, hframe, h⟩ := Option.bind_eq_some_iff.mp h
    obtain ⟨f, -, h⟩ := Option.bind_eq_some_iff.mp h
    exact .inr ⟨id, rest, frame, f, hpending, hframe, (Option.some.inj h).symm⟩

theorem keepsLinks_left {answer : UserFunction → FlatMap → Answer}
    {outcome : Answer × LinkedMemory} (h : l.left answer = some outcome) :
    l.KeepsLinks outcome.2 := by
  rcases left_cases h with rfl | ⟨id, rest, frame, f, -, -, rfl⟩
  · exact .refl l
  · exact .refl l

/-- **One operation** keeps every link. -/
theorem Performs.keepsLinks {op : Operation} {outcome : Answer × LinkedMemory}
    (h : l.Performs op outcome) : l.KeepsLinks outcome.2 := by
  cases h with
  | @declare top name value _ found _ _ =>
    cases found with
    | some _ => exact .refl l
    | none => exact l.keepsLinks_write _ _
  | @assign top name value _ found _ _ =>
    unfold assigned
    split
    · exact .refl l
    · split
      · exact .refl l
      · split
        · exact .refl l
        · exact l.keepsLinks_write _ _
  | lookup _ _ => exact .refl l
  | contains _ _ => exact .refl l
  | snapshot _ => exact .refl l
  | enter f args =>
    unfold entered
    split
    · exact l.keepsLinks_push _
    · exact .refl l
  | restore taken =>
    unfold restored
    split
    · exact l.keepsLinks_foldl_write _
    · exact .refl l
  | reset bindings => exact l.keepsLinks_write rootFrame bindings
  | clear => exact l.keepsLinks_write rootFrame []
  | leave hleft => exact keepsLinks_left hleft
  | unwind hleft => exact keepsLinks_left hleft

/-- **A history** keeps every link. -/
theorem Goes.keepsLinks {history : List Operation} {answers : List Answer}
    (h : l.Goes history answers l') : l.KeepsLinks l' := by
  induction h with
  | done l => exact .refl l
  | step hop _ ih => exact hop.keepsLinks.trans ih

/-- What is followed to its end is followed to the same end as long as the links stay. -/
theorem Follows.mono (hkeeps : l.KeepsLinks l') {start : Option FrameId} {ids : List FrameId}
    (h : l.Follows start ids) : l'.Follows start ids := by
  unfold Follows at h ⊢
  generalize hfound : (none : Option FrameId) = found at h
  induction h with
  | off => exact .off
  | stops hstop => cases hstop
  | goes hgo hframe _ ih =>
    obtain ⟨bindings, hframe'⟩ := hkeeps _ _ hframe
    exact .goes rfl hframe' (ih hfound)

/-- What is looked for on the way to the end is found, if it is there. -/
theorem Follows.search (stop : FrameId → Bool) {start : Option FrameId} {ids : List FrameId}
    (h : l.Follows start ids) : ∃ passed, l.Walk stop start passed (ids.find? stop) := by
  unfold Follows at h
  generalize hfound : (none : Option FrameId) = found at h
  induction h with
  | off => exact ⟨[], .off⟩
  | stops hstop => cases hstop
  | @goes id frame ids found _ hframe _ ih =>
    rw [List.find?_cons]
    cases hstop : stop id with
    | true => exact ⟨[], .stops hstop⟩
    | false =>
      obtain ⟨passed, hrest⟩ := ih hfound
      exact ⟨id :: passed, .goes hstop hframe hrest⟩

/-! ## Leading to the root -/

/-- The links lead along these frames, and the last one is the root. -/
structure LeadsToRoot (l : LinkedMemory) (start : Option FrameId) (ids : List FrameId) : Prop where
  follows : l.Follows start ids
  last : ids.getLast? = some rootFrame

/-- The root has no link. -/
def RootEnds (l : LinkedMemory) : Prop :=
  ∃ frame, l.frames[rootFrame]? = some frame ∧ frame.link = none

theorem RootEnds.mono (h : l.RootEnds) (hkeeps : l.KeepsLinks l') : l'.RootEnds := by
  obtain ⟨frame, hframe, hlink⟩ := h
  obtain ⟨bindings, hframe'⟩ := hkeeps _ _ hframe
  exact ⟨_, hframe', hlink⟩

namespace LeadsToRoot

variable {start : Option FrameId} {ids : List FrameId}

theorem mono (h : l.LeadsToRoot start ids) (hkeeps : l.KeepsLinks l') : l'.LeadsToRoot start ids :=
  ⟨h.follows.mono hkeeps, h.last⟩

/-- The root leads to itself. -/
theorem root (h : l.RootEnds) : l.LeadsToRoot (some rootFrame) [rootFrame] := by
  obtain ⟨frame, hframe, hlink⟩ := h
  refine ⟨.goes rfl hframe ?_, rfl⟩
  rw [hlink]
  exact .off

/-- A frame with a link to where the root can be reached from leads to the root as well. -/
theorem cons (h : l.LeadsToRoot start ids) {id : FrameId} {frame : LinkedFrame}
    (hframe : l.frames[id]? = some frame) (hlink : frame.link = start) :
    l.LeadsToRoot (some id) (id :: ids) := by
  refine ⟨.goes rfl hframe ?_, ?_⟩
  · rw [hlink]
    exact h.follows
  · rw [List.getLast?_cons, h.last]
    rfl

/-- Something is there to start from: the first of the frames. -/
theorem start_eq (h : l.LeadsToRoot start ids) : start = some (ids.headD rootFrame) := by
  obtain ⟨hfollows, hlast⟩ := h
  cases hfollows with
  | off => cases hlast
  | goes _ _ _ => rfl

/-- The loop that looks for the root finds it, and passes all other frames. -/
theorem findsRoot (h : l.LeadsToRoot start ids) (hroot : l.RootEnds) :
    ∃ passed, l.Walk (· == rootFrame) start passed (some rootFrame) ∧
      passed.length = ids.length - 1 := by
  obtain ⟨hfollows, hlast⟩ := h
  unfold Follows at hfollows
  generalize hfound : (none : Option FrameId) = found at hfollows
  induction hfollows with
  | off => cases hlast
  | stops hstop => cases hstop
  | @goes id frame ids found _ hframe hrest ih =>
    by_cases hid : id = rootFrame
    · -- the root has no link, so it is passed last
      subst hid
      obtain ⟨root, hroot, hlink⟩ := hroot
      obtain rfl := Option.some.inj (hroot.symm.trans hframe)
      rw [hlink] at hrest
      cases hrest
      exact ⟨[], .stops rfl, rfl⟩
    · cases ids with
      | nil => exact absurd (Option.some.inj hlast) hid
      | cons next ids =>
        rw [List.getLast?_cons_cons] at hlast
        obtain ⟨passed, hwalk, hlength⟩ := ih hlast hfound
        refine ⟨id :: passed, .goes (beq_eq_false_iff_ne.mpr hid) hframe hwalk, ?_⟩
        simp only [List.length_cons] at hlength ⊢
        omega

end LeadsToRoot

end

end LinkedMemory

end BellaLang
