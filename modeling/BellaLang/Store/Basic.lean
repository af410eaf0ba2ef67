import BellaLang.Failure
import BellaLang.Store.Bindings

/-!
The name store: every binding that a running program can see.

There is one frame of global bindings, the root, and each call of a user function puts a frame with
its parameters in front of those that were in force.  The frames in force form a chain, the newest
first and the root last.  A name is looked up along the chain, so a function body sees its own
parameters first, then those of its callers, and the globals last.  A new name is bound in the
newest frame; an assignment changes the nearest binding of its name.

All frames ever made live in one heap and are known by their numbers, because a snapshot can put a
chain back into force whose calls have long been left, and the frames in it must be the same ones.
-/

namespace BellaLang

/-! ## Frames and chains -/

/-- A frame: its bindings, and the function whose call it was made for, unless it is the root. -/
structure Frame where
  bindings : Bindings
  caller : Option UserFunction

/-- Frames are known by their places in the heap. -/
abbrev FrameId := Nat

/-- The frame of the global bindings. -/
def rootFrame : FrameId := 0

/-- The name store: the heap of frames, and the chain of those in force, the newest first. -/
structure Store where
  frames : Array Frame
  chain : List FrameId

/-- A store without any binding. -/
def Store.empty : Store := ⟨#[⟨[], none⟩], [rootFrame]⟩

/-- The bindings of a frame. -/
def Store.bindingsOf (store : Store) (id : FrameId) : Bindings :=
  match store.frames[id]? with
  | some frame => frame.bindings
  | none => []

/-- Replace the bindings of a frame. -/
def Store.setBindings (store : Store) (id : FrameId) (bindings : Bindings) : Store :=
  { store with frames := store.frames.modify id fun frame => { frame with bindings } }

/-- How many calls are in progress. -/
def Store.depth (store : Store) : Nat := store.chain.length - 1

/-- The newest frame in force. -/
def Store.top (store : Store) : FrameId := store.chain.headD rootFrame

/-! ## Names -/

/-- The nearest frame in force that holds a name. -/
def Store.holder? (store : Store) (name : String) : Option FrameId :=
  store.chain.find? fun id => (store.bindingsOf id).holds name

/-- Is the name visible? -/
def Store.contains (store : Store) (name : String) : Bool := (store.holder? name).isSome

/-- The value that a name shows, if it is visible. -/
def Store.get? (store : Store) (name : String) : Option Value :=
  (store.holder? name).bind fun id => (store.bindingsOf id).get? name

/-- The value of a name. -/
def Store.lookup (store : Store) (name : String) : Except Cause Value :=
  match store.get? name with
  | some value => .ok value
  | none => .error (.notDeclared name)

/-- Bind a new name in the newest frame. -/
def Store.declare (store : Store) (name : String) (value : Value) : Except Cause Store :=
  if store.contains name then .error (.alreadyDeclared name)
  else .ok (store.setBindings store.top ((store.bindingsOf store.top).put name value))

/-- Are values of this kind never replaced by an assignment? -/
def Kind.isFixed : Kind → Bool
  | .array | .function => true
  | .number | .boolean => false

/-- Change the nearest binding of a name. -/
def Store.assign (store : Store) (name : String) (value : Value) : Except Cause Store :=
  match store.holder? name with
  | none => .error (.notDeclared name)
  | some id =>
    let bindings := store.bindingsOf id
    match bindings.get? name with
    | none => .error (.notDeclared name)
    | some held =>
      if held.kind.isFixed then .error (.notAssignable name held.kind)
      else .ok (store.setBindings id (bindings.put name value))

/-! ## Calls -/

/-- A call that has been entered: its frame, and the chain that was in force before. -/
structure Activation where
  frame : FrameId
  function : UserFunction
  below : List FrameId

/-- Put a frame with the parameters of a function in front of the chain.  There is none if the
    numbers of parameters and of arguments differ. -/
def Store.enter? (store : Store) (function : UserFunction) (args : List Value) :
    Option (Activation × Store) :=
  if function.params.length = args.length then
    let frame : Frame := ⟨Bindings.ofPairs (function.params.zip args), some function⟩
    let id := store.frames.size
    some (⟨id, function, store.chain⟩, ⟨store.frames.push frame, id :: store.chain⟩)
  else none

/-- Leave a call: the chain that was in force when it was entered is in force again. -/
def Store.leave (store : Store) (call : Activation) : Store := { store with chain := call.below }

/-- Leave a call and give up its frame, for a call whose frame is the newest in the heap and that
    nothing can have kept. -/
def Store.leaveForGood (store : Store) (call : Activation) : Store :=
  ⟨store.frames.pop, call.below⟩

/-- The call and the bindings of its frame, for the record of a failure. -/
def Store.record (store : Store) (call : Activation) : CallRecord :=
  ⟨call.function, store.bindingsOf call.frame⟩

/-! ## Starting over -/

/-- Forget the global bindings, have nothing but the root in force, and bind these names in it. -/
def Store.reset (store : Store) (bindings : Bindings) : Store :=
  { store.setBindings rootFrame bindings with chain := [rootFrame] }

/-- Forget the global bindings, and have nothing but the root in force. -/
def Store.clear (store : Store) : Store := store.reset []

end BellaLang
