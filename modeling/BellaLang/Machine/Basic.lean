import BellaLang.Store.Snapshot
import BellaLang.Value.Native

/-!
The machine that a program runs on, and the steps it takes.

A machine holds the name store, the log of printed lines, the statement at work and what concerns
the host.  A step reads and changes the machine and ends with a value or stops for a reason.  The
reasons are kept apart, because only one of them is a failure of the program's own making: a failure
collects the calls that it leaves, the other reasons just pass through them.
-/

namespace BellaLang

/-! ## The machine -/

/-- What a machine shares with its host: the next identity for a new function, and how often each
    native function has been called. -/
structure Host where
  nextIdentity : Nat
  calls : List (Nat × Nat)

/-- How often the native function with this identity has been called. -/
def Host.callsOf (host : Host) (identity : Nat) : Nat := (host.calls.lookup identity).getD 0

/-- One more call in the tally. -/
def tallied : List (Nat × Nat) → Nat → List (Nat × Nat)
  | [], identity => [(identity, 1)]
  | (key, count) :: rest, identity =>
    if key = identity then (key, count + 1) :: rest else (key, count) :: tallied rest identity

/-- A call of a native function is noted. -/
def Host.note (host : Host) (identity : Nat) : Host :=
  { host with calls := tallied host.calls identity }

/-- A host that nothing has been asked of. -/
def Host.fresh : Host := ⟨0, []⟩

/-- The state that a running program works against. -/
structure Machine where
  store : Store
  /-- The printed lines, the first one first. -/
  output : Array String
  /-- Every line that was ever handed to a listener; starting over does not shorten it. -/
  echoed : Array String
  /-- The statement at work. -/
  atWork : Option Stmt
  host : Host

/-! ## Steps -/

/-- Why a step ended without a value. -/
inductive Stop where
  /-- The program failed. -/
  | failure (f : Failure)
  /-- Something was to be evaluated or executed that is no expression or no statement. -/
  | misfit
  /-- A call was to be entered with a wrong number of arguments. -/
  | mismatch
  /-- Too many calls were in progress, or arrays nest too deep for a value to be shown. -/
  | tooDeep
  /-- An operation of the host has ended with an error that nothing has caught. -/
  | host (fault : HostFault)
  /-- A loop was given up. -/
  | endless

/-- A step of the machine. -/
def Action (α : Type) := Machine → Except Stop α × Machine

/-- The step that does nothing but answer. -/
@[inline] def Action.pure {α : Type} (a : α) : Action α := fun m => (.ok a, m)

/-- One step, and another that depends on its answer; if the first one stops, so does the whole. -/
@[inline] def Action.bind {α β : Type} (first : Action α) (next : α → Action β) :
    Action β := fun m =>
  match first m with
  | (.ok a, m') => next a m'
  | (.error stop, m') => (.error stop, m')

instance : Monad Action where
  pure := Action.pure
  bind := Action.bind

/-- Stop for a reason. -/
def Action.stop {α : Type} (reason : Stop) : Action α := fun m => (.error reason, m)

/-- Fail for a cause. -/
def Action.fail {α : Type} (cause : Cause) : Action α := .stop (.failure ⟨cause, []⟩)

/-- The step that answers what a function of the machine says. -/
def Action.ask {α : Type} (f : Machine → α) : Action α := fun m => (.ok (f m), m)

/-- The step that fails for a cause, or answers. -/
def Action.ofExcept {α : Type} : Except Cause α → Action α
  | .ok a => .pure a
  | .error cause => .fail cause

/-- The step that answers what the host does, or stops for the error that it ends with. -/
def Action.ofHost {α : Type} : Except HostFault α → Action α
  | .ok a => .pure a
  | .error fault => .stop (.host fault)

/-! ## What steps can do -/

namespace Machine

/-- The value of a name. -/
def lookup (name : String) : Action Value := fun m =>
  Action.ofExcept (m.store.lookup name) m

/-- Change the name store, unless the change fails. -/
def changeStore (change : Store → Except Cause Store) : Action Unit := fun m =>
  match change m.store with
  | .ok store => (.ok (), { m with store })
  | .error cause => Action.fail cause m

/-- Bind a new name. -/
def declare (name : String) (value : Value) : Action Unit := changeStore (·.declare name value)

/-- Change the binding of a name. -/
def assign (name : String) (value : Value) : Action Unit := changeStore (·.assign name value)

/-- Print a line: it joins the log, and the listener gets it. -/
def emit (line : String) : Action Unit := fun m =>
  (.ok (), { m with output := m.output.push line, echoed := m.echoed.push line })

/-- A statement is at work from now on. -/
def setAtWork (statement : Stmt) : Action Unit := fun m =>
  (.ok (), { m with atWork := some statement })

/-- An identity for a new function. -/
def newIdentity : Action Nat := fun m =>
  (.ok m.host.nextIdentity,
    { m with host := { m.host with nextIdentity := m.host.nextIdentity + 1 } })

/-- The text of a value, where arrays may nest so deep. -/
def shown (nesting : Nat) (value : Value) : Action String :=
  if value.depth ≤ nesting then .pure value.text else .stop .tooDeep

/-- Call a native function.  The call is noted, also if it ends with an error of the host. -/
def callNative (f : Native) (args : List Value) : Action Value := fun m =>
  match f.numbers args with
  | .ok numbers =>
    Action.ofHost (f.run (m.host.callsOf f.identity) (fitTo f.arity numbers))
      { m with host := m.host.note f.identity }
  | .error cause => Action.fail cause m

/-- Take a step inside a call of a user function.  Its frame is in force during the step and given
    up afterwards, however the step ends; a failure takes down a record of the call. -/
def during {α : Type} (f : UserFunction) (args : List Value) (body : Action α) :
    Action α := fun m =>
  match m.store.enter? f args with
  | none => (.error .mismatch, m)
  | some (call, store) =>
    let (result, m') := body { m with store }
    let left := { m' with store := m'.store.leaveForGood call }
    match result with
    | .error (.failure failure) =>
      (.error (.failure { failure with calls := failure.calls ++ [m'.store.record call] }), left)
    | other => (other, left)

/-! ## Starting over -/

/-- The log is empty, the built-in names are bound to new functions, nothing is at work. -/
def reset (m : Machine) : Machine :=
  { m with
    store := m.store.reset (builtIns m.host.nextIdentity)
    output := #[]
    atWork := none
    host := { m.host with nextIdentity := m.host.nextIdentity + builtInFunctions.length } }

/-- A new machine. -/
def new (host : Host) : Machine := reset ⟨.empty, #[], #[], none, host⟩

end Machine

end BellaLang
