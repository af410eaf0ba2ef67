import BellaLang.Machine.Evaluation

/-!
Executing statements, and running whole programs.

Statements work on the machine one after the other, and a block marks each of its statements as the
one at work before executing it.  A loop marks itself again after each round, since it is the loop
that evaluates the test.  The first stop ends everything: nothing here recovers from anything.

A loop in the language has no bound.  Here each loop has a limit on its rounds, far beyond what can
be waited for, so that execution is total.  The stack of the host, which nested calls take up and
the text of nested arrays, is bounded indeed.  Where the bounds are is not for the language to say,
so they are parameters.
-/

namespace BellaLang

open Machine

/-! ## Loops -/

/-- Take rounds as long as the test says so, at most `rounds` of them. -/
def repeatWhile : (rounds : Nat) → (test : Action Bool) → (body : Action Unit) → Action Unit
  | 0, _, _ => .stop .endless
  | rounds + 1, test, body => fun m =>
    match test m with
    | (.error stop, m') => (.error stop, m')
    | (.ok false, m') => (.ok (), m')
    | (.ok true, m') =>
      match body m' with
      | (.error stop, m'') => (.error stop, m'')
      | (.ok (), m'') => repeatWhile rounds test body m''

/-- The limit on the rounds of a loop. -/
def roundLimit : Nat := 1000000000000000

/-! ## Limits -/

/-- How deep arrays may nest in a value that is shown. -/
def nestingLimit : Nat := 300

/-- What the host puts up with: how many calls may be nested, how many rounds a loop may take, and
    how deep arrays may nest in a value that is shown. -/
structure Limits where
  calls : Nat
  rounds : Nat
  nesting : Nat

/-- The limits that programs are run with. -/
def Limits.standard : Limits := ⟨callLimit, roundLimit, nestingLimit⟩

/-! ## Statements -/

mutual

/-- Execute a statement within limits. -/
def Stmt.execWithin (limits : Limits) : Stmt → Action Unit
  | .declaration _ id value => do
    if ← .ask (·.store.contains id.spelling) then .fail (.alreadyDeclared id.spelling)
    else do
      let v ← value.evalWithin limits.calls
      declare id.spelling v
  | .assignment _ id value => do
    let v ← value.evalWithin limits.calls
    assign id.spelling v
  | .function _ id params body => do
    let identity ← newIdentity
    declare id.spelling (.user ⟨identity, id.spelling, params.map (·.spelling), body⟩)
  | .print _ value => do
    let v ← value.evalWithin limits.calls
    let text ← shown limits.nesting v
    emit text
  | .block body => body.execWithin limits
  | .loop site test body =>
    repeatWhile limits.rounds (Value.truthy <$> test.evalWithin limits.calls) do
      body.execWithin limits
      setAtWork (.loop site test body)

/-- Execute statements one after the other. -/
def Stmt.execAllWithin (limits : Limits) : List Stmt → Action Unit
  | [] => pure ()
  | s :: rest => do
    setAtWork s
    s.execWithin limits
    Stmt.execAllWithin limits rest

/-- Execute a block within limits. -/
def Block.execWithin (limits : Limits) : Block → Action Unit
  | .mk _ statements => Stmt.execAllWithin limits statements

end

/-- Execute a statement. -/
def Stmt.exec (s : Stmt) : Action Unit := s.execWithin .standard

/-- Execute a block. -/
def Block.exec (body : Block) : Action Unit := body.execWithin .standard

/-- Execute a piece of syntax, which has to be a statement. -/
def Node.exec : Node → Action Unit
  | .statement s => s.exec
  | _ => .stop .misfit

/-! ## Programs -/

/-- Run a program from a clean slate, within limits. -/
def Program.runWithin (limits : Limits) (program : Program) : Action Unit := fun m =>
  program.block.execWithin limits m.reset

/-- Run a program from a clean slate. -/
def Program.run (program : Program) : Action Unit := program.runWithin .standard

/-- The failure that a run ended with, if it ended with one; every other stop is passed on. -/
def Program.attempt (program : Program) : Action (Option Failure) := fun m =>
  match program.run m with
  | (.ok (), m') => (.ok none, m')
  | (.error (.failure f), m') => (.ok (some f), m')
  | (.error stop, m') => (.error stop, m')

/-- The printed lines of a program that runs to its end on a machine of its own. -/
def Program.interpret (program : Program) : Except Stop (Array String) :=
  match program.run (Machine.new .fresh) with
  | (.ok (), m) => .ok m.output
  | (.error stop, _) => .error stop

end BellaLang
