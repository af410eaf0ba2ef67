import BellaLang.Text.Quoted
import BellaLang.Value.Text

/-!
Everything that can go wrong while a program runs.

A cause is what happened, with the names, kinds and numbers involved.  It belongs to one of twelve
kinds, each with a heading, and has a detail that says the rest.  A failure is a cause together with
the calls that were left because of it, the innermost first, each with the bindings it ended with.
-/

namespace BellaLang

/-! ## Kinds of failure -/

/-- The twelve kinds of failure. -/
inductive FailureKind where
  | notDeclared
  | alreadyDeclared
  | invalidOperandType
  | invalidOperator
  | invalidFunctionCall
  | invalidParameterType
  | invalidArgumentCount
  | subscriptTypeError
  | notAnArray
  | subscriptOutOfRange
  | cannotSubscriptFunction
  | notAssignable
deriving DecidableEq, Repr

/-- The heading of a kind. -/
def FailureKind.text : FailureKind → String
  | .notDeclared => "Not declared"
  | .alreadyDeclared => "Already declared"
  | .invalidOperandType => "Invalid operand type"
  | .invalidOperator => "Invalid operator"
  | .invalidFunctionCall => "Invalid function call"
  | .invalidParameterType => "Invalid parameter type"
  | .invalidArgumentCount => "Invalid argument count"
  | .subscriptTypeError => "Subscript type error"
  | .notAnArray => "Not an array"
  | .subscriptOutOfRange => "Subscript out of range"
  | .cannotSubscriptFunction => "Cannot subscript a function"
  | .notAssignable => "Not assignable"

/-! ## Causes -/

/-- What happened. -/
inductive Cause where
  /-- No binding of the name is visible. -/
  | notDeclared (name : String)
  /-- A binding of the name is visible already. -/
  | alreadyDeclared (name : String)
  /-- An operator that needs numbers met something else. -/
  | operandType (op : String) (got : Kind)
  | unknownUnary (op : String)
  | unknownBinary (op : String)
  /-- A name that was called holds no function. -/
  | notAFunction (name : String) (got : Kind)
  /-- A native function met something that is no number. -/
  | parameterType (name : String) (got : Kind)
  | argumentCount (name : String) (expected got : Nat)
  | subscriptType (got : Kind)
  | notAnArray (got : Kind)
  | outOfRange (index : Float) (length : Nat)
  | functionSubscripted (f : UserFunction)
  /-- The name holds something that is never replaced. -/
  | notAssignable (name : String) (held : Kind)

/-- The kind that a cause belongs to. -/
def Cause.kind : Cause → FailureKind
  | .notDeclared _ => .notDeclared
  | .alreadyDeclared _ => .alreadyDeclared
  | .operandType .. => .invalidOperandType
  | .unknownUnary _ | .unknownBinary _ => .invalidOperator
  | .notAFunction .. => .invalidFunctionCall
  | .parameterType .. => .invalidParameterType
  | .argumentCount .. => .invalidArgumentCount
  | .subscriptType _ => .subscriptTypeError
  | .notAnArray _ => .notAnArray
  | .outOfRange .. => .subscriptOutOfRange
  | .functionSubscripted _ => .cannotSubscriptFunction
  | .notAssignable .. => .notAssignable

/-- What is said beyond the heading. -/
def Cause.detail : Cause → String
  | .notDeclared name => name
  | .alreadyDeclared name => name
  | .operandType op got => op ++ " needs numbers, but got a(n) " ++ got.text
  | .unknownUnary op => "unary " ++ Text.quoted op
  | .unknownBinary op => "binary " ++ Text.quoted op
  | .notAFunction name got => name ++ " is a(n) " ++ got.text ++ ", not a function"
  | .parameterType name got => name ++ " wants numbers, but got a(n) " ++ got.text
  | .argumentCount name expected got =>
    name ++ " takes " ++ toString expected ++ " argument(s), but got " ++ toString got
  | .subscriptType got => "subscripts are numbers, not a(n) " ++ got.text
  | .notAnArray got => "cannot subscript a(n) " ++ got.text
  | .outOfRange index length =>
    Number.canonicalText index ++ " is not a position in an array of length " ++ toString length
  | .functionSubscripted f => f.text
  | .notAssignable name held => name ++ " holds a(n) " ++ held.text

/-- The heading and the detail. -/
def Cause.message (cause : Cause) : String := cause.kind.text ++ ": " ++ cause.detail

/-! ## Failures -/

/-- A call that was left: the function, and what its frame held in the end. -/
structure CallRecord where
  function : UserFunction
  bindings : List (String × Value)

/-- A cause, and the calls that were in progress, the innermost first. -/
structure Failure where
  cause : Cause
  calls : List CallRecord

/-- A parameter of a call with its value. -/
def CallRecord.parameterText (call : CallRecord) (param : String) : String :=
  param ++ "=" ++ match call.bindings.lookup param with
    | some v => v.text
    | none => ""

/-- A call with the values of its parameters. -/
def CallRecord.text (call : CallRecord) : String :=
  call.function.name ++ "(" ++
    ", ".intercalate (call.function.params.map call.parameterText) ++ ")"

/-- Can the call be shown, where arrays may nest so deep? -/
def CallRecord.isShowable (nesting : Nat) (call : CallRecord) : Bool :=
  call.function.params.all fun param =>
    (call.bindings.lookup param).all fun v => decide (v.depth ≤ nesting)

/-- Can all the calls be shown? -/
def Failure.isShowable (nesting : Nat) (failure : Failure) : Bool :=
  failure.calls.all (CallRecord.isShowable nesting)

end BellaLang
