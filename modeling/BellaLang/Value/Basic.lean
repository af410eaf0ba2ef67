import BellaLang.Number.Arithmetic
import BellaLang.Syntax.Tree

/-!
The values that programs compute with: numbers, booleans, arrays and functions.

A function is an object.  It gets an identity when it is made and equals nothing but itself, however
alike another one may look, so the identity is part of it.  A user function is its parameters and
its body and captures nothing.  A native function belongs to the host: it is handed numbers, and how
often it has been called before, so that a host function may count its calls without this library
having to keep any state for it.  What it answers may be a value of any kind, a function as well.
-/

namespace BellaLang

/-! ## Functions and values -/

/-- A function that a program declares. -/
structure UserFunction where
  identity : Nat
  name : String
  params : List String
  body : Expr

mutual

/-- A function of the host.  It is given exactly `arity` numbers, and answers any value it likes or
    ends with an error. -/
structure Native where
  identity : Nat
  name : String
  arity : Nat
  run : (callsBefore : Nat) → List Float → Except HostFault Value

/-- The values of the language. -/
inductive Value where
  | number (x : Float)
  | boolean (b : Bool)
  | array (elements : List Value)
  | native (f : Native)
  | user (f : UserFunction)

end

instance : Inhabited Value := ⟨.boolean false⟩

/-! ## Kinds -/

/-- The kinds of values that the language tells apart. -/
inductive Kind where
  | number
  | boolean
  | array
  | function
deriving DecidableEq, Repr

/-- The kind of a value. -/
def Value.kind : Value → Kind
  | .number _ => .number
  | .boolean _ => .boolean
  | .array _ => .array
  | .native _ | .user _ => .function

/-- The word for a kind. -/
def Kind.text : Kind → String
  | .number => "number"
  | .boolean => "boolean"
  | .array => "array"
  | .function => "function"

/-- How a value behaves as a condition. -/
def Value.truthy : Value → Bool
  | .number x => Number.isTruthy x
  | .boolean b => b
  | .array _ | .native _ | .user _ => true

/-- The number that a value is. -/
def Value.number? : Value → Option Float
  | .number x => some x
  | _ => none

end BellaLang
