import BellaLang.Machine.Basic
import BellaLang.Syntax.Operator
import BellaLang.Value.Equality

/-!
Evaluating expressions.

The value of an expression is found by recursion over the tree, operands from left to right.  What
a call of a user function does is left open in that recursion, as a parameter: so the recursion is
over the tree alone.  A second recursion, over the number of calls that may still be nested, ties
the knot: the body of a function is evaluated with one call less to go, and with none left the
evaluation stops.

A function captures nothing.  Its body is evaluated in the bindings of the call, which are its
parameters in front of whatever the caller sees.
-/

namespace BellaLang

open Machine

/-! ## Operands -/

/-- The number that an operand of `op` has to be. -/
def numberFor (op : String) : Value → Action Float
  | .number x => pure x
  | other => .fail (.operandType op other.kind)

/-- Compute with two numbers. -/
def compute (f : Number.ArithmeticOp) (x y : Float) : Action Value := do
  let result ← .ofHost (f.apply x y)
  pure (.number result)

/-- The element of an array that a subscript picks.  The index has to be a number, the base has to
    be an array, and the number has to be one of its positions, in this order; only then is it made
    a position of the host. -/
def pick : Value → Value → Action Value
  | .array elements, .number index =>
    if Number.isPosition index elements.length then do
      let position ← .ofHost (Number.hostInteger index)
      .ofHost (Number.hostItem elements position)
    else .fail (.outOfRange index elements.length)
  | .user f, .number _ => .fail (.functionSubscripted f)
  | base, .number _ => .fail (.notAnArray base.kind)
  | _, index => .fail (.subscriptType index.kind)

/-! ## Expressions -/

/-- How a user function is called with values for its parameters. -/
abbrev Calling := UserFunction → List Value → Action Value

mutual

/-- The value of an expression, where `call` calls user functions. -/
def Expr.evalWith (call : Calling) : Expr → Action Value
  | .numeral _ x => pure (.number x)
  | .boolean _ b => pure (.boolean b)
  | .name id => lookup id.spelling
  | .unary _ op operand => do
    let v ← operand.evalWith call
    match UnaryOp.ofSymbol? op with
    | some .negate => do
      let x ← numberFor op v
      pure (.number (-x))
    | some .not => pure (.boolean !v.truthy)
    | none => .fail (.unknownUnary op)
  | .binary _ op left right =>
    match BinaryOp.ofSymbol? op with
    | some (.shortcut settledBy) => do
      let v ← left.evalWith call
      if v.truthy = settledBy then pure v else right.evalWith call
    | some (.arithmetic f) => do
      let x ← left.evalWith call >>= numberFor op
      let y ← right.evalWith call >>= numberFor op
      compute f x y
    | some (.relational r) => do
      let x ← left.evalWith call >>= numberFor op
      let y ← right.evalWith call >>= numberFor op
      pure (.boolean (r.apply x y))
    | some (.equality wanted) => do
      let v ← left.evalWith call
      let w ← right.evalWith call
      pure (.boolean (v.sharedEquals w == wanted))
    | none => .fail (.unknownBinary op)
  | .call _ callee args => do
    match ← lookup callee.spelling with
    | .native f => do
      let values ← Expr.evalAllWith call args
      callNative f values
    | .user f =>
      if args.length = f.params.length then do
        let values ← Expr.evalAllWith call args
        call f values
      else .fail (.argumentCount f.name f.params.length args.length)
    | other => .fail (.notAFunction callee.spelling other.kind)
  | .conditional _ test consequent alternate => do
    let v ← test.evalWith call
    if v.truthy then consequent.evalWith call else alternate.evalWith call
  | .array _ elements => do
    let values ← Expr.evalAllWith call elements
    pure (.array values)
  | .subscript _ base index => do
    let v ← base.evalWith call
    let i ← index.evalWith call
    pick v i
  | .nothing | .statement _ | .program _ => .stop .misfit

/-- The values of several expressions, from left to right. -/
def Expr.evalAllWith (call : Calling) : List Expr → Action (List Value)
  | [] => pure []
  | e :: rest => do
    let v ← e.evalWith call
    let values ← Expr.evalAllWith call rest
    pure (v :: values)

end

/-! ## Calls -/

/-- Call a user function, where `depth` calls may be nested. -/
def callWithin : (depth : Nat) → Calling
  | 0, _, _ => .stop .tooDeep
  | depth + 1, f, args => during f args (f.body.evalWith (callWithin depth))

/-- The value of an expression, where `depth` calls may be nested. -/
def Expr.evalWithin (depth : Nat) (e : Expr) : Action Value := e.evalWith (callWithin depth)

/-- How many calls may be nested. -/
def callLimit : Nat := 160

/-- The value of an expression. -/
def Expr.eval (e : Expr) : Action Value := e.evalWithin callLimit

end BellaLang
