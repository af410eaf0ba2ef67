import BellaLang.Number.Arithmetic

/-!
Operators and their symbols.

A syntax tree holds the symbol of an operator, and this is where the symbol gets its meaning.  The
two-place operators fall into four families: those that may settle the answer with their first
operand alone, those that compute, those that compare sizes, and those that compare values.
-/

namespace BellaLang

open BellaLang.Number

/-! ## One operand -/

/-- The operators with one operand. -/
inductive UnaryOp where
  | negate
  | not
deriving DecidableEq, Repr

/-- The operator of a symbol in front of its operand. -/
def UnaryOp.ofSymbol? : String → Option UnaryOp
  | "-" => some .negate
  | "!" => some .not
  | _ => none

/-! ## Two operands -/

/-- The operators with two operands. -/
inductive BinaryOp where
  /-- A first operand that behaves like `settledBy` is the answer; else the second one is. -/
  | shortcut (settledBy : Bool)
  | arithmetic (op : ArithmeticOp)
  | relational (op : RelationalOp)
  /-- Are the operands equal?  The answer is compared with `wanted`. -/
  | equality (wanted : Bool)
deriving DecidableEq, Repr

/-- The operator of a symbol between its operands. -/
def BinaryOp.ofSymbol? : String → Option BinaryOp
  | "&&" => some (.shortcut false)
  | "||" => some (.shortcut true)
  | "+" => some (.arithmetic .add)
  | "-" => some (.arithmetic .subtract)
  | "*" => some (.arithmetic .multiply)
  | "/" => some (.arithmetic .divide)
  | "%" => some (.arithmetic .remainder)
  | "**" => some (.arithmetic .power)
  | "<" => some (.relational .less)
  | "<=" => some (.relational .lessOrEqual)
  | ">" => some (.relational .greater)
  | ">=" => some (.relational .greaterOrEqual)
  | "==" => some (.equality true)
  | "!=" => some (.equality false)
  | _ => none

end BellaLang
