import BellaLang.Number.Notation
import BellaLang.Syntax.Tree

/-!
Trees in words.

The text of a tree shows its structure: every operation is put in parentheses, so it can be seen
from the text how the operations of a program nest.  How literals are written is left open: where
trees are shown, they stand in angle brackets.
-/

namespace BellaLang

open BellaLang.Number

/-! ## Lists -/

/-- Names, separated by commas. -/
def namesText (names : List String) : String := ", ".intercalate names

/-! ## Literals -/

/-- How literals are written. -/
structure LiteralStyle where
  numeral : Float → String
  boolean : Bool → String

/-- Literals in angle brackets, so that they are told from names. -/
def LiteralStyle.bracketed : LiteralStyle where
  numeral value := "<Numeral " ++ literalText value ++ ">"
  boolean value := if value then "<Boolean True>" else "<Boolean False>"

/-! ## Trees -/

mutual

/-- The text of an expression. -/
def Expr.textIn (style : LiteralStyle) : Expr → String
  | .numeral _ value => style.numeral value
  | .boolean _ value => style.boolean value
  | .name id => id.spelling
  | .unary _ op operand => "(" ++ op ++ operand.textIn style ++ ")"
  | .binary _ op left right =>
    "(" ++ left.textIn style ++ " " ++ op ++ " " ++ right.textIn style ++ ")"
  | .call _ callee args =>
    callee.spelling ++ "(" ++ ", ".intercalate (Expr.textsIn style args) ++ ")"
  | .conditional _ test consequent alternate =>
    "(" ++ test.textIn style ++ " ? " ++ consequent.textIn style ++ " : " ++
      alternate.textIn style ++ ")"
  | .array _ elements => "[" ++ ", ".intercalate (Expr.textsIn style elements) ++ "]"
  | .subscript _ base index => base.textIn style ++ "[" ++ index.textIn style ++ "]"
  | .nothing => "None"
  | .statement misfit => misfit.textIn style
  | .program misfit => "<Program " ++ misfit.textIn style ++ ">"

/-- The texts of several expressions. -/
def Expr.textsIn (style : LiteralStyle) : List Expr → List String
  | [] => []
  | e :: rest => e.textIn style :: Expr.textsIn style rest

/-- The text of a statement. -/
def Stmt.textIn (style : LiteralStyle) : Stmt → String
  | .declaration _ id value => "let " ++ id.spelling ++ " = " ++ value.textIn style ++ ";"
  | .assignment _ id value => id.spelling ++ " = " ++ value.textIn style ++ ";"
  | .function _ id params body =>
    "function " ++ id.spelling ++ "(" ++ namesText (params.map (·.spelling)) ++ ") = " ++
      body.textIn style ++ ";"
  | .print _ value => "print " ++ value.textIn style ++ ";"
  | .block body => body.textIn style
  | .loop _ test body => "while " ++ test.textIn style ++ " " ++ body.textIn style

/-- The texts of several statements. -/
def Stmt.textsIn (style : LiteralStyle) : List Stmt → List String
  | [] => []
  | s :: rest => s.textIn style :: Stmt.textsIn style rest

/-- The text of a block. -/
def Block.textIn (style : LiteralStyle) : Block → String
  | .mk _ statements =>
    "\x7b " ++ " ".intercalate (Stmt.textsIn style statements) ++ " \x7d"

end

/-- The text of an expression, as it is shown. -/
def Expr.text (e : Expr) : String := e.textIn .bracketed

/-- The text of a statement, as it is shown. -/
def Stmt.text (s : Stmt) : String := s.textIn .bracketed

/-- The text of a block, as it is shown. -/
def Block.text (block : Block) : String := block.textIn .bracketed

/-- The text of any piece of syntax. -/
def Node.text (node : Node) : String := node.toExpr.text

end BellaLang
