import BellaLang.Syntax.Tree
import Mathlib.Logic.Relation

/-!
The nodes of a syntax tree.

Every piece of a tree is a node: programs, blocks, statements, expressions, and also the names that
are declared, assigned to, called or taken as parameters.  The children of a node are its immediate
pieces, in the order of the text (`Node.children`), and the nodes of a tree are those that are
reached from its root (`Node.Within`).
-/

namespace BellaLang

/-! ## Nodes -/

/-- An occurrence of a name. -/
def Node.ofName (id : Name) : Node := .expression (.name id)

/-- What stands where an expression belongs, misfit or not. -/
def Node.ofExpr : Expr → Node
  | .nothing => .nothing
  | .statement misfit => .statement misfit
  | .program misfit => .program misfit
  | e => .expression e

/-- Where a node comes from. -/
def Node.site : Node → Site
  | .nothing => none
  | .expression e => e.site
  | .statement s => s.site
  | .program body => body.site

/-! ## Children -/

/-- The immediate pieces of an expression. -/
def Expr.children : Expr → List Node
  | .numeral .. | .boolean .. | .name _ | .nothing => []
  | .unary _ _ operand => [.ofExpr operand]
  | .binary _ _ left right => [.ofExpr left, .ofExpr right]
  | .call _ callee args => .ofName callee :: args.map .ofExpr
  | .conditional _ test consequent alternate =>
    [.ofExpr test, .ofExpr consequent, .ofExpr alternate]
  | .array _ elements => elements.map .ofExpr
  | .subscript _ base index => [.ofExpr base, .ofExpr index]
  | .statement misfit => [.statement misfit]
  | .program misfit => [.program misfit]

/-- The immediate pieces of a statement. -/
def Stmt.children : Stmt → List Node
  | .declaration _ id value | .assignment _ id value => [.ofName id, .ofExpr value]
  | .function _ id params body => .ofName id :: (params.map .ofName ++ [.ofExpr body])
  | .print _ value => [.ofExpr value]
  | .block body => body.statements.map .statement
  | .loop _ test body => [.ofExpr test, .statement (.block body)]

/-- The immediate pieces of a node, in the order of the text. -/
def Node.children : Node → List Node
  | .nothing => []
  | .expression e => e.children
  | .statement s => s.children
  | .program body => [.statement (.block body)]

/-- The node is the root, or a child of a node within it. -/
def Node.Within (root node : Node) : Prop :=
  Relation.ReflTransGen (fun parent child => child ∈ parent.children) root node

end BellaLang
