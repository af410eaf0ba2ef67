import BellaLang.Syntax.Span

/-!
Syntax trees.

A program is a block of statements, a statement is made of expressions, and a block stands for
the body of a loop.  Trees come from a text, or are built by hand; only the former have sites.

The operator of an expression is the text of its symbol, whether the language knows it or not.
Trees built by hand may also hold, where an expression belongs, nothing at all or some other piece
of syntax.  Such a tree is no program of the language, but it can be shown, and it can be run up
to the point where the misfit would have to be evaluated.
-/

namespace BellaLang

/-! ## The pieces -/

/-- An occurrence of a name: in an expression, a declaration or a list of parameters. -/
structure Name where
  spelling : String
  site : Site
deriving DecidableEq, Repr, Inhabited

mutual

/-- Expressions. -/
inductive Expr where
  | numeral (site : Site) (value : Float)
  | boolean (site : Site) (value : Bool)
  | name (id : Name)
  | unary (site : Site) (op : String) (operand : Expr)
  | binary (site : Site) (op : String) (left right : Expr)
  | call (site : Site) (callee : Name) (args : List Expr)
  | conditional (site : Site) (test consequent alternate : Expr)
  | array (site : Site) (elements : List Expr)
  | subscript (site : Site) (base index : Expr)
  /-- Nothing, where an expression belongs. -/
  | nothing
  /-- A statement, where an expression belongs. -/
  | statement (misfit : Stmt)
  /-- A whole program, where an expression belongs. -/
  | program (misfit : Block)

/-- Statements. -/
inductive Stmt where
  | declaration (site : Site) (id : Name) (value : Expr)
  | assignment (site : Site) (id : Name) (value : Expr)
  | function (site : Site) (id : Name) (params : List Name) (body : Expr)
  | print (site : Site) (value : Expr)
  | block (body : Block)
  | loop (site : Site) (test : Expr) (body : Block)

/-- Statements that are executed one after the other. -/
inductive Block where
  | mk (site : Site) (statements : List Stmt)

end

instance : Inhabited Expr := ⟨.nothing⟩
instance : Inhabited Block := ⟨.mk none []⟩
instance : Inhabited Stmt := ⟨.block default⟩

/-- A program is a block. -/
structure Program where
  block : Block
deriving Inhabited

/-! ## Sites -/

/-- Where a block comes from. -/
def Block.site : Block → Site
  | .mk site _ => site

/-- The statements of a block. -/
def Block.statements : Block → List Stmt
  | .mk _ statements => statements

/-- Where a statement comes from. -/
def Stmt.site : Stmt → Site
  | .declaration site .. | .assignment site .. | .function site .. | .print site _
  | .loop site .. => site
  | .block body => body.site

/-- Where an expression comes from. -/
def Expr.site : Expr → Site
  | .numeral site _ | .boolean site _ | .unary site .. | .binary site .. | .call site ..
  | .conditional site .. | .array site _ | .subscript site .. => site
  | .name id => id.site
  | .nothing => none
  | .statement misfit => misfit.site
  | .program misfit => misfit.site

/-! ## Building by hand -/

/-- Any piece of syntax, or none. -/
inductive Node where
  | nothing
  | expression (e : Expr)
  | statement (s : Stmt)
  | program (block : Block)
deriving Inhabited

/-- The piece where an expression belongs. -/
def Node.toExpr : Node → Expr
  | .nothing => .nothing
  | .expression e => e
  | .statement s => .statement s
  | .program block => .program block

/-- The piece where only a name may stand. -/
def Node.name? : Node → Option Name
  | .expression (.name id) => some id
  | _ => none

/-- The piece where only an expression may stand. -/
def Node.expression? : Node → Option Expr
  | .expression e => some e
  | _ => none

/-- The piece where only a statement may stand. -/
def Node.statement? : Node → Option Stmt
  | .statement s => some s
  | _ => none

/-- The piece where only a block may stand. -/
def Node.block? : Node → Option Block
  | .statement (.block body) => some body
  | _ => none

end BellaLang
