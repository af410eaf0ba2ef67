import BellaLang.Grammar.Reading
import BellaLang.Syntax.Tree

/-!
From derivations to syntax trees.

A derivation shows every rule and every token; a syntax tree keeps what matters for the meaning.
Rules that only lead from one level of precedence to the next vanish, and so do parentheses.  What
is kept gets the site of the phrase it was made from.  Parentheses around a phrase are no part of
its own site, but they do belong to the phrase around it.

Reading a derivation is total: where a derivation does not follow the grammar, there is nothing in
the place of an expression, and an empty block in the place of a block.
-/

namespace BellaLang

/-! ## Sites and tokens -/

/-- The site of an extent in a source. -/
def siteIn (source : String) (extent : Option Extent) : Site := extent.map fun e => ⟨source, e⟩

/-- The text of a token. -/
def Derivation.word : Derivation → String
  | .leaf token => String.ofList token.text
  | .node .. => ""

/-- The name that a token spells. -/
def Derivation.toName (source : String) (d : Derivation) : Name := ⟨d.word, siteIn source d.extent?⟩

/-! ## Expressions -/

mutual

/-- The expression of a derivation. -/
def Derivation.toExpr (source : String) : Derivation → Expr
  | .leaf _ => .nothing
  | .node rule extent children =>
    let site := siteIn source extent
    match rule, children with
    | .conditional, [test, _, consequent, _, alternate] =>
      .conditional site (test.toExpr source) (consequent.toExpr source) (alternate.toExpr source)
    | .or, [left, op, right] | .and, [left, op, right] | .compare, [left, op, right]
    | .add, [left, op, right] | .subtract, [left, op, right] | .multiply, [left, op, right]
    | .divide, [left, op, right] | .remainder, [left, op, right] | .power, [left, op, right] =>
      .binary site op.word (left.toExpr source) (right.toExpr source)
    | .negate, [op, operand] | .not, [op, operand] => .unary site op.word (operand.toExpr source)
    | .subscript, [base, _, index, _] =>
      .subscript site (base.toExpr source) (index.toExpr source)
    | .numeral, [.leaf token] => .numeral site (Number.numeralValue token.text)
    | .trueLiteral, _ => .boolean site true
    | .falseLiteral, _ => .boolean site false
    | .callWithoutArgs, callee :: _ => .call site (callee.toName source) []
    | .call, [callee, _, args, _] => .call site (callee.toName source) (args.toExprs source [])
    | .name, [id] => .name (id.toName source)
    | .emptyArray, _ => .array site []
    | .array, [_, elements, _] => .array site (elements.toExprs source [])
    | .parenthesised, [_, inner, _] => inner.toExpr source
    | .disjunctionAlone, [inner] | .conjunctionAlone, [inner] | .comparisonAlone, [inner]
    | .sumAlone, [inner] | .productAlone, [inner] | .unaryAlone, [inner] | .powerAlone, [inner]
    | .suffixedAlone, [inner] | .primaryAlone, [inner] => inner.toExpr source
    | _, _ => .nothing

/-- The expressions of a row of arguments, in front of those that follow. -/
def Derivation.toExprs (source : String) : Derivation → List Expr → List Expr
  | .leaf _, following => following
  | .node rule _ children, following =>
    match rule, children with
    | .oneArg, [e] => e.toExpr source :: following
    | .severalArgs, [e, more] => e.toExpr source :: more.toExprs source following
    | .secondArg, [_, e] => e.toExpr source :: following
    | .nextArg, [more, _, e] => more.toExprs source (e.toExpr source :: following)
    | _, _ => following

end

/-- The names of a row of parameters, in front of those that follow. -/
def Derivation.toNames (source : String) : Derivation → List Name → List Name
  | .leaf _, following => following
  | .node rule _ children, following =>
    match rule, children with
    | .oneParam, [id] => id.toName source :: following
    | .severalParams, [id, more] => id.toName source :: more.toNames source following
    | .secondParam, [_, id] => id.toName source :: following
    | .nextParam, [more, _, id] => more.toNames source (id.toName source :: following)
    | _, _ => following

/-! ## Statements -/

mutual

/-- The statement of a derivation. -/
def Derivation.toStmt (source : String) : Derivation → Stmt
  | .leaf _ => default
  | .node rule extent children =>
    let site := siteIn source extent
    match rule, children with
    | .declaration, [_, id, _, value, _] =>
      .declaration site (id.toName source) (value.toExpr source)
    | .functionWithoutParams, [_, id, _, _, _, body, _] =>
      .function site (id.toName source) [] (body.toExpr source)
    | .function, [_, id, _, params, _, _, body, _] =>
      .function site (id.toName source) (params.toNames source []) (body.toExpr source)
    | .assignment, [id, _, value, _] => .assignment site (id.toName source) (value.toExpr source)
    | .print, [_, value, _] => .print site (value.toExpr source)
    | .loop, [_, test, body] => .loop site (test.toExpr source) (body.toBlock source)
    | _, _ => default

/-- The block of a derivation. -/
def Derivation.toBlock (source : String) : Derivation → Block
  | .leaf _ => default
  | .node rule extent children =>
    let site := siteIn source extent
    match rule, children with
    | .block, [_, statements, _] => .mk site (statements.toStmts source [])
    | .program, [statements] => .mk site (statements.toStmts source [])
    | _, _ => .mk site []

/-- The statements of a row, in front of those that follow. -/
def Derivation.toStmts (source : String) : Derivation → List Stmt → List Stmt
  | .leaf _, following => following
  | .node rule _ children, following =>
    match rule, children with
    | .firstStatement, [s] => s.toStmt source :: following
    | .nextStatement, [more, s] => more.toStmts source (s.toStmt source :: following)
    | _, _ => following

end

/-! ## Programs -/

/-- The program of a derivation. -/
def Derivation.toProgram (source : String) (d : Derivation) : Program := ⟨d.toBlock source⟩

/-- Read the text of a source. -/
def Program.ofText (source text : String) : Except SyntaxFault Program :=
  (readText text).map (·.toProgram source)

end BellaLang
