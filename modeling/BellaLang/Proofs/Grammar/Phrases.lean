import BellaLang.Grammar.Program
import BellaLang.Proofs.Grammar.Run

/-!
The concrete syntax, phrase by phrase, with the tree that each phrase stands for.

This is the grammar as it is written for people: rows are repetitions that may be empty, the levels
of precedence are a table (`Nonterminal.tighter?`, `Nonterminal.operands?`), and next to each form
stands the tree it is read as (`Phrase`).  The associativity of an operator is in the table: the
operand on the side to which it groups is again of the level of the operator.

The derivations are compared with it in both directions:

  1. the tree made from a grammatical derivation is the one its tokens stand for
     (`IsGrammatical.phrase`), by induction on the derivation;
  2. for every phrase there is a grammatical derivation that the tree is made from
     (`Phrase.realised`), by induction on the phrase.

Repetitions are the only place where the two are built differently: the rules know no empty rows.
-/

namespace BellaLang

/-! ## Where rows of tokens stand -/

/-- From the start of the first token to the end of the last one. -/
def rowExtent : List Token → Option Extent
  | [] => none
  | first :: rest => some (first.extent.through (rest.getLastD first).extent)

/-- The site of a row of tokens in a source. -/
def rowSite (source : String) (row : List Token) : Site := siteIn source (rowExtent row)

/-- The text of a token, as a word. -/
def Token.word (token : Token) : String := String.ofList token.text

/-- The name that a token spells. -/
def Token.toName (source : String) (token : Token) : Name := ⟨token.word, rowSite source [token]⟩

/-! ## Levels of precedence -/

/-- The level that binds more tightly. -/
def Nonterminal.tighter? : Nonterminal → Option Nonterminal
  | .exp => some .disjunction
  | .disjunction => some .conjunction
  | .conjunction => some .comparison
  | .comparison => some .sum
  | .sum => some .product
  | .product => some .unary
  | .unary => some .power
  | .power => some .suffixed
  | .suffixed => some .primary
  | _ => none

/-- The operators between two operands, with the levels of the operands. -/
def Nonterminal.operands? : Nonterminal → Terminal → Option (Nonterminal × Nonterminal)
  | .disjunction, .or => some (.disjunction, .conjunction)
  | .conjunction, .and => some (.conjunction, .comparison)
  | .comparison, .relop => some (.sum, .sum)
  | .sum, .plus | .sum, .minus => some (.sum, .product)
  | .product, .star | .product, .slash | .product, .percent => some (.product, .unary)
  | .power, .pow => some (.suffixed, .unary)
  | _, _ => none

/-! ## Phrases and their trees -/

/-- What a phrase can stand for. -/
inductive Piece where
  | expr (e : Expr)
  | exprs (es : List Expr)
  | names (ids : List Name)
  | stmt (s : Stmt)
  | stmts (ss : List Stmt)
  | block (body : Block)

/-- A row of tokens is a phrase of some kind, and stands for a piece of a tree. -/
inductive Phrase (source : String) : Nonterminal → List Token → Piece → Prop
  -- Programs and statements.
  | program {row : List Token} {ss : List Stmt}
      (hss : Phrase source .statements row (.stmts ss)) :
      Phrase source .program row (.block (.mk (rowSite source row) ss))
  | noStatements : Phrase source .statements [] (.stmts [])
  | nextStatement {row u v : List Token} {ss : List Stmt} {s : Stmt}
      (hss : Phrase source .statements u (.stmts ss)) (hs : Phrase source .statement v (.stmt s))
      (hrow : row = u ++ v) :
      Phrase source .statements row (.stmts (ss ++ [s]))
  | declaration {letWord id equal semicolon : Token} {row w : List Token} {e : Expr}
      (hmarks : [letWord, id, equal, semicolon].map (·.terminal) =
        [.letWord, .name, .equal, .semicolon])
      (he : Phrase source .exp w (.expr e))
      (hrow : row = [letWord, id, equal] ++ w ++ [semicolon]) :
      Phrase source .statement row (.stmt (.declaration (rowSite source row) (id.toName source) e))
  | functionWithoutParams {functionWord id lpar rpar equal semicolon : Token} {row w : List Token}
      {e : Expr}
      (hmarks : [functionWord, id, lpar, rpar, equal, semicolon].map (·.terminal) =
        [.functionWord, .name, .lpar, .rpar, .equal, .semicolon])
      (he : Phrase source .exp w (.expr e))
      (hrow : row = [functionWord, id, lpar, rpar, equal] ++ w ++ [semicolon]) :
      Phrase source .statement row
        (.stmt (.function (rowSite source row) (id.toName source) [] e))
  | function {functionWord id lpar rpar equal semicolon : Token} {row w u : List Token}
      {ids : List Name} {e : Expr}
      (hmarks : [functionWord, id, lpar, rpar, equal, semicolon].map (·.terminal) =
        [.functionWord, .name, .lpar, .rpar, .equal, .semicolon])
      (hids : Phrase source .params u (.names ids)) (he : Phrase source .exp w (.expr e))
      (hrow : row = [functionWord, id, lpar] ++ u ++ [rpar, equal] ++ w ++ [semicolon]) :
      Phrase source .statement row
        (.stmt (.function (rowSite source row) (id.toName source) ids e))
  | assignment {id equal semicolon : Token} {row w : List Token} {e : Expr}
      (hmarks : [id, equal, semicolon].map (·.terminal) = [.name, .equal, .semicolon])
      (he : Phrase source .exp w (.expr e)) (hrow : row = [id, equal] ++ w ++ [semicolon]) :
      Phrase source .statement row (.stmt (.assignment (rowSite source row) (id.toName source) e))
  | print {printWord semicolon : Token} {row w : List Token} {e : Expr}
      (hmarks : [printWord, semicolon].map (·.terminal) = [.printWord, .semicolon])
      (he : Phrase source .exp w (.expr e)) (hrow : row = [printWord] ++ w ++ [semicolon]) :
      Phrase source .statement row (.stmt (.print (rowSite source row) e))
  | loop {whileWord : Token} {row w u : List Token} {e : Expr} {body : Block}
      (hmark : whileWord.terminal = .whileWord) (he : Phrase source .exp w (.expr e))
      (hbody : Phrase source .block u (.block body)) (hrow : row = [whileWord] ++ w ++ u) :
      Phrase source .statement row (.stmt (.loop (rowSite source row) e body))
  | block {lbrace rbrace : Token} {row w : List Token} {ss : List Stmt}
      (hmarks : [lbrace, rbrace].map (·.terminal) = [.lbrace, .rbrace])
      (hss : Phrase source .statements w (.stmts ss)) (hrow : row = [lbrace] ++ w ++ [rbrace]) :
      Phrase source .block row (.block (.mk (rowSite source row) ss))
  -- Parameters: a name, and more of them after commas.
  | params {id : Token} {row u : List Token} {ids : List Name} (hmark : id.terminal = .name)
      (hmore : Phrase source .moreParams u (.names ids)) (hrow : row = [id] ++ u) :
      Phrase source .params row (.names (id.toName source :: ids))
  | noMoreParams : Phrase source .moreParams [] (.names [])
  | nextParam {comma id : Token} {row u : List Token} {ids : List Name}
      (hmarks : [comma, id].map (·.terminal) = [.comma, .name])
      (hids : Phrase source .moreParams u (.names ids)) (hrow : row = u ++ [comma, id]) :
      Phrase source .moreParams row (.names (ids ++ [id.toName source]))
  -- Expressions, from the loosest level to the tightest.
  | conditional {qmark colon : Token} {row u v w : List Token} {test consequent alternate : Expr}
      (hmarks : [qmark, colon].map (·.terminal) = [.qmark, .colon])
      (htest : Phrase source .disjunction u (.expr test))
      (hconsequent : Phrase source .disjunction v (.expr consequent))
      (halternate : Phrase source .exp w (.expr alternate))
      (hrow : row = u ++ [qmark] ++ v ++ [colon] ++ w) :
      Phrase source .exp row (.expr (.conditional (rowSite source row) test consequent alternate))
  | tighter {level inner : Nonterminal} {row : List Token} {e : Expr}
      (hlevel : level.tighter? = some inner) (he : Phrase source inner row (.expr e)) :
      Phrase source level row (.expr e)
  | binary {level left right : Nonterminal} {op : Token} {row u v : List Token} {a b : Expr}
      (hlevel : level.operands? op.terminal = some (left, right))
      (ha : Phrase source left u (.expr a)) (hb : Phrase source right v (.expr b))
      (hrow : row = u ++ [op] ++ v) :
      Phrase source level row (.expr (.binary (rowSite source row) op.word a b))
  | unary {op : Token} {row w : List Token} {e : Expr}
      (hmark : op.terminal = .minus ∨ op.terminal = .bang) (he : Phrase source .unary w (.expr e))
      (hrow : row = [op] ++ w) :
      Phrase source .unary row (.expr (.unary (rowSite source row) op.word e))
  | subscript {lsqb rsqb : Token} {row u v : List Token} {base index : Expr}
      (hmarks : [lsqb, rsqb].map (·.terminal) = [.lsqb, .rsqb])
      (hbase : Phrase source .suffixed u (.expr base)) (hindex : Phrase source .exp v (.expr index))
      (hrow : row = u ++ [lsqb] ++ v ++ [rsqb]) :
      Phrase source .suffixed row (.expr (.subscript (rowSite source row) base index))
  | numeral {token : Token} (hmark : token.terminal = .numeral) :
      Phrase source .primary [token]
        (.expr (.numeral (rowSite source [token]) (Number.numeralValue token.text)))
  | trueLiteral {token : Token} (hmark : token.terminal = .trueWord) :
      Phrase source .primary [token] (.expr (.boolean (rowSite source [token]) true))
  | falseLiteral {token : Token} (hmark : token.terminal = .falseWord) :
      Phrase source .primary [token] (.expr (.boolean (rowSite source [token]) false))
  | name {id : Token} (hmark : id.terminal = .name) :
      Phrase source .primary [id] (.expr (.name (id.toName source)))
  | callWithoutArgs {id lpar rpar : Token} {row : List Token}
      (hmarks : [id, lpar, rpar].map (·.terminal) = [.name, .lpar, .rpar])
      (hrow : row = [id, lpar, rpar]) :
      Phrase source .primary row (.expr (.call (rowSite source row) (id.toName source) []))
  | call {id lpar rpar : Token} {row u : List Token} {es : List Expr}
      (hmarks : [id, lpar, rpar].map (·.terminal) = [.name, .lpar, .rpar])
      (hes : Phrase source .args u (.exprs es)) (hrow : row = [id, lpar] ++ u ++ [rpar]) :
      Phrase source .primary row (.expr (.call (rowSite source row) (id.toName source) es))
  | emptyArray {lsqb rsqb : Token} {row : List Token}
      (hmarks : [lsqb, rsqb].map (·.terminal) = [.lsqb, .rsqb]) (hrow : row = [lsqb, rsqb]) :
      Phrase source .primary row (.expr (.array (rowSite source row) []))
  | array {lsqb rsqb : Token} {row u : List Token} {es : List Expr}
      (hmarks : [lsqb, rsqb].map (·.terminal) = [.lsqb, .rsqb])
      (hes : Phrase source .args u (.exprs es)) (hrow : row = [lsqb] ++ u ++ [rsqb]) :
      Phrase source .primary row (.expr (.array (rowSite source row) es))
  | parenthesised {lpar rpar : Token} {row w : List Token} {e : Expr}
      (hmarks : [lpar, rpar].map (·.terminal) = [.lpar, .rpar])
      (he : Phrase source .exp w (.expr e)) (hrow : row = [lpar] ++ w ++ [rpar]) :
      Phrase source .primary row (.expr e)
  -- Arguments and elements: an expression, and more of them after commas.
  | args {row u v : List Token} {e : Expr} {es : List Expr} (he : Phrase source .exp u (.expr e))
      (hmore : Phrase source .moreArgs v (.exprs es)) (hrow : row = u ++ v) :
      Phrase source .args row (.exprs (e :: es))
  | noMoreArgs : Phrase source .moreArgs [] (.exprs [])
  | nextArg {comma : Token} {row u v : List Token} {es : List Expr} {e : Expr}
      (hmark : comma.terminal = .comma) (hes : Phrase source .moreArgs u (.exprs es))
      (he : Phrase source .exp v (.expr e)) (hrow : row = u ++ [comma] ++ v) :
      Phrase source .moreArgs row (.exprs (es ++ [e]))

/-- A row of tokens is a program of the language, and stands for a tree. -/
def ProgramPhrase (source : String) (row : List Token) (program : Program) : Prop :=
  Phrase source .program row (.block program.block)

/-! ## A grammatical derivation stands where its tokens stand -/

theorem getLastD_append (row rest : List Token) (token : Token) :
    (row ++ rest).getLastD token = rest.getLastD (row.getLastD token) := by
  simp only [List.getLastD_eq_getLast?, List.getLast?_append]
  cases rest.getLast? <;> rfl

/-- Over several rows the last token counts that there is. -/
theorem foldl_rowExtent_stop (rows : List (List Token)) (token : Token) {e : Extent}
    (h : e.stop = token.extent.stop) :
    ((rows.map rowExtent).foldl (fun last e => e.getD last) e).stop =
      (rows.flatten.getLastD token).extent.stop := by
  induction rows generalizing token e with
  | nil => exact h
  | cons row others ih =>
    rw [List.flatten_cons, getLastD_append]
    cases row with
    | nil => exact ih token h
    | cons first rest =>
      rw [List.getLastD_cons]
      exact ih (rest.getLastD first) rfl

theorem joinExtents_map_rowExtent (rows : List (List Token)) :
    joinExtents (rows.map rowExtent) = rowExtent rows.flatten := by
  induction rows with
  | nil => rfl
  | cons row others ih =>
    cases row with
    | nil => exact ih
    | cons first rest =>
      have hstop := foldl_rowExtent_stop others (rest.getLastD first)
        (e := first.extent.through (rest.getLastD first).extent) rfl
      rw [List.map_cons, rowExtent, joinExtents, List.flatten_cons, List.cons_append, rowExtent,
        getLastD_append, Extent.through, hstop]
      rfl

theorem Derivation.IsGrammatical.extent_eq {d : Derivation} (h : d.IsGrammatical) :
    d.extent? = rowExtent d.tokens := by
  induction h with
  | leaf token => rfl
  | ofRule rule children hsymbols hchildren ih =>
    rw [tokens_ofRule, List.flatMap_def, ← joinExtents_map_rowExtent, List.map_map]
    exact congrArg joinExtents (List.map_congr_left ih)

/-! ## Rows of expressions, names and statements -/

theorem Derivation.toExprs_append (source : String) :
    ∀ (d : Derivation) (following : List Expr),
      d.toExprs source following = d.toExprs source [] ++ following
  | .leaf _, _ => rfl
  | .node rule extent children, following => by
    rw [toExprs.eq_def, toExprs.eq_def source (.node rule extent children)]
    dsimp only
    split
    · rfl
    · rename_i e more
      exact congrArg _ (toExprs_append source more following)
    · rfl
    · rename_i more comma e
      rw [toExprs_append source more, toExprs_append source more [_], List.append_assoc]
      rfl
    · rfl

theorem Derivation.toNames_append (source : String) :
    ∀ (d : Derivation) (following : List Name),
      d.toNames source following = d.toNames source [] ++ following
  | .leaf _, _ => rfl
  | .node rule extent children, following => by
    rw [toNames.eq_def, toNames.eq_def source (.node rule extent children)]
    dsimp only
    split
    · rfl
    · rename_i id more
      exact congrArg _ (toNames_append source more following)
    · rfl
    · rename_i more comma id
      rw [toNames_append source more, toNames_append source more [_], List.append_assoc]
      rfl
    · rfl

theorem Derivation.toStmts_append (source : String) :
    ∀ (d : Derivation) (following : List Stmt),
      d.toStmts source following = d.toStmts source [] ++ following
  | .leaf _, _ => rfl
  | .node rule extent children, following => by
    rw [toStmts.eq_def, toStmts.eq_def source (.node rule extent children)]
    dsimp only
    split
    · rfl
    · rename_i more s
      rw [toStmts_append source more, toStmts_append source more [_], List.append_assoc]
      rfl
    · rfl

/-- What a derivation of a kind of phrase is read as. -/
def Derivation.piece (source : String) (d : Derivation) : Nonterminal → Piece
  | .program | .block => .block (d.toBlock source)
  | .statements => .stmts (d.toStmts source [])
  | .statement => .stmt (d.toStmt source)
  | .params | .moreParams => .names (d.toNames source [])
  | .args | .moreArgs => .exprs (d.toExprs source [])
  | .exp | .disjunction | .conjunction | .comparison | .sum | .product | .unary | .power
  | .suffixed | .primary => .expr (d.toExpr source)

/-! ## From derivations to phrases -/

theorem Derivation.symbol_eq_token {d : Derivation} {t : Terminal} :
    d.symbol = .token t ↔ ∃ token, d = .leaf token ∧ token.terminal = t :=
  ⟨exists_leaf, fun ⟨_, hd, ht⟩ => by rw [hd, symbol, ht]⟩

section

variable {source : String} {rule : Rule} {children : List Derivation}

open BellaLang.Derivation

/-- Every part of a rule is a phrase, read as the tree that is made from it. -/
def PartsRead (source : String) (children : List Derivation) : Prop :=
  ∀ child ∈ children, ∀ {n : Nonterminal}, child.symbol = .phrase n →
    Phrase source n child.tokens (child.piece source n)

variable (hsymbols : children.map Derivation.symbol = rule.rhs)
  (hsite : siteIn source (joinExtents (children.map extent?)) =
    rowSite source (children.flatMap tokens))
  (ih : PartsRead source children)

include hsymbols hsite ih

/-- The levels of precedence, from the loosest to subscripts. -/
theorem phrase_operation
    (hlhs : rule.lhs ∈ [.exp, .disjunction, .conjunction, .comparison, .sum, .product, .unary,
      .power, .suffixed]) :
    Phrase source rule.lhs (children.flatMap tokens)
      ((Derivation.ofRule rule children).piece source rule.lhs) := by
  cases rule
  all_goals
    first
    | exact absurd hlhs (by decide)
    | simp only [Rule.rhs, List.map_eq_cons_iff, List.map_eq_nil_iff, symbol_eq_token] at hsymbols
  case disjunctionAlone | conjunctionAlone | comparisonAlone | sumAlone | productAlone
      | unaryAlone | powerAlone | suffixedAlone | primaryAlone =>
    obtain ⟨inner, _, rfl, hinner, rfl⟩ := hsymbols
    rw [List.flatMap_singleton]
    exact .tighter rfl (ih inner List.mem_cons_self hinner)
  -- The operators differ only in the levels of their operands.
  case or | and | compare | add | subtract | multiply | divide | remainder | power =>
    obtain ⟨a, _, rfl, ha, _, _, rfl, ⟨op, rfl, hop⟩, b, _, rfl, hb, rfl⟩ := hsymbols
    show Phrase source _ _ (.expr (.binary (siteIn source (joinExtents _)) _ _ _))
    rw [hsite]
    exact .binary (by rw [hop]; rfl) (ih a (by simp) ha) (ih b (by simp) hb) (by simp [tokens])
  case negate | not =>
    obtain ⟨_, _, rfl, ⟨op, rfl, hop⟩, operand, _, rfl, hoperand, rfl⟩ := hsymbols
    have hmark : op.terminal = .minus ∨ op.terminal = .bang := by simp [hop]
    show Phrase source _ _ (.expr (.unary (siteIn source (joinExtents _)) _ _))
    rw [hsite]
    exact .unary hmark (ih operand (by simp) hoperand) (by simp [tokens])
  case conditional =>
    obtain ⟨test, _, rfl, htest, _, _, rfl, ⟨qmark, rfl, hqmark⟩, consequent, _, rfl,
      hconsequent, _, _, rfl, ⟨colon, rfl, hcolon⟩, alternate, _, rfl, halternate, rfl⟩ :=
      hsymbols
    have hmarks : [qmark, colon].map (·.terminal) = [.qmark, .colon] := by simp [hqmark, hcolon]
    show Phrase source _ _ (.expr (.conditional (siteIn source (joinExtents _)) _ _ _))
    rw [hsite]
    exact .conditional hmarks (ih test (by simp) htest) (ih consequent (by simp) hconsequent)
      (ih alternate (by simp) halternate) (by simp [tokens])
  case subscript =>
    obtain ⟨base, _, rfl, hbase, _, _, rfl, ⟨lsqb, rfl, hlsqb⟩, index, _, rfl, hindex, _, _, rfl,
      ⟨rsqb, rfl, hrsqb⟩, rfl⟩ := hsymbols
    have hmarks : [lsqb, rsqb].map (·.terminal) = [.lsqb, .rsqb] := by simp [hlsqb, hrsqb]
    show Phrase source _ _ (.expr (.subscript (siteIn source (joinExtents _)) _ _))
    rw [hsite]
    exact .subscript hmarks (ih base (by simp) hbase) (ih index (by simp) hindex)
      (by simp [tokens])

/-- Literals, names, calls, arrays and parentheses. -/
theorem phrase_primary (hlhs : rule.lhs ∈ [.primary]) :
    Phrase source rule.lhs (children.flatMap tokens)
      ((Derivation.ofRule rule children).piece source rule.lhs) := by
  cases rule
  all_goals
    first
    | exact absurd hlhs (by decide)
    | simp only [Rule.rhs, List.map_eq_cons_iff, List.map_eq_nil_iff, symbol_eq_token] at hsymbols
  case numeral =>
    obtain ⟨_, _, rfl, ⟨token, rfl, hmark⟩, rfl⟩ := hsymbols
    exact .numeral hmark
  case trueLiteral =>
    obtain ⟨_, _, rfl, ⟨token, rfl, hmark⟩, rfl⟩ := hsymbols
    exact .trueLiteral hmark
  case falseLiteral =>
    obtain ⟨_, _, rfl, ⟨token, rfl, hmark⟩, rfl⟩ := hsymbols
    exact .falseLiteral hmark
  case name =>
    obtain ⟨_, _, rfl, ⟨id, rfl, hmark⟩, rfl⟩ := hsymbols
    exact .name hmark
  case callWithoutArgs =>
    obtain ⟨_, _, rfl, ⟨id, rfl, hid⟩, _, _, rfl, ⟨lpar, rfl, hlpar⟩, _, _, rfl,
      ⟨rpar, rfl, hrpar⟩, rfl⟩ := hsymbols
    have hmarks : [id, lpar, rpar].map (·.terminal) = [.name, .lpar, .rpar] := by
      simp [hid, hlpar, hrpar]
    show Phrase source _ _ (.expr (.call (siteIn source (joinExtents _)) _ _))
    rw [hsite]
    exact .callWithoutArgs hmarks rfl
  case call =>
    obtain ⟨_, _, rfl, ⟨id, rfl, hid⟩, _, _, rfl, ⟨lpar, rfl, hlpar⟩, args, _, rfl, hargs,
      _, _, rfl, ⟨rpar, rfl, hrpar⟩, rfl⟩ := hsymbols
    have hmarks : [id, lpar, rpar].map (·.terminal) = [.name, .lpar, .rpar] := by
      simp [hid, hlpar, hrpar]
    show Phrase source _ _ (.expr (.call (siteIn source (joinExtents _)) _ _))
    rw [hsite]
    exact .call hmarks (ih args (by simp) hargs) (by simp [tokens])
  case emptyArray =>
    obtain ⟨_, _, rfl, ⟨lsqb, rfl, hlsqb⟩, _, _, rfl, ⟨rsqb, rfl, hrsqb⟩, rfl⟩ := hsymbols
    have hmarks : [lsqb, rsqb].map (·.terminal) = [.lsqb, .rsqb] := by simp [hlsqb, hrsqb]
    show Phrase source _ _ (.expr (.array (siteIn source (joinExtents _)) _))
    rw [hsite]
    exact .emptyArray hmarks rfl
  case array =>
    obtain ⟨_, _, rfl, ⟨lsqb, rfl, hlsqb⟩, args, _, rfl, hargs, _, _, rfl,
      ⟨rsqb, rfl, hrsqb⟩, rfl⟩ := hsymbols
    have hmarks : [lsqb, rsqb].map (·.terminal) = [.lsqb, .rsqb] := by simp [hlsqb, hrsqb]
    show Phrase source _ _ (.expr (.array (siteIn source (joinExtents _)) _))
    rw [hsite]
    exact .array hmarks (ih args (by simp) hargs) (by simp [tokens])
  case parenthesised =>
    obtain ⟨_, _, rfl, ⟨lpar, rfl, hlpar⟩, inner, _, rfl, hinner, _, _, rfl,
      ⟨rpar, rfl, hrpar⟩, rfl⟩ := hsymbols
    have hmarks : [lpar, rpar].map (·.terminal) = [.lpar, .rpar] := by simp [hlpar, hrpar]
    exact .parenthesised hmarks (ih inner (by simp) hinner) (by simp [tokens])

/-- Rows of arguments, of parameters and of statements. -/
theorem phrase_row (hlhs : rule.lhs ∈ [.args, .moreArgs, .params, .moreParams, .statements]) :
    Phrase source rule.lhs (children.flatMap tokens)
      ((Derivation.ofRule rule children).piece source rule.lhs) := by
  cases rule
  all_goals
    first
    | exact absurd hlhs (by decide)
    | simp only [Rule.rhs, List.map_eq_cons_iff, List.map_eq_nil_iff, symbol_eq_token] at hsymbols
  case oneArg =>
    obtain ⟨e, _, rfl, he, rfl⟩ := hsymbols
    exact .args (ih e (by simp) he) .noMoreArgs (by simp)
  case severalArgs =>
    obtain ⟨e, _, rfl, he, more, _, rfl, hmore, rfl⟩ := hsymbols
    exact .args (ih e (by simp) he) (ih more (by simp) hmore) (by simp)
  case secondArg =>
    obtain ⟨_, _, rfl, ⟨comma, rfl, hcomma⟩, e, _, rfl, he, rfl⟩ := hsymbols
    exact .nextArg hcomma .noMoreArgs (ih e (by simp) he) (by simp [tokens])
  case nextArg =>
    obtain ⟨more, _, rfl, hmore, _, _, rfl, ⟨comma, rfl, hcomma⟩, e, _, rfl, he, rfl⟩ := hsymbols
    show Phrase source _ _ (.exprs (more.toExprs source [_]))
    rw [toExprs_append]
    exact .nextArg hcomma (ih more (by simp) hmore) (ih e (by simp) he) (by simp [tokens])
  case oneParam =>
    obtain ⟨_, _, rfl, ⟨id, rfl, hid⟩, rfl⟩ := hsymbols
    exact .params hid .noMoreParams rfl
  case severalParams =>
    obtain ⟨_, _, rfl, ⟨id, rfl, hid⟩, more, _, rfl, hmore, rfl⟩ := hsymbols
    exact .params hid (ih more (by simp) hmore) (by simp [tokens])
  case secondParam =>
    obtain ⟨_, _, rfl, ⟨comma, rfl, hcomma⟩, _, _, rfl, ⟨id, rfl, hid⟩, rfl⟩ := hsymbols
    have hmarks : [comma, id].map (·.terminal) = [.comma, .name] := by simp [hcomma, hid]
    exact .nextParam hmarks .noMoreParams rfl
  case nextParam =>
    obtain ⟨more, _, rfl, hmore, _, _, rfl, ⟨comma, rfl, hcomma⟩, _, _, rfl,
      ⟨id, rfl, hid⟩, rfl⟩ := hsymbols
    have hmarks : [comma, id].map (·.terminal) = [.comma, .name] := by simp [hcomma, hid]
    show Phrase source _ _ (.names (more.toNames source [_]))
    rw [toNames_append]
    exact .nextParam hmarks (ih more (by simp) hmore) (by simp [tokens])
  case firstStatement =>
    obtain ⟨s, _, rfl, hs, rfl⟩ := hsymbols
    exact .nextStatement .noStatements (ih s (by simp) hs) (by simp)
  case nextStatement =>
    obtain ⟨ss, _, rfl, hss, s, _, rfl, hs, rfl⟩ := hsymbols
    show Phrase source _ _ (.stmts (ss.toStmts source [_]))
    rw [toStmts_append]
    exact .nextStatement (ih ss (by simp) hss) (ih s (by simp) hs) (by simp)

/-- Statements, blocks and programs. -/
theorem phrase_statement (hlhs : rule.lhs ∈ [.statement, .block, .program]) :
    Phrase source rule.lhs (children.flatMap tokens)
      ((Derivation.ofRule rule children).piece source rule.lhs) := by
  cases rule
  all_goals
    first
    | exact absurd hlhs (by decide)
    | simp only [Rule.rhs, List.map_eq_cons_iff, List.map_eq_nil_iff, symbol_eq_token] at hsymbols
  case declaration =>
    obtain ⟨_, _, rfl, ⟨letWord, rfl, hlet⟩, _, _, rfl, ⟨id, rfl, hid⟩, _, _, rfl,
      ⟨equal, rfl, hequal⟩, e, _, rfl, he, _, _, rfl, ⟨semicolon, rfl, hsemicolon⟩, rfl⟩ :=
      hsymbols
    have hmarks : [letWord, id, equal, semicolon].map (·.terminal) =
        [.letWord, .name, .equal, .semicolon] := by simp [hlet, hid, hequal, hsemicolon]
    show Phrase source _ _ (.stmt (.declaration (siteIn source (joinExtents _)) _ _))
    rw [hsite]
    exact .declaration hmarks (ih e (by simp) he) (by simp [tokens])
  case functionWithoutParams =>
    obtain ⟨_, _, rfl, ⟨functionWord, rfl, hfunction⟩, _, _, rfl, ⟨id, rfl, hid⟩, _, _, rfl,
      ⟨lpar, rfl, hlpar⟩, _, _, rfl, ⟨rpar, rfl, hrpar⟩, _, _, rfl, ⟨equal, rfl, hequal⟩,
      e, _, rfl, he, _, _, rfl, ⟨semicolon, rfl, hsemicolon⟩, rfl⟩ := hsymbols
    have hmarks : [functionWord, id, lpar, rpar, equal, semicolon].map (·.terminal) =
        [.functionWord, .name, .lpar, .rpar, .equal, .semicolon] := by
      simp [hfunction, hid, hlpar, hrpar, hequal, hsemicolon]
    show Phrase source _ _ (.stmt (.function (siteIn source (joinExtents _)) _ _ _))
    rw [hsite]
    exact .functionWithoutParams hmarks (ih e (by simp) he) (by simp [tokens])
  case function =>
    obtain ⟨_, _, rfl, ⟨functionWord, rfl, hfunction⟩, _, _, rfl, ⟨id, rfl, hid⟩, _, _, rfl,
      ⟨lpar, rfl, hlpar⟩, params, _, rfl, hparams, _, _, rfl, ⟨rpar, rfl, hrpar⟩, _, _, rfl,
      ⟨equal, rfl, hequal⟩, e, _, rfl, he, _, _, rfl, ⟨semicolon, rfl, hsemicolon⟩, rfl⟩ :=
      hsymbols
    have hmarks : [functionWord, id, lpar, rpar, equal, semicolon].map (·.terminal) =
        [.functionWord, .name, .lpar, .rpar, .equal, .semicolon] := by
      simp [hfunction, hid, hlpar, hrpar, hequal, hsemicolon]
    show Phrase source _ _ (.stmt (.function (siteIn source (joinExtents _)) _ _ _))
    rw [hsite]
    exact .function hmarks (ih params (by simp) hparams) (ih e (by simp) he) (by simp [tokens])
  case assignment =>
    obtain ⟨_, _, rfl, ⟨id, rfl, hid⟩, _, _, rfl, ⟨equal, rfl, hequal⟩, e, _, rfl, he, _, _, rfl,
      ⟨semicolon, rfl, hsemicolon⟩, rfl⟩ := hsymbols
    have hmarks : [id, equal, semicolon].map (·.terminal) = [.name, .equal, .semicolon] := by
      simp [hid, hequal, hsemicolon]
    show Phrase source _ _ (.stmt (.assignment (siteIn source (joinExtents _)) _ _))
    rw [hsite]
    exact .assignment hmarks (ih e (by simp) he) (by simp [tokens])
  case print =>
    obtain ⟨_, _, rfl, ⟨printWord, rfl, hprint⟩, e, _, rfl, he, _, _, rfl,
      ⟨semicolon, rfl, hsemicolon⟩, rfl⟩ := hsymbols
    have hmarks : [printWord, semicolon].map (·.terminal) = [.printWord, .semicolon] := by
      simp [hprint, hsemicolon]
    show Phrase source _ _ (.stmt (.print (siteIn source (joinExtents _)) _))
    rw [hsite]
    exact .print hmarks (ih e (by simp) he) (by simp [tokens])
  case loop =>
    obtain ⟨_, _, rfl, ⟨whileWord, rfl, hmark⟩, e, _, rfl, he, body, _, rfl, hbody, rfl⟩ :=
      hsymbols
    show Phrase source _ _ (.stmt (.loop (siteIn source (joinExtents _)) _ _))
    rw [hsite]
    exact .loop hmark (ih e (by simp) he) (ih body (by simp) hbody) (by simp [tokens])
  case emptyBlock =>
    obtain ⟨_, _, rfl, ⟨lbrace, rfl, hlbrace⟩, _, _, rfl, ⟨rbrace, rfl, hrbrace⟩, rfl⟩ := hsymbols
    have hmarks : [lbrace, rbrace].map (·.terminal) = [.lbrace, .rbrace] := by
      simp [hlbrace, hrbrace]
    show Phrase source _ _ (.block (.mk (siteIn source (joinExtents _)) _))
    rw [hsite]
    exact .block hmarks .noStatements rfl
  case block =>
    obtain ⟨_, _, rfl, ⟨lbrace, rfl, hlbrace⟩, ss, _, rfl, hss, _, _, rfl,
      ⟨rbrace, rfl, hrbrace⟩, rfl⟩ := hsymbols
    have hmarks : [lbrace, rbrace].map (·.terminal) = [.lbrace, .rbrace] := by
      simp [hlbrace, hrbrace]
    show Phrase source _ _ (.block (.mk (siteIn source (joinExtents _)) _))
    rw [hsite]
    exact .block hmarks (ih ss (by simp) hss) (by simp [tokens])
  case emptyProgram =>
    obtain rfl := hsymbols
    exact .program .noStatements
  case program =>
    obtain ⟨ss, _, rfl, hss, rfl⟩ := hsymbols
    show Phrase source _ _ (.block (.mk (siteIn source (joinExtents _)) _))
    rw [hsite, List.flatMap_singleton]
    exact .program (ih ss (by simp) hss)

end

/-- **Every grammatical derivation is a phrase**, read as the tree that is made from it. -/
theorem Derivation.IsGrammatical.phrase (source : String) {d : Derivation} (h : d.IsGrammatical)
    {n : Nonterminal} (hn : d.symbol = .phrase n) :
    Phrase source n d.tokens (d.piece source n) := by
  induction h generalizing n with
  | leaf token => cases hn
  | ofRule rule children hsymbols hchildren ih =>
    obtain rfl : rule.lhs = n := GrammarSymbol.phrase.inj hn
    have hsite : siteIn source (joinExtents (children.map extent?)) =
        rowSite source (children.flatMap tokens) := by
      rw [← tokens_ofRule rule]
      exact congrArg (siteIn source)
        (IsGrammatical.ofRule rule children hsymbols hchildren).extent_eq
    have hparts : PartsRead source children := fun child hchild => ih child hchild
    rw [tokens_ofRule]
    -- Every kind of phrase belongs to one of the four groups.
    cases hlhs : rule.lhs <;> rw [← hlhs] <;> first
      | exact phrase_operation hsymbols hsite hparts (by rw [hlhs]; decide)
      | exact phrase_primary hsymbols hsite hparts (by rw [hlhs]; decide)
      | exact phrase_row hsymbols hsite hparts (by rw [hlhs]; decide)
      | exact phrase_statement hsymbols hsite hparts (by rw [hlhs]; decide)

end BellaLang
