import BellaLang.Proofs.Grammar.Phrases
import BellaLang.Proofs.Syntax.Nodes

/-!
Building trees with constructors that check what they are given.

`Derivation.toProgram` is total, and puts something in the place of whatever does not fit.  Here the
same trees are built another way.  The parts of a rule are built first, and come to pieces of syntax
of any sort; then the constructor of the rule is handed these pieces, and insists on a name, an
expression, a statement or a block where one of these has to stand (`Rule.construct?`).  If it is
handed something else, nothing is built at all.

Of a grammatical derivation the checks let everything pass, and what is built is the tree that the
derivation is read as (`IsGrammatical.build?_eq`).  The proof is an induction on the derivation:
each part is built by hypothesis, so its sort is known from its symbol, and one look at each rule is
enough.
-/

namespace BellaLang

/-! ## Constructors that check -/

namespace Node

/-- A call; what is called has to be a name. -/
def call? (site : Site) (callee : Node) (args : List Node) : Option Node :=
  callee.name?.map fun id => .expression (.call site id (args.map toExpr))

/-- An array; its elements have to be expressions. -/
def array? (site : Site) (elements : List Node) : Option Node :=
  (elements.mapM expression?).map fun es => .expression (.array site es)

/-- A declaration; what is declared has to be a name. -/
def declaration? (site : Site) (id value : Node) : Option Node :=
  id.name?.map fun id => .statement (.declaration site id value.toExpr)

/-- An assignment; what is assigned to has to be a name. -/
def assignment? (site : Site) (id value : Node) : Option Node :=
  id.name?.map fun id => .statement (.assignment site id value.toExpr)

/-- The declaration of a function; it has to be a name, and so do its parameters. -/
def function? (site : Site) (id : Node) (params : List Node) (body : Node) : Option Node := do
  let id ← id.name?
  let params ← params.mapM name?
  return .statement (.function site id params body.toExpr)

/-- A block; its members have to be statements. -/
def blockOf? (site : Site) (members : List Node) : Option Node :=
  (members.mapM statement?).map fun ss => .statement (.block (.mk site ss))

/-- A loop; its body has to be a block. -/
def loop? (site : Site) (test body : Node) : Option Node :=
  body.block?.map fun body => .statement (.loop site test.toExpr body)

/-- A program; it has to be a block. -/
def programOf? (body : Node) : Option Node := body.block?.map .program

end Node

/-! ## What the checks let pass -/

/-- A check that lets everything pass that has been wrapped for it. -/
theorem mapM_map_of_check {α β : Type} (wrap : α → β) (check : β → Option α)
    (h : ∀ a, check (wrap a) = some a) (as : List α) : (as.map wrap).mapM check = some as := by
  induction as with
  | nil => rfl
  | cons a rest ih => rw [List.map_cons, List.mapM_cons, h, ih]; rfl

theorem Node.array?_map (site : Site) (es : List Expr) :
    array? site (es.map .expression) = some (.expression (.array site es)) := by
  have hcheck := mapM_map_of_check expression expression? (fun _ => rfl) es
  rw [array?, hcheck, Option.map_some]

theorem Node.blockOf?_map (site : Site) (ss : List Stmt) :
    blockOf? site (ss.map .statement) = some (.statement (.block (.mk site ss))) := by
  have hcheck := mapM_map_of_check statement statement? (fun _ => rfl) ss
  rw [blockOf?, hcheck, Option.map_some]

theorem Node.function?_map (site : Site) (id : Name) (ids : List Name) (body : Expr) :
    function? site (.expression (.name id)) (ids.map fun id => .expression (.name id))
      (.expression body) = some (.statement (.function site id ids body)) := by
  have hcheck := mapM_map_of_check (fun id => expression (.name id)) name? (fun _ => rfl) ids
  rw [function?, hcheck]
  rfl

theorem Node.map_toExpr_map (es : List Expr) : (es.map expression).map toExpr = es := by
  rw [List.map_map]
  exact List.map_id es

theorem Node.call?_map (site : Site) (callee : Name) (es : List Expr) :
    call? site (.expression (.name callee)) (es.map .expression) =
      some (.expression (.call site callee es)) := by
  rw [call?, map_toExpr_map]
  rfl

/-! ## Building -/

/-- What is handed to the constructor of a rule: the name that a token spells, a token that is an
    operator or a numeral, or what a phrase comes to.  Rows come to several pieces. -/
inductive Part where
  | name (id : Name)
  | token (token : Token)
  | node (piece : Node)
  | row (pieces : List Node)

/-- What a token comes to.  Words of the language and punctuation are not handed on. -/
def Token.parts (source : String) (token : Token) : List Part :=
  match token.terminal with
  | .name => [.name (token.toName source)]
  | .numeral | .relop | .or | .and | .pow | .plus | .minus | .star | .slash | .percent | .bang =>
    [.token token]
  | _ => []

/-- What is built by a rule from its parts, if the parts are of the right sorts. -/
def Rule.construct? (site : Site) : Rule → List Part → Option Part
  | .emptyProgram, [] => do return .node (← (← Node.blockOf? site []).programOf?)
  | .program, [.row ss] => do return .node (← (← Node.blockOf? site ss).programOf?)
  | .emptyBlock, [] => (Node.blockOf? site []).map .node
  | .block, [.row ss] => (Node.blockOf? site ss).map .node
  | .declaration, [.name id, .node value] =>
    (Node.declaration? site (.ofName id) value).map .node
  | .functionWithoutParams, [.name id, .node body] =>
    (Node.function? site (.ofName id) [] body).map .node
  | .function, [.name id, .row params, .node body] =>
    (Node.function? site (.ofName id) params body).map .node
  | .assignment, [.name id, .node value] => (Node.assignment? site (.ofName id) value).map .node
  | .print, [.node value] => some (.node (.statement (.print site value.toExpr)))
  | .loop, [.node test, .node body] => (Node.loop? site test body).map .node
  | .oneParam, [.name id] | .secondParam, [.name id] => some (.row [.ofName id])
  | .severalParams, [.name id, .row more] => some (.row (.ofName id :: more))
  | .nextParam, [.row more, .name id] => some (.row (more ++ [.ofName id]))
  | .firstStatement, [.node piece] | .oneArg, [.node piece] | .secondArg, [.node piece] =>
    some (.row [piece])
  | .severalArgs, [.node piece, .row more] => some (.row (piece :: more))
  | .nextStatement, [.row more, .node piece] | .nextArg, [.row more, .node piece] =>
    some (.row (more ++ [piece]))
  | .conditional, [.node test, .node consequent, .node alternate] =>
    some (.node (.expression
      (.conditional site test.toExpr consequent.toExpr alternate.toExpr)))
  | .or, [.node left, .token op, .node right] | .and, [.node left, .token op, .node right]
  | .compare, [.node left, .token op, .node right] | .add, [.node left, .token op, .node right]
  | .subtract, [.node left, .token op, .node right]
  | .multiply, [.node left, .token op, .node right]
  | .divide, [.node left, .token op, .node right]
  | .remainder, [.node left, .token op, .node right]
  | .power, [.node left, .token op, .node right] =>
    some (.node (.expression (.binary site op.word left.toExpr right.toExpr)))
  | .negate, [.token op, .node operand] | .not, [.token op, .node operand] =>
    some (.node (.expression (.unary site op.word operand.toExpr)))
  | .subscript, [.node base, .node index] =>
    some (.node (.expression (.subscript site base.toExpr index.toExpr)))
  | .numeral, [.token token] =>
    some (.node (.expression (.numeral site (Number.numeralValue token.text))))
  | .trueLiteral, [] => some (.node (.expression (.boolean site true)))
  | .falseLiteral, [] => some (.node (.expression (.boolean site false)))
  | .callWithoutArgs, [.name callee] => (Node.call? site (.ofName callee) []).map .node
  | .call, [.name callee, .row args] => (Node.call? site (.ofName callee) args).map .node
  | .name, [.name id] => some (.node (.ofName id))
  | .emptyArray, [] => (Node.array? site []).map .node
  | .array, [.row elements] => (Node.array? site elements).map .node
  | .parenthesised, [.node inner] | .disjunctionAlone, [.node inner]
  | .conjunctionAlone, [.node inner] | .comparisonAlone, [.node inner]
  | .sumAlone, [.node inner] | .productAlone, [.node inner] | .unaryAlone, [.node inner]
  | .powerAlone, [.node inner] | .suffixedAlone, [.node inner]
  | .primaryAlone, [.node inner] => some (.node inner)
  | _, _ => none

mutual

/-- What a derivation is built as, its parts first. -/
def Derivation.build? (source : String) : Derivation → Option (List Part)
  | .leaf token => some (token.parts source)
  | .node rule extent children =>
    (Derivation.buildAll? source children).bind fun parts =>
      (rule.construct? (siteIn source extent) parts).map ([·])

/-- What several derivations are built as, in a row. -/
def Derivation.buildAll? (source : String) : List Derivation → Option (List Part)
  | [] => some []
  | d :: rest => do return (← d.build? source) ++ (← Derivation.buildAll? source rest)

end

/-! ## What is built of a grammatical derivation -/

/-- A piece of a tree, as what a part comes to. -/
def Piece.toPart : Piece → Part
  | .expr e => .node (.expression e)
  | .exprs es => .row (es.map .expression)
  | .names ids => .row (ids.map fun id => .expression (.name id))
  | .stmt s => .node (.statement s)
  | .stmts ss => .row (ss.map .statement)
  | .block body => .node (.statement (.block body))

/-- What a derivation has to be built as: what it is read as. -/
def Derivation.parts (source : String) : Derivation → List Part
  | .leaf token => token.parts source
  | .node rule extent children =>
    let d : Derivation := .node rule extent children
    if rule.lhs = .program then [.node (.program (d.toBlock source))]
    else [(d.piece source rule.lhs).toPart]

theorem Derivation.parts_eq {d : Derivation} {n : Nonterminal} (source : String)
    (h : d.symbol = .phrase n) (hn : n ≠ .program) :
    d.parts source = [(d.piece source n).toPart] := by
  cases d with
  | leaf token => cases h
  | node rule extent children =>
    obtain rfl := GrammarSymbol.phrase.inj h
    exact if_neg hn

theorem Derivation.buildAll?_eq {source : String} {ds : List Derivation}
    (h : ∀ d ∈ ds, d.build? source = some (d.parts source)) :
    Derivation.buildAll? source ds = some (ds.flatMap (·.parts source)) := by
  induction ds with
  | nil => rfl
  | cons d rest ih =>
    rw [buildAll?, h d List.mem_cons_self, ih fun e he => h e (List.mem_cons_of_mem d he)]
    rfl

theorem Derivation.parts_leaf (source : String) (token : Token) :
    (Derivation.leaf token).parts source = token.parts source := rfl

section

variable (source : String) {rule : Rule} {children : List Derivation}
  (hsymbols : children.map Derivation.symbol = rule.rhs)

open Derivation

include hsymbols

/-- The levels of precedence, from the loosest to subscripts. -/
theorem construct?_operation
    (hlhs : rule.lhs ∈ [.exp, .disjunction, .conjunction, .comparison, .sum, .product, .unary,
      .power, .suffixed]) :
    (rule.construct? (siteIn source (joinExtents (children.map extent?)))
        (children.flatMap (·.parts source))).map ([·]) =
      some ((Derivation.ofRule rule children).parts source) := by
  cases rule
  all_goals
    first
    | exact absurd hlhs (by decide)
    | simp only [Rule.rhs, List.map_eq_cons_iff, List.map_eq_nil_iff, symbol_eq_token] at hsymbols
  case disjunctionAlone | conjunctionAlone | comparisonAlone | sumAlone | productAlone
      | unaryAlone | powerAlone | suffixedAlone | primaryAlone =>
    obtain ⟨inner, _, rfl, hinner, rfl⟩ := hsymbols
    rw [List.flatMap_singleton, parts_eq source hinner (by decide)]
    rfl
  case or | and | compare | add | subtract | multiply | divide | remainder | power =>
    obtain ⟨a, _, rfl, ha, _, _, rfl, ⟨op, rfl, hop⟩, b, _, rfl, hb, rfl⟩ := hsymbols
    simp only [List.flatMap_cons, List.flatMap_nil, parts_leaf, Token.parts, hop,
      parts_eq source ha (by decide), parts_eq source hb (by decide)]
    rfl
  case negate | not =>
    obtain ⟨_, _, rfl, ⟨op, rfl, hop⟩, operand, _, rfl, hoperand, rfl⟩ := hsymbols
    simp only [List.flatMap_cons, List.flatMap_nil, parts_leaf, Token.parts, hop,
      parts_eq source hoperand (by decide)]
    rfl
  case conditional =>
    obtain ⟨test, _, rfl, htest, _, _, rfl, ⟨qmark, rfl, hqmark⟩, consequent, _, rfl, hconsequent,
      _, _, rfl, ⟨colon, rfl, hcolon⟩, alternate, _, rfl, halternate, rfl⟩ := hsymbols
    simp only [List.flatMap_cons, List.flatMap_nil, parts_leaf, Token.parts, hqmark, hcolon,
      parts_eq source htest (by decide), parts_eq source hconsequent (by decide),
      parts_eq source halternate (by decide)]
    rfl
  case subscript =>
    obtain ⟨base, _, rfl, hbase, _, _, rfl, ⟨lsqb, rfl, hlsqb⟩, index, _, rfl, hindex, _, _, rfl,
      ⟨rsqb, rfl, hrsqb⟩, rfl⟩ := hsymbols
    simp only [List.flatMap_cons, List.flatMap_nil, parts_leaf, Token.parts, hlsqb, hrsqb,
      parts_eq source hbase (by decide), parts_eq source hindex (by decide)]
    rfl

/-- Literals, names, calls, arrays and parentheses. -/
theorem construct?_primary (hlhs : rule.lhs ∈ [.primary]) :
    (rule.construct? (siteIn source (joinExtents (children.map extent?)))
        (children.flatMap (·.parts source))).map ([·]) =
      some ((Derivation.ofRule rule children).parts source) := by
  cases rule
  all_goals
    first
    | exact absurd hlhs (by decide)
    | simp only [Rule.rhs, List.map_eq_cons_iff, List.map_eq_nil_iff, symbol_eq_token] at hsymbols
  case numeral | trueLiteral | falseLiteral | name =>
    obtain ⟨_, _, rfl, ⟨token, rfl, htoken⟩, rfl⟩ := hsymbols
    rw [List.flatMap_singleton, parts_leaf, Token.parts, htoken]
    rfl
  case callWithoutArgs =>
    obtain ⟨_, _, rfl, ⟨id, rfl, hid⟩, _, _, rfl, ⟨lpar, rfl, hlpar⟩, _, _, rfl,
      ⟨rpar, rfl, hrpar⟩, rfl⟩ := hsymbols
    simp only [List.flatMap_cons, List.flatMap_nil, parts_leaf, Token.parts, hid, hlpar, hrpar]
    rfl
  case call =>
    obtain ⟨_, _, rfl, ⟨id, rfl, hid⟩, _, _, rfl, ⟨lpar, rfl, hlpar⟩, args, _, rfl, hargs,
      _, _, rfl, ⟨rpar, rfl, hrpar⟩, rfl⟩ := hsymbols
    simp only [List.flatMap_cons, List.flatMap_nil, parts_leaf, Token.parts, hid, hlpar, hrpar,
      parts_eq source hargs (by decide)]
    show ((Node.call? _ (.ofName (id.toName source))
      ((args.toExprs source []).map .expression)).map Part.node).map _ = _
    rw [Node.ofName, Node.call?_map]
    rfl
  case emptyArray =>
    obtain ⟨_, _, rfl, ⟨lsqb, rfl, hlsqb⟩, _, _, rfl, ⟨rsqb, rfl, hrsqb⟩, rfl⟩ := hsymbols
    simp only [List.flatMap_cons, List.flatMap_nil, parts_leaf, Token.parts, hlsqb, hrsqb]
    rfl
  case array =>
    obtain ⟨_, _, rfl, ⟨lsqb, rfl, hlsqb⟩, elements, _, rfl, helements, _, _, rfl,
      ⟨rsqb, rfl, hrsqb⟩, rfl⟩ := hsymbols
    simp only [List.flatMap_cons, List.flatMap_nil, parts_leaf, Token.parts, hlsqb, hrsqb,
      parts_eq source helements (by decide)]
    show ((Node.array? _ ((elements.toExprs source []).map .expression)).map Part.node).map _ = _
    rw [Node.array?_map]
    rfl
  case parenthesised =>
    obtain ⟨_, _, rfl, ⟨lpar, rfl, hlpar⟩, inner, _, rfl, hinner, _, _, rfl, ⟨rpar, rfl, hrpar⟩,
      rfl⟩ := hsymbols
    simp only [List.flatMap_cons, List.flatMap_nil, parts_leaf, Token.parts, hlpar, hrpar,
      parts_eq source hinner (by decide)]
    rfl

/-- Rows of arguments, of parameters and of statements. -/
theorem construct?_row (hlhs : rule.lhs ∈ [.args, .moreArgs, .params, .moreParams, .statements]) :
    (rule.construct? (siteIn source (joinExtents (children.map extent?)))
        (children.flatMap (·.parts source))).map ([·]) =
      some ((Derivation.ofRule rule children).parts source) := by
  cases rule
  all_goals
    first
    | exact absurd hlhs (by decide)
    | simp only [Rule.rhs, List.map_eq_cons_iff, List.map_eq_nil_iff, symbol_eq_token] at hsymbols
  case oneArg | firstStatement =>
    obtain ⟨e, _, rfl, he, rfl⟩ := hsymbols
    rw [List.flatMap_singleton, parts_eq source he (by decide)]
    rfl
  case severalArgs =>
    obtain ⟨e, _, rfl, he, more, _, rfl, hmore, rfl⟩ := hsymbols
    simp only [List.flatMap_cons, List.flatMap_nil, parts_eq source he (by decide),
      parts_eq source hmore (by decide)]
    rfl
  case secondArg =>
    obtain ⟨_, _, rfl, ⟨comma, rfl, hcomma⟩, e, _, rfl, he, rfl⟩ := hsymbols
    simp only [List.flatMap_cons, List.flatMap_nil, parts_leaf, Token.parts, hcomma,
      parts_eq source he (by decide)]
    rfl
  case nextArg =>
    obtain ⟨more, _, rfl, hmore, _, _, rfl, ⟨comma, rfl, hcomma⟩, e, _, rfl, he, rfl⟩ := hsymbols
    simp only [List.flatMap_cons, List.flatMap_nil, parts_leaf, Token.parts, hcomma,
      parts_eq source hmore (by decide), parts_eq source he (by decide)]
    show _ = some [(Piece.exprs (more.toExprs source [_])).toPart]
    rw [toExprs_append, Piece.toPart, List.map_append]
    rfl
  case oneParam =>
    obtain ⟨_, _, rfl, ⟨id, rfl, hid⟩, rfl⟩ := hsymbols
    rw [List.flatMap_singleton, parts_leaf, Token.parts, hid]
    rfl
  case severalParams =>
    obtain ⟨_, _, rfl, ⟨id, rfl, hid⟩, more, _, rfl, hmore, rfl⟩ := hsymbols
    simp only [List.flatMap_cons, List.flatMap_nil, parts_leaf, Token.parts, hid,
      parts_eq source hmore (by decide)]
    rfl
  case secondParam =>
    obtain ⟨_, _, rfl, ⟨comma, rfl, hcomma⟩, _, _, rfl, ⟨id, rfl, hid⟩, rfl⟩ := hsymbols
    simp only [List.flatMap_cons, List.flatMap_nil, parts_leaf, Token.parts, hcomma, hid]
    rfl
  case nextParam =>
    obtain ⟨more, _, rfl, hmore, _, _, rfl, ⟨comma, rfl, hcomma⟩, _, _, rfl, ⟨id, rfl, hid⟩,
      rfl⟩ := hsymbols
    simp only [List.flatMap_cons, List.flatMap_nil, parts_leaf, Token.parts, hcomma, hid,
      parts_eq source hmore (by decide)]
    show _ = some [(Piece.names (more.toNames source [_])).toPart]
    rw [toNames_append, Piece.toPart, List.map_append]
    rfl
  case nextStatement =>
    obtain ⟨ss, _, rfl, hss, s, _, rfl, hs, rfl⟩ := hsymbols
    simp only [List.flatMap_cons, List.flatMap_nil, parts_eq source hss (by decide),
      parts_eq source hs (by decide)]
    show _ = some [(Piece.stmts (ss.toStmts source [_])).toPart]
    rw [toStmts_append, Piece.toPart, List.map_append]
    rfl

/-- Statements, blocks and programs. -/
theorem construct?_statement (hlhs : rule.lhs ∈ [.statement, .block, .program]) :
    (rule.construct? (siteIn source (joinExtents (children.map extent?)))
        (children.flatMap (·.parts source))).map ([·]) =
      some ((Derivation.ofRule rule children).parts source) := by
  cases rule
  all_goals
    first
    | exact absurd hlhs (by decide)
    | simp only [Rule.rhs, List.map_eq_cons_iff, List.map_eq_nil_iff, symbol_eq_token] at hsymbols
  case declaration =>
    obtain ⟨_, _, rfl, ⟨letWord, rfl, hlet⟩, _, _, rfl, ⟨id, rfl, hid⟩, _, _, rfl,
      ⟨equal, rfl, hequal⟩, e, _, rfl, he, _, _, rfl, ⟨semicolon, rfl, hsemicolon⟩, rfl⟩ :=
      hsymbols
    simp only [List.flatMap_cons, List.flatMap_nil, parts_leaf, Token.parts, hlet, hid, hequal,
      hsemicolon, parts_eq source he (by decide)]
    rfl
  case functionWithoutParams =>
    obtain ⟨_, _, rfl, ⟨functionWord, rfl, hfunction⟩, _, _, rfl, ⟨id, rfl, hid⟩, _, _, rfl,
      ⟨lpar, rfl, hlpar⟩, _, _, rfl, ⟨rpar, rfl, hrpar⟩, _, _, rfl, ⟨equal, rfl, hequal⟩,
      e, _, rfl, he, _, _, rfl, ⟨semicolon, rfl, hsemicolon⟩, rfl⟩ := hsymbols
    simp only [List.flatMap_cons, List.flatMap_nil, parts_leaf, Token.parts, hfunction, hid, hlpar,
      hrpar, hequal, hsemicolon, parts_eq source he (by decide)]
    rfl
  case function =>
    obtain ⟨_, _, rfl, ⟨functionWord, rfl, hfunction⟩, _, _, rfl, ⟨id, rfl, hid⟩, _, _, rfl,
      ⟨lpar, rfl, hlpar⟩, params, _, rfl, hparams, _, _, rfl, ⟨rpar, rfl, hrpar⟩, _, _, rfl,
      ⟨equal, rfl, hequal⟩, e, _, rfl, he, _, _, rfl, ⟨semicolon, rfl, hsemicolon⟩, rfl⟩ :=
      hsymbols
    simp only [List.flatMap_cons, List.flatMap_nil, parts_leaf, Token.parts, hfunction, hid, hlpar,
      hrpar, hequal, hsemicolon, parts_eq source hparams (by decide),
      parts_eq source he (by decide)]
    show ((Node.function? _ _ ((params.toNames source []).map _) _).map Part.node).map _ = _
    rw [Node.ofName, Node.function?_map]
    rfl
  case assignment =>
    obtain ⟨_, _, rfl, ⟨id, rfl, hid⟩, _, _, rfl, ⟨equal, rfl, hequal⟩, e, _, rfl, he, _, _, rfl,
      ⟨semicolon, rfl, hsemicolon⟩, rfl⟩ := hsymbols
    simp only [List.flatMap_cons, List.flatMap_nil, parts_leaf, Token.parts, hid, hequal,
      hsemicolon, parts_eq source he (by decide)]
    rfl
  case print =>
    obtain ⟨_, _, rfl, ⟨printWord, rfl, hprint⟩, e, _, rfl, he, _, _, rfl,
      ⟨semicolon, rfl, hsemicolon⟩, rfl⟩ := hsymbols
    simp only [List.flatMap_cons, List.flatMap_nil, parts_leaf, Token.parts, hprint, hsemicolon,
      parts_eq source he (by decide)]
    rfl
  case loop =>
    obtain ⟨_, _, rfl, ⟨whileWord, rfl, hwhile⟩, e, _, rfl, he, body, _, rfl, hbody, rfl⟩ :=
      hsymbols
    simp only [List.flatMap_cons, List.flatMap_nil, parts_leaf, Token.parts, hwhile,
      parts_eq source he (by decide), parts_eq source hbody (by decide)]
    rfl
  case emptyBlock =>
    obtain ⟨_, _, rfl, ⟨lbrace, rfl, hlbrace⟩, _, _, rfl, ⟨rbrace, rfl, hrbrace⟩, rfl⟩ := hsymbols
    simp only [List.flatMap_cons, List.flatMap_nil, parts_leaf, Token.parts, hlbrace, hrbrace]
    rfl
  case block =>
    obtain ⟨_, _, rfl, ⟨lbrace, rfl, hlbrace⟩, ss, _, rfl, hss, _, _, rfl,
      ⟨rbrace, rfl, hrbrace⟩, rfl⟩ := hsymbols
    simp only [List.flatMap_cons, List.flatMap_nil, parts_leaf, Token.parts, hlbrace, hrbrace,
      parts_eq source hss (by decide)]
    show ((Node.blockOf? _ ((ss.toStmts source []).map .statement)).map Part.node).map _ = _
    rw [Node.blockOf?_map]
    rfl
  case emptyProgram =>
    obtain rfl := hsymbols
    rfl
  case program =>
    obtain ⟨ss, _, rfl, hss, rfl⟩ := hsymbols
    rw [List.flatMap_singleton, parts_eq source hss (by decide)]
    show ((Node.blockOf? _ ((ss.toStmts source []).map .statement)).bind _).map _ = _
    rw [Node.blockOf?_map]
    rfl

/-- A rule builds of its parts, as they have to be built, what its phrase has to be built as. -/
theorem construct?_eq :
    (rule.construct? (siteIn source (joinExtents (children.map extent?)))
        (children.flatMap (·.parts source))).map ([·]) =
      some ((Derivation.ofRule rule children).parts source) := by
  -- Every kind of phrase belongs to one of the four groups.
  cases hlhs : rule.lhs <;> first
    | exact construct?_operation source hsymbols (by rw [hlhs]; decide)
    | exact construct?_primary source hsymbols (by rw [hlhs]; decide)
    | exact construct?_row source hsymbols (by rw [hlhs]; decide)
    | exact construct?_statement source hsymbols (by rw [hlhs]; decide)

end

/-- **Whatever is handed to a constructor is of the right sort**: a grammatical derivation is built,
    as what it is read as. -/
theorem Derivation.IsGrammatical.build?_eq (source : String) {d : Derivation}
    (h : d.IsGrammatical) : d.build? source = some (d.parts source) := by
  induction h with
  | leaf token => rfl
  | ofRule rule children hsymbols hchildren ih =>
    have hconstruct := construct?_eq source hsymbols
    rw [Derivation.ofRule, build?, buildAll?_eq ih]
    exact hconstruct

/-- A derivation of a program is built as the program that it is read as. -/
theorem Derivation.IsGrammatical.build?_program (source : String) {d : Derivation}
    (h : d.IsGrammatical) (hsymbol : d.symbol = .phrase .program) :
    d.build? source = some [.node (.program (d.toProgram source).block)] := by
  rw [h.build?_eq source]
  cases d with
  | leaf token => cases hsymbol
  | node rule extent children => exact congrArg some (if_pos (GrammarSymbol.phrase.inj hsymbol))

end BellaLang
