import BellaLang.Proofs.Grammar.Cutting
import BellaLang.Proofs.Syntax.Deciding
import BellaLang.Proofs.Syntax.Nodes
import BellaLang.Proofs.Syntax.RoundTrip

/-!
Which words can be names.

A word of the language is told from a name where the text is cut into tokens, and only where that
word could come at all.  So words are not reserved once and for all, but place by place: where a
statement begins, the words that begin statements are kept from being names; where an operand
begins, the two truth values are; and where a name is declared, or taken as a parameter, no word is.

  1. A name stands in one of five places of a tree (`Block.occurrences`), and every name within a
     tree stands in one (`Node.exists_occurrence_of_within`).
  2. Each place is a mode of the text (`NamePlace.mode`): going over the tokens of a phrase, from
     mode to mode, one comes past the names of its tree, each in the mode of its place
     (`Phrase.passes`), by induction on the phrase.
  3. In a text that is cut, a name in a mode is no word that leads on in this mode, so it is not
     reserved in its place (`Cut.allows`).
  4. Every other word is a name in this place of some text (`NamePlace.exists_text`).

Main statement: `Program.reserved_by_place`.
-/

namespace BellaLang

open BellaLang.Number BellaLang.Text

/-! ## The places of names -/

/-- Where a name can stand in a program. -/
inductive NamePlace where
  /-- The variable that is declared. -/
  | declared
  /-- The function that is declared. -/
  | function
  /-- A parameter of a function. -/
  | parameter
  /-- What is assigned to. -/
  | target
  /-- In an expression, as an operand or as the function that is called. -/
  | operand
deriving DecidableEq, Repr

/-- What is awaited where the name stands. -/
def NamePlace.mode : NamePlace → Mode
  | .declared => .declared
  | .function => .function
  | .parameter => .parameter
  | .target => .statement
  | .operand => .operand

/-- The words that cannot be a name in a place. -/
def NamePlace.reserved : NamePlace → List String
  | .declared | .function | .parameter => []
  | .target => ["let", "function", "print", "while"]
  | .operand => ["true", "false"]

/-- The words of the language. -/
def keywords : List String := ["let", "function", "print", "while", "true", "false"]

theorem keyword?_isSome_iff {word : String} :
    (keyword? word.toList).isSome = true ↔ word ∈ keywords := by
  unfold keyword? keywords
  rw [String.ofList_toList]
  split <;> simp_all

theorem NamePlace.reserved_subset (place : NamePlace) : place.reserved ⊆ keywords := by
  cases place <;> decide

/-- **A word is reserved in a place exactly if it is a word of the language that leads on in the
    mode there.** -/
theorem NamePlace.mem_reserved_iff (place : NamePlace) (word : String) :
    word ∈ place.reserved ↔
      ∃ t, keyword? word.toList = some t ∧ (place.mode.step? t).isSome = true := by
  have hall : ∀ other ∈ keywords, other ∈ place.reserved ↔
      (keyword? other.toList).any (fun t => (place.mode.step? t).isSome) = true := by
    cases place <;> decide +kernel
  constructor
  · intro h
    have hany := (hall word (place.reserved_subset h)).mp h
    obtain ⟨t, hword, hstep⟩ := Option.any_eq_true _ _ |>.mp hany
    exact ⟨t, hword, hstep⟩
  · rintro ⟨t, hword, hstep⟩
    have hmem : word ∈ keywords := keyword?_isSome_iff.mp (Option.isSome_of_mem hword)
    refine (hall word hmem).mpr ?_
    rw [hword]
    exact hstep

/-! ## The names of a tree -/

mutual

/-- The names in an expression, in the order of the text, each with its place. -/
def Expr.occurrences : Expr → List (NamePlace × Name)
  | .numeral .. | .boolean .. | .nothing => []
  | .name id => [(.operand, id)]
  | .unary _ _ operand => operand.occurrences
  | .binary _ _ left right => left.occurrences ++ right.occurrences
  | .call _ callee args => (.operand, callee) :: Expr.allOccurrences args
  | .conditional _ test consequent alternate =>
    test.occurrences ++ (consequent.occurrences ++ alternate.occurrences)
  | .array _ elements => Expr.allOccurrences elements
  | .subscript _ base index => base.occurrences ++ index.occurrences
  | .statement misfit => misfit.occurrences
  | .program misfit => misfit.occurrences

def Expr.allOccurrences : List Expr → List (NamePlace × Name)
  | [] => []
  | e :: rest => e.occurrences ++ Expr.allOccurrences rest

/-- The names in a statement. -/
def Stmt.occurrences : Stmt → List (NamePlace × Name)
  | .declaration _ id value => (.declared, id) :: value.occurrences
  | .assignment _ id value => (.target, id) :: value.occurrences
  | .function _ id params body =>
    (.function, id) :: (params.map (NamePlace.parameter, ·) ++ body.occurrences)
  | .print _ value => value.occurrences
  | .block body => body.occurrences
  | .loop _ test body => test.occurrences ++ body.occurrences

def Stmt.allOccurrences : List Stmt → List (NamePlace × Name)
  | [] => []
  | s :: rest => s.occurrences ++ Stmt.allOccurrences rest

/-- The names in a block. -/
def Block.occurrences : Block → List (NamePlace × Name)
  | .mk _ statements => Stmt.allOccurrences statements

end

theorem Expr.allOccurrences_eq (es : List Expr) :
    Expr.allOccurrences es = es.flatMap Expr.occurrences := by
  induction es with
  | nil => rfl
  | cons e es ih => rw [allOccurrences, ih, List.flatMap_cons]

theorem Stmt.allOccurrences_eq (ss : List Stmt) :
    Stmt.allOccurrences ss = ss.flatMap Stmt.occurrences := by
  induction ss with
  | nil => rfl
  | cons s ss ih => rw [allOccurrences, ih, List.flatMap_cons]

/-- The names in a node. -/
def Node.occurrences : Node → List (NamePlace × Name)
  | .nothing => []
  | .expression e => e.occurrences
  | .statement s => s.occurrences
  | .program body => body.occurrences

/-- The names in a node, wherever they stand. -/
def Node.names (node : Node) : List Name := node.occurrences.map (·.2)

theorem Node.names_ofName (id : Name) : (ofName id).names = [id] := rfl

theorem Node.names_expression (e : Expr) :
    (expression e).names = e.occurrences.map (·.2) := rfl

theorem Node.names_statement (s : Stmt) : (statement s).names = s.occurrences.map (·.2) := rfl

theorem Node.names_program (body : Block) :
    (program body).names = body.occurrences.map (·.2) := rfl

theorem Node.names_ofExpr (e : Expr) : (ofExpr e).names = e.occurrences.map (·.2) := by
  cases e <;> rfl

/-- The names of a node with children are those of the children, in order. -/
theorem Node.names_eq_flatMap {node : Node} (h : node.children ≠ []) :
    node.names = node.children.flatMap names := by
  cases node with
  | nothing => exact absurd rfl h
  | program body => simp [children, names_program, names_statement, Stmt.occurrences]
  | expression e =>
    cases e <;> first
      | exact absurd rfl h
      | simp [children, Expr.children, names_expression, names_statement, names_program,
          names_ofExpr, names_ofName, Expr.occurrences, Expr.allOccurrences_eq, List.map_flatMap,
          List.flatMap_map]
  | statement s =>
    cases s with
    | block body =>
      obtain ⟨site, ss⟩ := body
      simp [children, Stmt.children, Block.statements, names_statement, Stmt.occurrences,
        Block.occurrences, Stmt.allOccurrences_eq, List.map_flatMap, List.flatMap_map]
    | _ =>
      simp [children, Stmt.children, names_statement, names_ofExpr, names_ofName, Stmt.occurrences,
        List.flatMap_map]

/-- **Every name within a tree stands in one of the places.** -/
theorem Node.exists_occurrence_of_within {root : Node} {id : Name}
    (h : root.Within (.ofName id)) : ∃ place, (place, id) ∈ root.occurrences := by
  have hnames : id ∈ root.names := by
    induction h using Relation.ReflTransGen.head_induction_on with
    | refl => exact List.mem_singleton.mpr rfl
    | @head parent child hchild _ ih =>
      rw [names_eq_flatMap (List.ne_nil_of_mem hchild)]
      exact List.mem_flatMap.mpr ⟨child, hchild, ih⟩
  obtain ⟨⟨place, other⟩, hmem, rfl⟩ := List.mem_map.mp hnames
  exact ⟨place, hmem⟩

/-! ## Names and modes -/

/-- Over a row of tokens one goes from one mode to another, past these names. -/
inductive Passes (source : String) : Mode → List Token → List (NamePlace × Name) → Mode → Prop
  | nil (mode : Mode) : Passes source mode [] [] mode
  | mark {mode next last : Mode} {token : Token} {rest : List Token}
      {names : List (NamePlace × Name)} (t : Terminal) (hterminal : token.terminal = t)
      (hname : t ≠ .name) (hstep : mode.step? t = some next)
      (hrest : Passes source next rest names last) :
      Passes source mode (token :: rest) names last
  | name {next last : Mode} {token : Token} {rest : List Token}
      {names : List (NamePlace × Name)} (place : NamePlace) (hterminal : token.terminal = .name)
      (hstep : place.mode.step? .name = some next) (hrest : Passes source next rest names last) :
      Passes source place.mode (token :: rest) ((place, token.toName source) :: names) last

section

variable {source : String}

theorem Passes.append {mode next last : Mode} {u v : List Token}
    {names more : List (NamePlace × Name)} (h : Passes source mode u names next)
    (hmore : Passes source next v more last) :
    Passes source mode (u ++ v) (names ++ more) last := by
  induction h with
  | nil mode => exact hmore
  | mark t hterminal hname hstep hrest ih => exact .mark t hterminal hname hstep (ih hmore)
  | name place hterminal hstep hrest ih => exact .name place hterminal hstep (ih hmore)

/-- Past a mark there are no names. -/
theorem Passes.of_mark {mode next : Mode} {token : Token} (t : Terminal)
    (hterminal : token.terminal = t) (hname : t ≠ .name) (hstep : mode.step? t = some next) :
    Passes source mode [token] [] next :=
  .mark t hterminal hname hstep (.nil next)

/-- Behind the names of a row come no more where only a mark is left. -/
theorem Passes.snoc {mode last : Mode} {row : List Token} {token : Token}
    {names : List (NamePlace × Name)} (next : Mode) (t : Terminal) (hterminal : token.terminal = t)
    (hname : t ≠ .name) (hstep : next.step? t = some last)
    (h : Passes source mode row names next) : Passes source mode (row ++ [token]) names last := by
  have happend := h.append (.of_mark t hterminal hname hstep)
  rw [List.append_nil] at happend
  exact happend

/-- The names of a piece, each with its place. -/
def Piece.occurrences : Piece → List (NamePlace × Name)
  | .expr e => e.occurrences
  | .exprs es => Expr.allOccurrences es
  | .names ids => ids.map (NamePlace.parameter, ·)
  | .stmt s => s.occurrences
  | .stmts ss => Stmt.allOccurrences ss
  | .block body => body.occurrences

/-- All levels of precedence begin with an operand and end with one. -/
theorem Nonterminal.modes_of_tighter {level inner : Nonterminal}
    (h : level.tighter? = some inner) :
    level.start = inner.start ∧ level.finish = inner.finish := by
  cases level <;> cases h <;> exact ⟨rfl, rfl⟩

/-- Between its operands an operator leads from the end of one to the start of the other. -/
theorem Nonterminal.modes_of_operands {level left right : Nonterminal} {t : Terminal}
    (h : level.operands? t = some (left, right)) :
    t ≠ .name ∧ left.start = level.start ∧ left.finish.step? t = some right.start ∧
      right.finish = level.finish := by
  unfold operands? at h
  split at h <;> cases h <;> exact ⟨by decide, rfl, rfl, rfl⟩

theorem Expr.allOccurrences_append (es more : List Expr) :
    Expr.allOccurrences (es ++ more) = Expr.allOccurrences es ++ Expr.allOccurrences more := by
  simp only [allOccurrences_eq, List.flatMap_append]

theorem Stmt.allOccurrences_append (ss more : List Stmt) :
    Stmt.allOccurrences (ss ++ more) = Stmt.allOccurrences ss ++ Stmt.allOccurrences more := by
  simp only [allOccurrences_eq, List.flatMap_append]

/-- **Over a phrase one goes past the names of its piece**, from the mode that it begins in to the
    one that it ends in. -/
theorem Phrase.passes {n : Nonterminal} {row : List Token} {piece : Piece}
    (h : Phrase source n row piece) : Passes source n.start row piece.occurrences n.finish := by
  induction h with
  -- Programs and statements.
  | program hss ih => exact ih
  | noStatements | noMoreParams | noMoreArgs => exact .nil _
  | @nextStatement row u v ss s hss hs hrow ihss ihs =>
    subst hrow
    have hall : (Piece.stmts (ss ++ [s])).occurrences =
        (Piece.stmts ss).occurrences ++ (Piece.stmt s).occurrences := by
      show Stmt.allOccurrences (ss ++ [s]) = _
      rw [Stmt.allOccurrences_append, Stmt.allOccurrences, Stmt.allOccurrences, List.append_nil]
      rfl
    rw [hall]
    exact ihss.append ihs
  | declaration hmarks he hrow ih =>
    simp only [List.map_cons, List.map_nil, List.cons.injEq, and_true] at hmarks
    obtain ⟨hletWord, hid, hequal, hsemicolon⟩ := hmarks
    subst hrow
    refine .snoc .operandEnd .semicolon hsemicolon (by decide) rfl ?_
    refine .mark .letWord hletWord (by decide) rfl (.name .declared hid rfl ?_)
    exact .mark .equal hequal (by decide) rfl ih
  | functionWithoutParams hmarks he hrow ih =>
    simp only [List.map_cons, List.map_nil, List.cons.injEq, and_true] at hmarks
    obtain ⟨hfunctionWord, hid, hlpar, hrpar, hequal, hsemicolon⟩ := hmarks
    subst hrow
    refine .snoc .operandEnd .semicolon hsemicolon (by decide) rfl ?_
    refine .mark .functionWord hfunctionWord (by decide) rfl (.name .function hid rfl ?_)
    refine .mark .lpar hlpar (by decide) rfl (.mark .rpar hrpar (by decide) rfl ?_)
    exact .mark .equal hequal (by decide) rfl ih
  | function hmarks hids he hrow ihids ih =>
    simp only [List.map_cons, List.map_nil, List.cons.injEq, and_true] at hmarks
    obtain ⟨hfunctionWord, hid, hlpar, hrpar, hequal, hsemicolon⟩ := hmarks
    subst hrow
    refine .snoc .operandEnd .semicolon hsemicolon (by decide) rfl ?_
    rw [List.append_assoc, List.append_assoc]
    refine .mark .functionWord hfunctionWord (by decide) rfl (.name .function hid rfl ?_)
    refine .mark .lpar hlpar (by decide) rfl (ihids.append ?_)
    exact .mark .rpar hrpar (by decide) rfl (.mark .equal hequal (by decide) rfl ih)
  | assignment hmarks he hrow ih =>
    simp only [List.map_cons, List.map_nil, List.cons.injEq, and_true] at hmarks
    obtain ⟨hid, hequal, hsemicolon⟩ := hmarks
    subst hrow
    refine .snoc .operandEnd .semicolon hsemicolon (by decide) rfl ?_
    exact .name .target hid rfl (.mark .equal hequal (by decide) rfl ih)
  | print hmarks he hrow ih =>
    simp only [List.map_cons, List.map_nil, List.cons.injEq, and_true] at hmarks
    obtain ⟨hprintWord, hsemicolon⟩ := hmarks
    subst hrow
    refine .snoc .operandEnd .semicolon hsemicolon (by decide) rfl ?_
    exact .mark .printWord hprintWord (by decide) rfl ih
  | loop hmark he hbody hrow ihe ihbody =>
    subst hrow
    exact .append (.mark .whileWord hmark (by decide) rfl ihe) ihbody
  | block hmarks hss hrow ih =>
    simp only [List.map_cons, List.map_nil, List.cons.injEq, and_true] at hmarks
    obtain ⟨hlbrace, hrbrace⟩ := hmarks
    subst hrow
    refine .snoc .statement .rbrace hrbrace (by decide) rfl ?_
    exact .mark .lbrace hlbrace (by decide) rfl ih
  -- Parameters.
  | params hmark hmore hrow ih =>
    subst hrow
    exact .name .parameter hmark rfl ih
  | nextParam hmarks hids hrow ih =>
    simp only [List.map_cons, List.map_nil, List.cons.injEq, and_true] at hmarks
    obtain ⟨hcomma, hid⟩ := hmarks
    subst hrow
    show Passes source _ _ (List.map _ (_ ++ [_])) _
    rw [List.map_append]
    refine ih.append (.mark .comma hcomma (by decide) rfl ?_)
    exact .name .parameter hid rfl (.nil _)
  -- Expressions.
  | conditional hmarks htest hconsequent halternate hrow ihtest ihconsequent ihalternate =>
    simp only [List.map_cons, List.map_nil, List.cons.injEq, and_true] at hmarks
    obtain ⟨hqmark, hcolon⟩ := hmarks
    subst hrow
    rw [List.append_assoc, List.append_assoc, List.append_assoc]
    refine ihtest.append (.mark .qmark hqmark (by decide) rfl (ihconsequent.append ?_))
    exact .mark .colon hcolon (by decide) rfl ihalternate
  | tighter hlevel he ih =>
    obtain ⟨hstart, hfinish⟩ := Nonterminal.modes_of_tighter hlevel
    rw [hstart, hfinish]
    exact ih
  | binary hlevel ha hb hrow iha ihb =>
    obtain ⟨hname, hstart, hstep, hfinish⟩ := Nonterminal.modes_of_operands hlevel
    subst hrow
    rw [← hstart, ← hfinish, List.append_assoc]
    exact iha.append (.mark _ rfl hname hstep ihb)
  | unary hmark he hrow ih =>
    subst hrow
    rcases hmark with hminus | hbang
    · exact .mark .minus hminus (by decide) rfl ih
    · exact .mark .bang hbang (by decide) rfl ih
  | subscript hmarks hbase hindex hrow ihbase ihindex =>
    simp only [List.map_cons, List.map_nil, List.cons.injEq, and_true] at hmarks
    obtain ⟨hlsqb, hrsqb⟩ := hmarks
    subst hrow
    refine .snoc .operandEnd .rsqb hrsqb (by decide) rfl ?_
    rw [List.append_assoc]
    exact ihbase.append (.mark .lsqb hlsqb (by decide) rfl ihindex)
  | numeral hmark => exact .of_mark .numeral hmark (by decide) rfl
  | trueLiteral hmark => exact .of_mark .trueWord hmark (by decide) rfl
  | falseLiteral hmark => exact .of_mark .falseWord hmark (by decide) rfl
  | name hmark => exact .name .operand hmark rfl (.nil _)
  | callWithoutArgs hmarks hrow =>
    simp only [List.map_cons, List.map_nil, List.cons.injEq, and_true] at hmarks
    obtain ⟨hid, hlpar, hrpar⟩ := hmarks
    subst hrow
    refine .name .operand hid rfl (.mark .lpar hlpar (by decide) rfl ?_)
    exact .of_mark .rpar hrpar (by decide) rfl
  | call hmarks hes hrow ih =>
    simp only [List.map_cons, List.map_nil, List.cons.injEq, and_true] at hmarks
    obtain ⟨hid, hlpar, hrpar⟩ := hmarks
    subst hrow
    refine .snoc .operandEnd .rpar hrpar (by decide) rfl ?_
    exact .name .operand hid rfl (.mark .lpar hlpar (by decide) rfl ih)
  | emptyArray hmarks hrow =>
    simp only [List.map_cons, List.map_nil, List.cons.injEq, and_true] at hmarks
    obtain ⟨hlsqb, hrsqb⟩ := hmarks
    subst hrow
    exact .mark .lsqb hlsqb (by decide) rfl (.of_mark .rsqb hrsqb (by decide) rfl)
  | array hmarks hes hrow ih =>
    simp only [List.map_cons, List.map_nil, List.cons.injEq, and_true] at hmarks
    obtain ⟨hlsqb, hrsqb⟩ := hmarks
    subst hrow
    refine .snoc .operandEnd .rsqb hrsqb (by decide) rfl ?_
    exact .mark .lsqb hlsqb (by decide) rfl ih
  | parenthesised hmarks he hrow ih =>
    simp only [List.map_cons, List.map_nil, List.cons.injEq, and_true] at hmarks
    obtain ⟨hlpar, hrpar⟩ := hmarks
    subst hrow
    refine .snoc .operandEnd .rpar hrpar (by decide) rfl ?_
    exact .mark .lpar hlpar (by decide) rfl ih
  -- Arguments and elements.
  | args he hmore hrow ihe ihmore =>
    subst hrow
    exact ihe.append ihmore
  | @nextArg comma row u v es e hmark hes he hrow ihes ihe =>
    subst hrow
    have hall : (Piece.exprs (es ++ [e])).occurrences =
        (Piece.exprs es).occurrences ++ (Piece.expr e).occurrences := by
      show Expr.allOccurrences (es ++ [e]) = _
      rw [Expr.allOccurrences_append, Expr.allOccurrences, Expr.allOccurrences, List.append_nil]
      rfl
    rw [hall, List.append_assoc]
    exact ihes.append (.mark .comma hmark (by decide) rfl ihe)

/-! ## Names in a text that is cut -/

/-- The name is a word that is free in the place. -/
def NamePlace.Allows (place : NamePlace) (word : String) : Prop :=
  IsWord word.toList ∧ word ∉ place.reserved

/-- **In a text that is cut every name is a word that is free in its place.** -/
theorem Cut.allows {mode last : Mode} {cursor after : Cursor} {tokens : List Token}
    {names : List (NamePlace × Name)} (hcut : Cut mode cursor tokens after)
    (h : Passes source mode tokens names last) :
    ∀ entry ∈ names, entry.1.Allows entry.2.spelling := by
  induction h generalizing cursor with
  | nil mode => exact nofun
  | mark t hterminal hname hstep hrest ih =>
    cases hcut with
    | token _ _ _ _ _ _ hsame htokens =>
      rw [hterminal, hstep] at hsame
      obtain rfl := Option.some.inj hsame
      exact ih htokens
  | @name next last token rest names place hterminal hstep hrest ih =>
    cases hcut with
    | token _ _ _ hspelled _ hword hsame htokens =>
      rw [hterminal, hstep] at hsame
      obtain rfl := Option.some.inj hsame
      have hfree : place.Allows (token.toName source).spelling := by
        show IsWord (String.ofList token.text).toList ∧ String.ofList token.text ∉ place.reserved
        rw [String.toList_ofList]
        constructor
        · unfold Lexeme.IsSpelled Token.lexeme at hspelled
          rw [hterminal] at hspelled
          exact hspelled
        · intro hreserved
          obtain ⟨t, ht, hleads⟩ := (place.mem_reserved_iff _).mp hreserved
          rw [String.toList_ofList] at ht
          rw [hword hterminal t ht] at hleads
          cases hleads
      exact List.forall_mem_cons.mpr ⟨hfree, ih htokens⟩

/-- Every name of a program of a text is a word that is free in its place. -/
theorem Program.allows_of_ofText {text : String} {program : Program}
    (h : Program.ofText source text = .ok program) :
    ∀ entry ∈ program.block.occurrences, entry.1.Allows entry.2.spelling := by
  obtain ⟨d, hread, rfl⟩ := ofText_eq_ok_iff.mp h
  obtain ⟨hgrammatical, hsymbol, after, hcut, -⟩ := readText_eq_ok_iff.mp hread
  exact hcut.allows (hgrammatical.phrase source hsymbol).passes

end

/-! ## Texts with a name in a place -/

/-- The lexemes lead on from a mode, and each of them can only be taken for what it is. -/
inductive Leads : Mode → List Lexeme → Prop
  | nil (mode : Mode) : Leads mode []
  | cons {mode next : Mode} {lexeme : Lexeme} {rest : List Lexeme} (hspelled : lexeme.IsSpelled)
      (hword : lexeme.terminal = .name → ∀ t, keyword? lexeme.text = some t → mode.step? t = none)
      (hstep : mode.step? lexeme.terminal = some next) (hrest : Leads next rest) :
      Leads mode (lexeme :: rest)

theorem Leads.mark {mode next : Mode} {rest : List Lexeme} (t : Terminal) (hmark : t.isMark = true)
    (hstep : mode.step? t = some next) (hrest : Leads next rest) : Leads mode (t.mark :: rest) := by
  refine .cons ((isSpelled_mark hmark).mpr rfl) (fun hname => ?_) hstep hrest
  rw [show t.mark.terminal = t from rfl] at hname
  rw [hname] at hmark
  cases hmark

theorem Leads.keyword {mode next : Mode} {rest : List Lexeme} {t : Terminal} {word : List Char}
    (hword : keyword? word = some t) (hstep : mode.step? t = some next) (hrest : Leads next rest) :
    Leads mode (⟨t, word⟩ :: rest) := by
  have hkeyword := isKeyword_of_keyword? hword
  refine .cons ?_ (fun hname => ?_) hstep hrest
  · unfold Lexeme.IsSpelled
    cases t <;> first | exact hword | cases hkeyword
  · rw [show t = .name from hname] at hkeyword
    cases hkeyword

theorem Leads.name {next : Mode} {rest : List Lexeme} {place : NamePlace} {word : String}
    (hfree : place.Allows word) (hstep : place.mode.step? .name = some next)
    (hrest : Leads next rest) : Leads place.mode (⟨.name, word.toList⟩ :: rest) := by
  refine .cons hfree.1 (fun _ t ht => ?_) hstep hrest
  by_contra hleads
  have hsome := Option.isSome_iff_ne_none.mpr hleads
  exact hfree.2 ((place.mem_reserved_iff word).mpr ⟨t, ht, hsome⟩)

theorem Leads.one {mode next : Mode} {rest : List Lexeme} (hstep : mode.step? .numeral = some next)
    (hrest : Leads next rest) : Leads mode (⟨.numeral, ['1']⟩ :: rest) :=
  .cons ⟨_, rfl⟩ (fun hname => by cases hname) hstep hrest

/-- With a blank in front of each, lexemes that lead on are a text that is cut into them. -/
theorem Leads.exists_cut {mode : Mode} {row : List Lexeme} (h : Leads mode row) {cursor : Cursor}
    (hrest : cursor.rest = row.flatMap fun lexeme => ' ' :: lexeme.text) :
    ∃ tokens after, Cut mode cursor tokens after ∧ after.AtEnd ∧
      tokens.map Token.lexeme = row := by
  induction h generalizing cursor with
  | nil mode =>
    refine ⟨[], cursor, .nil _ _, ?_, rfl⟩
    rw [Cursor.AtEnd, hrest]
    exact Nat.zero_le _
  | @cons mode next lexeme row hspelled hword hstep _ ih =>
    have hsplit : cursor.rest = [' '] ++ (lexeme.text ++ row.flatMap fun l => ' ' :: l.text) := by
      rw [hrest]
      rfl
    have hbehind : (cursor.advance (1 + lexeme.text.length)).rest =
        row.flatMap fun l => ' ' :: l.text := by
      rw [Cursor.advance_rest, hsplit, ← List.append_assoc, Nat.add_comm]
      exact List.drop_left
    obtain ⟨tokens, after, hcut, hend, hmap⟩ := ih hbehind
    have hends : lexeme.Ends (row.flatMap fun l => ' ' :: l.text) := by
      refine Lexeme.ends_of_calm lexeme ?_
      cases row with
      | nil => exact calm_nil
      | cons other more => exact calm_cons (by decide) _
    refine ⟨⟨lexeme.terminal, lexeme.text, (cursor.advance 1).extent lexeme.text.length⟩ :: tokens,
      after, ?_, hend, by rw [List.map_cons, hmap]; rfl⟩
    have hgap : IsGap [' '] := .space rfl .nil
    exact .token hgap hsplit rfl hspelled hends hword hstep hcut

/-- A row of lexemes with a name in the place. -/
def NamePlace.sample (word : String) : NamePlace → List Lexeme
  | .declared => [⟨.letWord, "let".toList⟩, ⟨.name, word.toList⟩, Terminal.equal.mark,
      ⟨.numeral, ['1']⟩, Terminal.semicolon.mark]
  | .function => [⟨.functionWord, "function".toList⟩, ⟨.name, word.toList⟩, Terminal.lpar.mark,
      Terminal.rpar.mark, Terminal.equal.mark, ⟨.numeral, ['1']⟩, Terminal.semicolon.mark]
  | .parameter => [⟨.functionWord, "function".toList⟩, ⟨.name, ['f']⟩, Terminal.lpar.mark,
      ⟨.name, word.toList⟩, Terminal.rpar.mark, Terminal.equal.mark, ⟨.numeral, ['1']⟩,
      Terminal.semicolon.mark]
  | .target => [⟨.name, word.toList⟩, Terminal.equal.mark, ⟨.numeral, ['1']⟩,
      Terminal.semicolon.mark]
  | .operand => [⟨.printWord, "print".toList⟩, ⟨.name, word.toList⟩, Terminal.semicolon.mark]

theorem NamePlace.leads_sample {place : NamePlace} {word : String} (h : place.Allows word) :
    Leads .statement (place.sample word) := by
  have hone : Leads .operand [⟨.numeral, ['1']⟩, Terminal.semicolon.mark] :=
    .one rfl (.mark .semicolon rfl rfl (.nil _))
  have hvalue : Leads .equal [Terminal.equal.mark, ⟨.numeral, ['1']⟩, Terminal.semicolon.mark] :=
    .mark .equal rfl rfl hone
  cases place with
  | declared => exact .keyword rfl rfl (.name h rfl hvalue)
  | function =>
    exact .keyword rfl rfl (.name h rfl (.mark .lpar rfl rfl (.mark .rpar rfl rfl hvalue)))
  | parameter =>
    have hf : NamePlace.function.Allows "f" := ⟨by decide, List.not_mem_nil⟩
    exact .keyword rfl rfl
      (.name hf rfl (.mark .lpar rfl rfl (.name h rfl (.mark .rpar rfl rfl hvalue))))
  | target => exact .name h rfl hvalue
  | operand => exact .keyword rfl rfl (.name h rfl (.mark .semicolon rfl rfl (.nil _)))

/-- A statement alone is a program, with its names. -/
theorem Phrase.exists_program {source : String} {row : List Token} {s : Stmt}
    (h : Phrase source .statement row (.stmt s)) :
    ∃ program : Program, ProgramPhrase source row program ∧
      program.block.occurrences = s.occurrences := by
  refine ⟨⟨.mk (rowSite source row) [s]⟩, .program (.nextStatement .noStatements h rfl), ?_⟩
  show s.occurrences ++ [] = s.occurrences
  rw [List.append_nil]

/-- The statement of the sample, with the name in the place. -/
theorem NamePlace.exists_stmt (source : String) {place : NamePlace} {word : String}
    {tokens : List Token} (hmap : tokens.map Token.lexeme = place.sample word) :
    ∃ s id, Phrase source .statement tokens (.stmt s) ∧ (place, id) ∈ s.occurrences ∧
      id.spelling = word := by
  have hspelling (token : Token) (htoken : token.lexeme = ⟨.name, word.toList⟩) :
      (token.toName source).spelling = word := by
    have htext : token.text = word.toList := congrArg Lexeme.text htoken
    show String.ofList token.text = word
    rw [htext, String.ofList_toList]
  have hone (token : Token) (htoken : token.lexeme = ⟨.numeral, ['1']⟩) :
      ∃ e, Phrase source .exp [token] (.expr e) :=
    ⟨_, .loosen (.tighter rfl (.numeral (congrArg Lexeme.terminal htoken))) rfl⟩
  have hterminal (token : Token) {t : Terminal} {text : List Char}
      (htoken : token.lexeme = ⟨t, text⟩) : token.terminal = t := congrArg Lexeme.terminal htoken
  cases place <;> simp only [sample, List.map_eq_cons_iff, List.map_eq_nil_iff] at hmap
  case declared =>
    obtain ⟨letWord, _, rfl, hletWord, id, _, rfl, hid, equal, _, rfl, hequal, one, _, rfl,
      hnumeral, semicolon, _, rfl, hsemicolon, rfl⟩ := hmap
    obtain ⟨e, he⟩ := hone one hnumeral
    have hmarks : [letWord, id, equal, semicolon].map (·.terminal) =
        [.letWord, .name, .equal, .semicolon] := by
      simp [hterminal _ hletWord, hterminal _ hid, hterminal _ hequal, hterminal _ hsemicolon]
    exact ⟨_, id.toName source, .declaration hmarks he rfl, List.mem_cons_self, hspelling id hid⟩
  case function =>
    obtain ⟨functionWord, _, rfl, hfunctionWord, id, _, rfl, hid, lpar, _, rfl, hlpar, rpar, _, rfl,
      hrpar, equal, _, rfl, hequal, one, _, rfl, hnumeral, semicolon, _, rfl, hsemicolon, rfl⟩ :=
      hmap
    obtain ⟨e, he⟩ := hone one hnumeral
    have hmarks : [functionWord, id, lpar, rpar, equal, semicolon].map (·.terminal) =
        [.functionWord, .name, .lpar, .rpar, .equal, .semicolon] := by
      simp [hterminal _ hfunctionWord, hterminal _ hid, hterminal _ hlpar, hterminal _ hrpar,
        hterminal _ hequal, hterminal _ hsemicolon]
    exact ⟨_, id.toName source, .functionWithoutParams hmarks he rfl, List.mem_cons_self,
      hspelling id hid⟩
  case parameter =>
    obtain ⟨functionWord, _, rfl, hfunctionWord, f, _, rfl, hf, lpar, _, rfl, hlpar, id, _, rfl,
      hid, rpar, _, rfl, hrpar, equal, _, rfl, hequal, one, _, rfl, hnumeral, semicolon, _, rfl,
      hsemicolon, rfl⟩ := hmap
    obtain ⟨e, he⟩ := hone one hnumeral
    have hmarks : [functionWord, f, lpar, rpar, equal, semicolon].map (·.terminal) =
        [.functionWord, .name, .lpar, .rpar, .equal, .semicolon] := by
      simp [hterminal _ hfunctionWord, hterminal _ hf, hterminal _ hlpar, hterminal _ hrpar,
        hterminal _ hequal, hterminal _ hsemicolon]
    have hparams : Phrase source .params [id] (.names [id.toName source]) :=
      .params (hterminal id hid) .noMoreParams rfl
    exact ⟨_, id.toName source, .function hmarks hparams he rfl,
      List.mem_cons_of_mem _ List.mem_cons_self, hspelling id hid⟩
  case target =>
    obtain ⟨id, _, rfl, hid, equal, _, rfl, hequal, one, _, rfl, hnumeral, semicolon, _, rfl,
      hsemicolon, rfl⟩ := hmap
    obtain ⟨e, he⟩ := hone one hnumeral
    have hmarks : [id, equal, semicolon].map (·.terminal) = [.name, .equal, .semicolon] := by
      simp [hterminal _ hid, hterminal _ hequal, hterminal _ hsemicolon]
    exact ⟨_, id.toName source, .assignment hmarks he rfl, List.mem_cons_self, hspelling id hid⟩
  case operand =>
    obtain ⟨printWord, _, rfl, hprintWord, id, _, rfl, hid, semicolon, _, rfl, hsemicolon, rfl⟩ :=
      hmap
    have he : Phrase source .exp [id] (.expr (.name (id.toName source))) :=
      .loosen (.tighter rfl (.name (hterminal id hid))) rfl
    have hmarks : [printWord, semicolon].map (·.terminal) = [.printWord, .semicolon] := by
      simp [hterminal _ hprintWord, hterminal _ hsemicolon]
    exact ⟨_, id.toName source, .print hmarks he rfl, List.mem_singleton.mpr rfl, hspelling id hid⟩

/-- **A word that is free in a place is a name there**, in some text. -/
theorem NamePlace.exists_text (source : String) {place : NamePlace} {word : String}
    (h : place.Allows word) : ∃ text program id, Program.ofText source text = .ok program ∧
      (place, id) ∈ program.block.occurrences ∧ id.spelling = word := by
  let text := String.ofList ((place.sample word).flatMap fun lexeme => ' ' :: lexeme.text)
  have hrest : (Cursor.start text.toList).rest =
      (place.sample word).flatMap fun lexeme => ' ' :: lexeme.text := String.toList_ofList
  obtain ⟨tokens, after, hcut, hend, hmap⟩ := (leads_sample h).exists_cut hrest
  obtain ⟨s, id, hphrase, hmem, hspelling⟩ := exists_stmt source hmap
  obtain ⟨program, hprogram, hnames⟩ := hphrase.exists_program
  refine ⟨text, program, id, hcut.ofText hend hprogram, ?_, hspelling⟩
  rw [hnames]
  exact hmem

/-! ## Words that are names -/

/-- **What is reserved, place by place.**  Every name in the tree of a text stands in one of the
    places, and is a word that is free there; and every word that is free in a place is a name there
    in the tree of some text. -/
theorem Program.reserved_by_place (source : String) :
    (∀ (text : String) (program : Program), Program.ofText source text = .ok program →
      (∀ id, Node.Within (.program program.block) (.ofName id) →
        ∃ place, (place, id) ∈ program.block.occurrences) ∧
      ∀ place id, (place, id) ∈ program.block.occurrences →
        IsWord id.spelling.toList ∧ id.spelling ∉ place.reserved) ∧
    ∀ (place : NamePlace) (word : String), IsWord word.toList → word ∉ place.reserved →
      ∃ text program id, Program.ofText source text = .ok program ∧
        (place, id) ∈ program.block.occurrences ∧ id.spelling = word := by
  constructor
  · intro text program hread
    constructor
    · intro id hwithin
      exact Node.exists_occurrence_of_within hwithin
    · intro place id hmem
      exact Program.allows_of_ofText hread (place, id) hmem
  · intro place word hword hfree
    exact NamePlace.exists_text source ⟨hword, hfree⟩

/-- A variable can be declared that is named like a word of the language. -/
theorem Program.keyword_declared :
    ∃ program id, Program.ofText "here" "let print = true;" = .ok program ∧
      Node.Within (.program program.block) (.ofName id) ∧ id.spelling ∈ keywords := by
  have hread : Program.ofText "here" "let print = true;" =
      .ok ⟨.mk (some ⟨"here", ⟨1, 1, 0, 17⟩⟩)
        [.declaration (some ⟨"here", ⟨1, 1, 0, 17⟩⟩) ⟨"print", some ⟨"here", ⟨1, 5, 4, 9⟩⟩⟩
          (.boolean (some ⟨"here", ⟨1, 13, 12, 16⟩⟩) true)]⟩ := by
    decide +kernel
  refine ⟨_, ⟨"print", some ⟨"here", ⟨1, 5, 4, 9⟩⟩⟩, hread, ?_, by decide⟩
  exact .tail (.tail (.tail .refl List.mem_cons_self) List.mem_cons_self) List.mem_cons_self

end BellaLang
