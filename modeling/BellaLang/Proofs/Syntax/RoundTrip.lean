import BellaLang.Proofs.Grammar.Acceptance
import BellaLang.Proofs.Syntax.Printing

/-!
Writing a program and reading it back.

The text of a tree that can be written in a program is accepted, and what it is read as is the tree
again, sites apart (`ofText_plain_text`).  The way there and back goes over lexemes:

  1. the text of the tree spells the lexemes of the tree (`Stmt.row_spells`);
  2. a row of tokens with these lexemes is a phrase, and stands for the tree (`Expr.phrase`,
     `Stmt.phrase`), by induction on the tree;
  3. the automaton makes of a program phrase what the phrase stands for, and a text is read as what
     the automaton makes of its tokens.

Every operation is written in parentheses, so step 2 finds a primary wherever an operand belongs, or
else something subscripted.  Both are operands of every operator (`Phrase.loosen`).
-/

namespace BellaLang

open BellaLang.Number

/-! ## Trees without sites, and their numerals -/

/-- The name without its site. -/
def Name.bare (id : Name) : Name := ⟨id.spelling, none⟩

mutual

/-- The expression without its sites. -/
def Expr.bare : Expr → Expr
  | .numeral _ value => .numeral none value
  | .boolean _ value => .boolean none value
  | .name id => .name id.bare
  | .unary _ op operand => .unary none op operand.bare
  | .binary _ op left right => .binary none op left.bare right.bare
  | .call _ callee args => .call none callee.bare (Expr.bares args)
  | .conditional _ test consequent alternate =>
    .conditional none test.bare consequent.bare alternate.bare
  | .array _ elements => .array none (Expr.bares elements)
  | .subscript _ base index => .subscript none base.bare index.bare
  | .nothing => .nothing
  | .statement misfit => .statement misfit.bare
  | .program misfit => .program misfit.bare

/-- Several expressions without their sites. -/
def Expr.bares : List Expr → List Expr
  | [] => []
  | e :: rest => e.bare :: Expr.bares rest

/-- The statement without its sites. -/
def Stmt.bare : Stmt → Stmt
  | .declaration _ id value => .declaration none id.bare value.bare
  | .assignment _ id value => .assignment none id.bare value.bare
  | .function _ id params body => .function none id.bare (params.map Name.bare) body.bare
  | .print _ value => .print none value.bare
  | .block body => .block body.bare
  | .loop _ test body => .loop none test.bare body.bare

/-- Several statements without their sites. -/
def Stmt.bares : List Stmt → List Stmt
  | [] => []
  | s :: rest => s.bare :: Stmt.bares rest

/-- The block without its sites. -/
def Block.bare : Block → Block
  | .mk _ statements => .mk none (Stmt.bares statements)

end

mutual

/-- The numerals of an expression. -/
def Expr.numerals : Expr → List Float
  | .numeral _ value => [value]
  | .boolean .. | .name _ | .nothing => []
  | .unary _ _ operand => operand.numerals
  | .binary _ _ left right => left.numerals ++ right.numerals
  | .call _ _ args => Expr.allNumerals args
  | .conditional _ test consequent alternate =>
    test.numerals ++ consequent.numerals ++ alternate.numerals
  | .array _ elements => Expr.allNumerals elements
  | .subscript _ base index => base.numerals ++ index.numerals
  | .statement misfit => misfit.numerals
  | .program misfit => misfit.numerals

/-- The numerals of several expressions. -/
def Expr.allNumerals : List Expr → List Float
  | [] => []
  | e :: rest => e.numerals ++ Expr.allNumerals rest

/-- The numerals of a statement. -/
def Stmt.numerals : Stmt → List Float
  | .declaration _ _ value | .assignment _ _ value | .print _ value => value.numerals
  | .function _ _ _ body => body.numerals
  | .block body => body.numerals
  | .loop _ test body => test.numerals ++ body.numerals

/-- The numerals of several statements. -/
def Stmt.allNumerals : List Stmt → List Float
  | [] => []
  | s :: rest => s.numerals ++ Stmt.allNumerals rest

/-- The numerals of a block. -/
def Block.numerals : Block → List Float
  | .mk _ statements => Stmt.allNumerals statements

end

/-! ## Levels of precedence -/

/-- Is this a level of precedence, from subscripts on? -/
def Nonterminal.isLoose : Nonterminal → Bool
  | .exp | .disjunction | .conjunction | .comparison | .sum | .product | .unary | .power
  | .suffixed => true
  | _ => false

/-- Something subscripted is an operand of every operator. -/
theorem Phrase.loosen {source : String} {level : Nonterminal} {row : List Token} {e : Expr}
    (h : Phrase source .suffixed row (.expr e)) (hlevel : level.isLoose = true) :
    Phrase source level row (.expr e) := by
  have hpower : Phrase source .power row (.expr e) := .tighter rfl h
  have hunary : Phrase source .unary row (.expr e) := .tighter rfl hpower
  have hproduct : Phrase source .product row (.expr e) := .tighter rfl hunary
  have hsum : Phrase source .sum row (.expr e) := .tighter rfl hproduct
  have hcomparison : Phrase source .comparison row (.expr e) := .tighter rfl hsum
  have hconjunction : Phrase source .conjunction row (.expr e) := .tighter rfl hcomparison
  have hdisjunction : Phrase source .disjunction row (.expr e) := .tighter rfl hconjunction
  have hexp : Phrase source .exp row (.expr e) := .tighter rfl hdisjunction
  cases level <;> first | assumption | cases hlevel

/-- Whatever the level of an operation is, it is an expression. -/
theorem Phrase.to_exp {source : String} {level : Nonterminal} {row : List Token} {e : Expr}
    (h : Phrase source level row (.expr e)) (hlevel : level.isLoose = true) :
    Phrase source .exp row (.expr e) := by
  cases level <;> cases hlevel <;> repeat first | exact h | refine .tighter rfl ?_

/-- The operator of a symbol has a level, and its operands have. -/
theorem exists_level_of_binaryTerminal? {op : String} {t : Terminal}
    (h : binaryTerminal? op = some t) :
    ∃ level left right, Nonterminal.operands? level t = some (left, right) ∧
      level.isLoose = true ∧ left.isLoose = true ∧ right.isLoose = true := by
  unfold binaryTerminal? at h
  split at h <;> cases h <;> first
    | exact ⟨.disjunction, .disjunction, .conjunction, rfl, rfl, rfl, rfl⟩
    | exact ⟨.conjunction, .conjunction, .comparison, rfl, rfl, rfl, rfl⟩
    | exact ⟨.comparison, .sum, .sum, rfl, rfl, rfl, rfl⟩
    | exact ⟨.sum, .sum, .product, rfl, rfl, rfl, rfl⟩
    | exact ⟨.product, .product, .unary, rfl, rfl, rfl, rfl⟩
    | exact ⟨.power, .suffixed, .unary, rfl, rfl, rfl, rfl⟩

theorem mark_of_unaryTerminal? {op : String} {t : Terminal} (h : unaryTerminal? op = some t) :
    t = .minus ∨ t = .bang := by
  unfold unaryTerminal? at h
  split at h <;> cases h
  · exact .inl rfl
  · exact .inr rfl

/-! ## Tokens with given lexemes -/

theorem Token.of_lexeme {token : Token} {lexeme : Lexeme} (h : token.lexeme = lexeme) :
    token.terminal = lexeme.terminal ∧ token.text = lexeme.text :=
  ⟨congrArg Lexeme.terminal h, congrArg Lexeme.text h⟩

theorem Token.word_of_lexeme {token : Token} {t : Terminal} {word : String}
    (h : token.lexeme = ⟨t, word.toList⟩) : token.terminal = t ∧ token.word = word := by
  obtain ⟨hterminal, htext⟩ := Token.of_lexeme h
  refine ⟨hterminal, ?_⟩
  rw [Token.word, htext]
  exact String.ofList_toList

/-- A token that is written as a name is that name. -/
theorem Token.name_of_lexeme {token : Token} {id : Name} (h : token.lexeme = .ofWord id.spelling)
    (hname : isName id.spelling = true) (source : String) :
    token.terminal = .name ∧ (token.toName source).bare = id.bare := by
  obtain ⟨hterminal, hword⟩ := Token.word_of_lexeme h
  constructor
  · simp only [isName, Bool.and_eq_true, decide_eq_true_eq, beq_iff_eq] at hname
    rw [hterminal, refine, if_pos rfl, hname.2]
  · rw [Token.toName, Name.bare, hword]
    rfl

/-! ## Expressions -/

/-- The text of a numeral is read as the number that it was made from. -/
def ReadsBack (x : Float) : Prop := numeralValue (literal.write x) = x

instance (x : Float) : Decidable (ReadsBack x) := inferInstanceAs (Decidable (_ = _))

/-- An expression in parentheses is an operand. -/
theorem Phrase.in_parentheses {source : String} {level : Nonterminal} {lpar rpar : Token}
    {row : List Token} {e : Expr} (h : Phrase source level row (.expr e))
    (hlevel : level.isLoose = true) (hlpar : lpar.lexeme = Terminal.lpar.mark)
    (hrpar : rpar.lexeme = Terminal.rpar.mark) :
    Phrase source .suffixed (lpar :: (row ++ [rpar])) (.expr e) := by
  have hmarks : [lpar, rpar].map (·.terminal) = [.lpar, .rpar] := by
    simp [(Token.of_lexeme hlpar).1, (Token.of_lexeme hrpar).1, Terminal.mark]
  exact .tighter rfl (.parenthesised hmarks (h.to_exp hlevel) rfl)

/-- A row of tokens is an operand that stands for the expression, sites apart. -/
def Expr.Stands (source : String) (row : List Token) (e : Expr) : Prop :=
  ∃ e' : Expr, Phrase source .suffixed row (.expr e') ∧ e'.bare = e.bare

mutual

/-- **Expressions.**  A row of tokens with the lexemes of an expression stands for it. -/
theorem Expr.phrase (source : String) : ∀ e : Expr, e.isWritable = true →
    (∀ x ∈ e.numerals, ReadsBack x) → ∀ row : List Token, row.map Token.lexeme = e.lexemes →
      e.Stands source row
  | .numeral site value, _, hreads => by
    intro row hrow
    obtain ⟨token, rfl, htoken⟩ := List.map_eq_singleton_iff.mp hrow
    obtain ⟨hterminal, htext⟩ := Token.of_lexeme htoken
    refine ⟨_, .tighter rfl (.numeral hterminal), ?_⟩
    rw [bare, bare, htext, hreads value (List.mem_singleton_self value)]
  | .boolean site value, _, _ => by
    intro row hrow
    obtain ⟨token, rfl, htoken⟩ := List.map_eq_singleton_iff.mp hrow
    obtain ⟨hterminal, -⟩ := Token.of_lexeme htoken
    cases value
    · exact ⟨_, .tighter rfl (.falseLiteral hterminal), rfl⟩
    · exact ⟨_, .tighter rfl (.trueLiteral hterminal), rfl⟩
  | .name id, h, _ => by
    intro row hrow
    obtain ⟨token, rfl, htoken⟩ := List.map_eq_singleton_iff.mp hrow
    obtain ⟨hterminal, hid⟩ := Token.name_of_lexeme htoken h source
    exact ⟨_, .tighter rfl (.name hterminal), by rw [bare, hid, bare]⟩
  | .unary site op operand, h, hreads => by
    intro row hrow
    simp only [isWritable, Bool.and_eq_true] at h
    obtain ⟨t, ht⟩ := Option.isSome_iff_exists.mp h.1
    simp only [lexemes, ht, Option.getD_some, List.map_eq_cons_iff, List.map_eq_append_iff,
      List.map_eq_nil_iff] at hrow
    obtain ⟨lpar, _, rfl, hlpar, sign, _, rfl, hsign, u, _, rfl, hu, rpar, _, rfl, hrpar, rfl⟩ :=
      hrow
    obtain ⟨e, he, hbare⟩ := operand.phrase source h.2 hreads u hu
    obtain ⟨hterminal, hword⟩ := Token.word_of_lexeme hsign
    have hoperation := Phrase.unary (hterminal ▸ mark_of_unaryTerminal? ht) (he.loosen rfl) rfl
    refine ⟨_, hoperation.in_parentheses rfl hlpar hrpar, ?_⟩
    rw [bare, bare, hword, hbare]
  | .binary site op left right, h, hreads => by
    intro row hrow
    simp only [isWritable, Bool.and_eq_true] at h
    obtain ⟨⟨hop, hleft⟩, hright⟩ := h
    obtain ⟨t, ht⟩ := Option.isSome_iff_exists.mp hop
    obtain ⟨hleftReads, hrightReads⟩ := List.forall_mem_append.mp hreads
    simp only [lexemes, ht, Option.getD_some, List.map_eq_cons_iff, List.map_eq_append_iff,
      List.map_eq_nil_iff] at hrow
    obtain ⟨lpar, _, rfl, hlpar, u, _, rfl, hu, sign, _, rfl, hsign, v, _, rfl, hv, rpar, _, rfl,
      hrpar, rfl⟩ := hrow
    obtain ⟨a, ha, habare⟩ := left.phrase source hleft hleftReads u hu
    obtain ⟨b, hb, hbbare⟩ := right.phrase source hright hrightReads v hv
    obtain ⟨hterminal, hword⟩ := Token.word_of_lexeme hsign
    obtain ⟨level, first, second, hlevel, hloose, hfirst, hsecond⟩ :=
      exists_level_of_binaryTerminal? ht
    -- Operands are suffixed, whatever they are, and so they fit the levels of any operator.
    have hoperation := Phrase.binary (hterminal ▸ hlevel) (ha.loosen hfirst) (hb.loosen hsecond) rfl
    have hphrase := hoperation.in_parentheses hloose hlpar hrpar
    simp only [List.append_assoc, List.cons_append, List.nil_append] at hphrase
    refine ⟨_, hphrase, ?_⟩
    rw [bare, bare, hword, habare, hbbare]
  | .call site callee args, h, hreads => by
    intro row hrow
    simp only [isWritable, Bool.and_eq_true] at h
    simp only [lexemes, List.map_eq_cons_iff, List.map_eq_append_iff, List.map_eq_nil_iff] at hrow
    obtain ⟨id, _, rfl, hid, lpar, _, rfl, hlpar, u, _, rfl, hu, rpar, _, rfl, hrpar, rfl⟩ := hrow
    obtain ⟨hterminal, hcallee⟩ := Token.name_of_lexeme hid h.1 source
    have hmarks : [id, lpar, rpar].map (·.terminal) = [.name, .lpar, .rpar] := by
      simp [hterminal, (Token.of_lexeme hlpar).1, (Token.of_lexeme hrpar).1, Terminal.mark]
    rcases Expr.row_phrase source args h.2 hreads u hu with ⟨rfl, rfl⟩ | ⟨es, hes, hbare⟩
    · refine ⟨_, .tighter rfl (.callWithoutArgs hmarks rfl), ?_⟩
      rw [bare, bare, hcallee]
    · refine ⟨_, .tighter rfl (.call hmarks hes rfl), ?_⟩
      rw [bare, bare, hcallee, hbare]
  | .conditional site test consequent alternate, h, hreads => by
    intro row hrow
    simp only [isWritable, Bool.and_eq_true] at h
    obtain ⟨⟨htest, hconsequent⟩, halternate⟩ := h
    obtain ⟨hreads, hthird⟩ := List.forall_mem_append.mp hreads
    obtain ⟨hfirst, hsecond⟩ := List.forall_mem_append.mp hreads
    simp only [lexemes, List.map_eq_cons_iff, List.map_eq_append_iff, List.map_eq_nil_iff] at hrow
    obtain ⟨lpar, _, rfl, hlpar, u, _, rfl, hu, qmark, _, rfl, hqmark, v, _, rfl, hv, colon, _, rfl,
      hcolon, w, _, rfl, hw, rpar, _, rfl, hrpar, rfl⟩ := hrow
    obtain ⟨a, ha, habare⟩ := test.phrase source htest hfirst u hu
    obtain ⟨b, hb, hbbare⟩ := consequent.phrase source hconsequent hsecond v hv
    obtain ⟨c, hc, hcbare⟩ := alternate.phrase source halternate hthird w hw
    have hmarks : [qmark, colon].map (·.terminal) = [.qmark, .colon] := by
      simp [(Token.of_lexeme hqmark).1, (Token.of_lexeme hcolon).1, Terminal.mark]
    have hchoice := Phrase.conditional hmarks (ha.loosen rfl) (hb.loosen rfl) (hc.loosen rfl) rfl
    have hphrase := hchoice.in_parentheses rfl hlpar hrpar
    simp only [List.append_assoc, List.cons_append, List.nil_append] at hphrase
    refine ⟨_, hphrase, ?_⟩
    rw [bare, bare, habare, hbbare, hcbare]
  | .array site elements, h, hreads => by
    intro row hrow
    simp only [lexemes, List.map_eq_cons_iff, List.map_eq_append_iff, List.map_eq_nil_iff] at hrow
    obtain ⟨lsqb, _, rfl, hlsqb, u, _, rfl, hu, rsqb, _, rfl, hrsqb, rfl⟩ := hrow
    have hmarks : [lsqb, rsqb].map (·.terminal) = [.lsqb, .rsqb] := by
      simp [(Token.of_lexeme hlsqb).1, (Token.of_lexeme hrsqb).1, Terminal.mark]
    rcases Expr.row_phrase source elements h hreads u hu with ⟨rfl, rfl⟩ | ⟨es, hes, hbare⟩
    · exact ⟨_, .tighter rfl (.emptyArray hmarks rfl), rfl⟩
    · refine ⟨_, .tighter rfl (.array hmarks hes rfl), ?_⟩
      rw [bare, bare, hbare]
  | .subscript site base index, h, hreads => by
    intro row hrow
    simp only [isWritable, Bool.and_eq_true] at h
    obtain ⟨hbaseReads, hindexReads⟩ := List.forall_mem_append.mp hreads
    simp only [lexemes, List.map_eq_cons_iff, List.map_eq_append_iff, List.map_eq_nil_iff] at hrow
    obtain ⟨u, _, rfl, hu, lsqb, _, rfl, hlsqb, v, _, rfl, hv, rsqb, _, rfl, hrsqb, rfl⟩ := hrow
    obtain ⟨a, ha, habare⟩ := base.phrase source h.1 hbaseReads u hu
    obtain ⟨b, hb, hbbare⟩ := index.phrase source h.2 hindexReads v hv
    have hmarks : [lsqb, rsqb].map (·.terminal) = [.lsqb, .rsqb] := by
      simp [(Token.of_lexeme hlsqb).1, (Token.of_lexeme hrsqb).1, Terminal.mark]
    refine ⟨_, .subscript hmarks ha (hb.loosen rfl) (by simp), ?_⟩
    rw [bare, bare, habare, hbbare]

/-- A row of tokens with the lexemes of several expressions is empty if there are none, and stands
    for them if there are some. -/
theorem Expr.row_phrase (source : String) : ∀ es : List Expr, Expr.areWritable es = true →
    (∀ x ∈ Expr.allNumerals es, ReadsBack x) → ∀ row : List Token,
      row.map Token.lexeme = Expr.rowLexemes es →
      row = [] ∧ es = [] ∨
        ∃ es', Phrase source .args row (.exprs es') ∧ Expr.bares es' = Expr.bares es
  | [], _, _ => fun row hrow => .inl ⟨List.map_eq_nil_iff.mp hrow, rfl⟩
  | e :: es, h, hreads => by
    intro row hrow
    simp only [areWritable, Bool.and_eq_true] at h
    obtain ⟨hfirst, hmore⟩ := List.forall_mem_append.mp hreads
    obtain ⟨u, v, rfl, hu, hv⟩ := List.map_eq_append_iff.mp hrow
    obtain ⟨e', he, hbare⟩ := e.phrase source h.1 hfirst u hu
    obtain ⟨es', hes, hbares⟩ := Expr.more_phrase source es h.2 hmore v hv [] [] .noMoreArgs
    refine .inr ⟨e' :: es', .args (he.loosen rfl) hes rfl, ?_⟩
    rw [bares, bares, hbare, hbares]

/-- More expressions, each after a comma, stand behind those that are there already. -/
theorem Expr.more_phrase (source : String) : ∀ es : List Expr, Expr.areWritable es = true →
    (∀ x ∈ Expr.allNumerals es, ReadsBack x) → ∀ row : List Token,
      row.map Token.lexeme = Expr.moreLexemes es →
      ∀ (before : List Token) (there : List Expr), Phrase source .moreArgs before (.exprs there) →
        ∃ es', Phrase source .moreArgs (before ++ row) (.exprs (there ++ es')) ∧
          Expr.bares es' = Expr.bares es
  | [], _, _ => by
    intro row hrow before there hthere
    obtain rfl := List.map_eq_nil_iff.mp hrow
    refine ⟨[], ?_, rfl⟩
    rw [List.append_nil, List.append_nil]
    exact hthere
  | e :: es, h, hreads => by
    intro row hrow before there hthere
    simp only [areWritable, Bool.and_eq_true] at h
    obtain ⟨hfirst, hmore⟩ := List.forall_mem_append.mp hreads
    simp only [moreLexemes, List.map_eq_cons_iff, List.map_eq_append_iff] at hrow
    obtain ⟨comma, _, rfl, hcomma, u, v, rfl, hu, hv⟩ := hrow
    obtain ⟨e', he, hbare⟩ := e.phrase source h.1 hfirst u hu
    have hnext : Phrase source .moreArgs (before ++ [comma] ++ u) (.exprs (there ++ [e'])) :=
      .nextArg (Token.of_lexeme hcomma).1 hthere (he.loosen rfl) rfl
    obtain ⟨es', hes, hbares⟩ := Expr.more_phrase source es h.2 hmore v hv _ _ hnext
    simp only [List.append_assoc, List.cons_append, List.nil_append] at hes
    refine ⟨e' :: es', hes, ?_⟩
    rw [bares, bares, hbare, hbares]

end

/-! ## Parameters -/

theorem Name.more_phrase (source : String) (ids : List Name)
    (h : ids.all (fun id => isName id.spelling) = true) {row : List Token}
    (hrow : row.map Token.lexeme = Name.moreLexemes ids) {before : List Token} {there : List Name}
    (hthere : Phrase source .moreParams before (.names there)) :
    ∃ ids', Phrase source .moreParams (before ++ row) (.names (there ++ ids')) ∧
      ids'.map Name.bare = ids.map Name.bare := by
  induction ids generalizing row before there with
  | nil =>
    obtain rfl := List.map_eq_nil_iff.mp hrow
    refine ⟨[], ?_, rfl⟩
    rw [List.append_nil, List.append_nil]
    exact hthere
  | cons id ids ih =>
    simp only [List.all_cons, Bool.and_eq_true] at h
    simp only [moreLexemes, List.flatMap_cons, List.cons_append, List.nil_append,
      List.map_eq_cons_iff] at hrow
    obtain ⟨comma, _, rfl, hcomma, token, v, rfl, htoken, hv⟩ := hrow
    obtain ⟨hterminal, hbare⟩ := Token.name_of_lexeme htoken h.1 source
    have hmarks : [comma, token].map (·.terminal) = [.comma, .name] := by
      simp [(Token.of_lexeme hcomma).1, hterminal, Terminal.mark]
    obtain ⟨ids', hids, hbares⟩ := ih h.2 hv (.nextParam hmarks hthere rfl)
    simp only [List.append_assoc, List.cons_append, List.nil_append] at hids
    refine ⟨token.toName source :: ids', hids, ?_⟩
    rw [List.map_cons, List.map_cons, hbare, hbares]

/-- A row of tokens with the lexemes of several parameters is empty if there are none, and stands
    for them if there are some. -/
theorem Name.row_phrase (source : String) (ids : List Name)
    (h : ids.all (fun id => isName id.spelling) = true) {row : List Token}
    (hrow : row.map Token.lexeme = Name.rowLexemes ids) :
    row = [] ∧ ids = [] ∨
      ∃ ids', Phrase source .params row (.names ids') ∧ ids'.map Name.bare = ids.map Name.bare := by
  cases ids with
  | nil => exact .inl ⟨List.map_eq_nil_iff.mp hrow, rfl⟩
  | cons id ids =>
    simp only [List.all_cons, Bool.and_eq_true] at h
    obtain ⟨token, v, rfl, htoken, hv⟩ := List.map_eq_cons_iff.mp hrow
    obtain ⟨hterminal, hbare⟩ := Token.name_of_lexeme htoken h.1 source
    obtain ⟨ids', hids, hbares⟩ := Name.more_phrase source ids h.2 hv .noMoreParams
    refine .inr ⟨token.toName source :: ids', .params hterminal hids rfl, ?_⟩
    rw [List.map_cons, List.map_cons, hbare, hbares]

/-! ## Statements -/

mutual

/-- **Statements.**  A row of tokens with the lexemes of a statement stands for it. -/
theorem Stmt.phrase (source : String) : ∀ s : Stmt, s.isWritable = true →
    (∀ x ∈ s.numerals, ReadsBack x) → ∀ row : List Token, row.map Token.lexeme = s.lexemes →
      ∃ s', Phrase source .statement row (.stmt s') ∧ s'.bare = s.bare
  | .declaration site id value, h, hreads => by
    intro row hrow
    simp only [isWritable, Bool.and_eq_true] at h
    simp only [lexemes, List.map_eq_cons_iff, List.map_eq_append_iff, List.map_eq_nil_iff] at hrow
    obtain ⟨letWord, _, rfl, hlet, name, _, rfl, hname, equal, _, rfl, hequal, u, _, rfl, hu,
      semicolon, _, rfl, hsemicolon, rfl⟩ := hrow
    obtain ⟨hterminal, hid⟩ := Token.name_of_lexeme hname h.1 source
    obtain ⟨e, he, hbare⟩ := value.phrase source h.2 hreads u hu
    have hmarks : [letWord, name, equal, semicolon].map (·.terminal) =
        [.letWord, .name, .equal, .semicolon] := by
      simp [(Token.of_lexeme hlet).1, hterminal, (Token.of_lexeme hequal).1,
        (Token.of_lexeme hsemicolon).1, Terminal.mark]
      rfl
    refine ⟨_, .declaration hmarks (he.loosen rfl) rfl, ?_⟩
    rw [bare, bare, hid, hbare]
  | .assignment site id value, h, hreads => by
    intro row hrow
    simp only [isWritable, Bool.and_eq_true] at h
    simp only [lexemes, List.map_eq_cons_iff, List.map_eq_append_iff, List.map_eq_nil_iff] at hrow
    obtain ⟨name, _, rfl, hname, equal, _, rfl, hequal, u, _, rfl, hu, semicolon, _, rfl,
      hsemicolon, rfl⟩ := hrow
    obtain ⟨hterminal, hid⟩ := Token.name_of_lexeme hname h.1 source
    obtain ⟨e, he, hbare⟩ := value.phrase source h.2 hreads u hu
    have hmarks : [name, equal, semicolon].map (·.terminal) = [.name, .equal, .semicolon] := by
      simp [hterminal, (Token.of_lexeme hequal).1, (Token.of_lexeme hsemicolon).1, Terminal.mark]
    refine ⟨_, .assignment hmarks (he.loosen rfl) rfl, ?_⟩
    rw [bare, bare, hid, hbare]
  | .function site id params body, h, hreads => by
    intro row hrow
    simp only [isWritable, Bool.and_eq_true] at h
    obtain ⟨⟨hidName, hparams⟩, hbody⟩ := h
    simp only [lexemes, List.map_eq_cons_iff, List.map_eq_append_iff, List.map_eq_nil_iff] at hrow
    obtain ⟨functionWord, _, rfl, hfunction, name, _, rfl, hname, lpar, _, rfl, hlpar, v, _, rfl,
      hv, rpar, _, rfl, hrpar, equal, _, rfl, hequal, u, _, rfl, hu, semicolon, _, rfl, hsemicolon,
      rfl⟩ := hrow
    obtain ⟨hterminal, hid⟩ := Token.name_of_lexeme hname hidName source
    obtain ⟨e, he, hbare⟩ := body.phrase source hbody hreads u hu
    have hmarks : [functionWord, name, lpar, rpar, equal, semicolon].map (·.terminal) =
        [.functionWord, .name, .lpar, .rpar, .equal, .semicolon] := by
      simp [(Token.of_lexeme hfunction).1, hterminal, (Token.of_lexeme hlpar).1,
        (Token.of_lexeme hrpar).1, (Token.of_lexeme hequal).1, (Token.of_lexeme hsemicolon).1,
        Terminal.mark]
      rfl
    rcases Name.row_phrase source params hparams hv with ⟨rfl, rfl⟩ | ⟨ids, hids, hbares⟩
    · refine ⟨_, .functionWithoutParams hmarks (he.loosen rfl) rfl, ?_⟩
      rw [bare, bare, hid, hbare]
    · refine ⟨_, .function hmarks hids (he.loosen rfl) (by simp), ?_⟩
      rw [bare, bare, hid, hbare, hbares]
  | .print site value, h, hreads => by
    intro row hrow
    simp only [lexemes, List.map_eq_cons_iff, List.map_eq_append_iff, List.map_eq_nil_iff] at hrow
    obtain ⟨printWord, _, rfl, hprint, u, _, rfl, hu, semicolon, _, rfl, hsemicolon, rfl⟩ := hrow
    obtain ⟨e, he, hbare⟩ := value.phrase source h hreads u hu
    have hmarks : [printWord, semicolon].map (·.terminal) = [.printWord, .semicolon] := by
      simp [(Token.of_lexeme hprint).1, (Token.of_lexeme hsemicolon).1, Terminal.mark]
      rfl
    refine ⟨_, .print hmarks (he.loosen rfl) rfl, ?_⟩
    rw [bare, bare, hbare]
  | .loop site test (.mk blockSite statements), h, hreads => by
    intro row hrow
    simp only [isWritable, Bool.and_eq_true] at h
    obtain ⟨htestReads, hstatementsReads⟩ := List.forall_mem_append.mp hreads
    simp only [lexemes, List.map_eq_cons_iff, List.map_eq_append_iff, List.map_eq_nil_iff] at hrow
    obtain ⟨whileWord, _, rfl, hwhile, u, _, rfl, hu, lbrace, _, rfl, hlbrace, v, _, rfl, hv,
      rbrace, _, rfl, hrbrace, rfl⟩ := hrow
    obtain ⟨e, he, hbare⟩ := test.phrase source h.1 htestReads u hu
    obtain ⟨ss, hss, hbares⟩ :=
      Stmt.row_phrase source statements h.2 hstatementsReads v hv [] [] .noStatements
    have hmarks : [lbrace, rbrace].map (·.terminal) = [.lbrace, .rbrace] := by
      simp [(Token.of_lexeme hlbrace).1, (Token.of_lexeme hrbrace).1, Terminal.mark]
    have hblock : Phrase source .block (lbrace :: (v ++ [rbrace])) (.block (.mk _ ss)) :=
      .block hmarks hss rfl
    refine ⟨_, .loop (Token.of_lexeme hwhile).1 (he.loosen rfl) hblock rfl, ?_⟩
    rw [bare, bare, Block.bare, Block.bare, hbare, hbares]

/-- Several statements stand behind those that are there already. -/
theorem Stmt.row_phrase (source : String) : ∀ ss : List Stmt, Stmt.areWritable ss = true →
    (∀ x ∈ Stmt.allNumerals ss, ReadsBack x) → ∀ row : List Token,
      row.map Token.lexeme = Stmt.rowLexemes ss →
      ∀ (before : List Token) (there : List Stmt),
        Phrase source .statements before (.stmts there) →
        ∃ ss', Phrase source .statements (before ++ row) (.stmts (there ++ ss')) ∧
          Stmt.bares ss' = Stmt.bares ss
  | [], _, _ => by
    intro row hrow before there hthere
    obtain rfl := List.map_eq_nil_iff.mp hrow
    refine ⟨[], ?_, rfl⟩
    rw [List.append_nil, List.append_nil]
    exact hthere
  | s :: ss, h, hreads => by
    intro row hrow before there hthere
    simp only [areWritable, Bool.and_eq_true] at h
    obtain ⟨hfirst, hmore⟩ := List.forall_mem_append.mp hreads
    obtain ⟨u, v, rfl, hu, hv⟩ := List.map_eq_append_iff.mp hrow
    obtain ⟨s', hs, hbare⟩ := s.phrase source h.1 hfirst u hu
    have hnext : Phrase source .statements (before ++ u) (.stmts (there ++ [s'])) :=
      .nextStatement hthere hs rfl
    obtain ⟨ss', hss, hbares⟩ := Stmt.row_phrase source ss h.2 hmore v hv _ _ hnext
    rw [List.append_assoc, List.append_assoc] at hss
    refine ⟨s' :: ss', hss, ?_⟩
    rw [bares, bares, hbare, hbares]

end

/-! ## There and back -/

/-- **Writing and reading back.**  Statements that can be written are written as a text that is
    accepted, and that is read as these statements, sites apart.  That numbers are read back from
    their texts is assumed for the numerals that occur. -/
theorem ofText_plain_text (source : String) (ss : List Stmt) (h : Stmt.areWritable ss = true)
    (hreads : ∀ x ∈ Stmt.allNumerals ss, ReadsBack x) :
    ∃ program, Program.ofText source (" ".intercalate (Stmt.textsIn .plain ss)) = .ok program ∧
      Stmt.bares program.block.statements = Stmt.bares ss := by
  generalize htext : " ".intercalate (Stmt.textsIn .plain ss) = text
  have hspells : Spells (Cursor.start text.toList).rest (Stmt.rowLexemes ss) := by
    have hrow := Stmt.row_spells ss h [] [] .nothing
    rw [List.append_nil, List.append_nil, ← Stmt.toList_intercalate, htext] at hrow
    exact hrow
  obtain ⟨tokens, hlexemes, hread⟩ := hspells.readFrom
  obtain ⟨ss', hss, hbares⟩ :=
    Stmt.row_phrase source ss h hreads tokens hlexemes [] [] .noStatements
  have hphrase : ProgramPhrase source tokens ⟨.mk (rowSite source tokens) ss'⟩ := .program hss
  obtain ⟨d, hd, hprogram⟩ := programPhrase_iff.mp hphrase
  have hderivation : readText text = .ok d := hread [] none d hd.readTokens_eq
  refine ⟨⟨.mk (rowSite source tokens) ss'⟩, ?_, hbares⟩
  rw [Program.ofText, hderivation, ← hprogram]
  rfl

/-- A loop, a function with a parameter, a call, an array that is subscripted, and operators of
    several levels one inside the other. -/
theorem ofText_plain_text_loop :
    let x : Expr := .name ⟨"x", none⟩
    let ss : List Stmt :=
      [.function none ⟨"f", none⟩ [⟨"x", none⟩, ⟨"y", none⟩]
        (.binary none "**" (.unary none "-" x) (.numeral none 0.5)),
       .loop none (.binary none "<" (.subscript none (.array none [x, .boolean none true]) x)
          (.numeral none 1e21))
        (.mk none [.assignment none ⟨"x", none⟩ (.call none ⟨"f", none⟩ [x, .numeral none 3])])]
    ∃ program, Program.ofText "here" (" ".intercalate (Stmt.textsIn .plain ss)) = .ok program ∧
      Stmt.bares program.block.statements = Stmt.bares ss :=
  ofText_plain_text "here" _ (by decide +kernel) (by decide +kernel)

end BellaLang
