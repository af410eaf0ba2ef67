import BellaLang.Proofs.Grammar.Completeness
import BellaLang.Proofs.Grammar.Language
import BellaLang.Proofs.Grammar.Phrases
import BellaLang.Proofs.Grammar.Soundness

/-!
The reader accepts exactly the language, and makes the tree that the concrete syntax prescribes.

Everything is put together here.  What is left to show is that the concrete syntax asks for nothing
that the rules do not give: every phrase has a grammatical derivation, and the tree made from it is
the one the phrase stands for (`Phrase.realised`), by induction on the phrase.

The chain is then

  the automaton makes `d` of the tokens  ⟺  `d` is a grammatical derivation of them
    ⟺  the terminals are a word of the grammar  ⟺  the tokens are a program phrase,

and the tree of `d` is the tree of the phrase.
-/

namespace BellaLang

/-! ## From phrases to derivations -/

/-- The derivation makes a phrase of some kind of a row of tokens, and is read as a piece. -/
structure Derivation.Makes (source : String) (d : Derivation) (n : Nonterminal)
    (row : List Token) (piece : Piece) : Prop where
  grammatical : d.IsGrammatical
  symbol : d.symbol = .phrase n
  tokens : d.tokens = row
  piece : d.piece source n = piece

/-- The rules know no empty repetitions: these are read as nothing at all. -/
def Nonterminal.repeatsNothing? : Nonterminal → Option Piece
  | .statements => some (.stmts [])
  | .moreParams => some (.names [])
  | .moreArgs => some (.exprs [])
  | _ => none

/-- There is a derivation for the phrase, if it is not an empty repetition. -/
def Realised (source : String) (n : Nonterminal) (row : List Token) (piece : Piece) : Prop :=
  (∃ d : Derivation, d.Makes source n row piece) ∨ row = [] ∧ n.repeatsNothing? = some piece

theorem Realised.derivation {source : String} {n : Nonterminal} {row : List Token} {piece : Piece}
    (h : Realised source n row piece) (hn : n.repeatsNothing? = none) :
    ∃ d : Derivation, d.Makes source n row piece := by
  rcases h with hd | ⟨-, hempty⟩
  · exact hd
  · rw [hn] at hempty
    cases hempty

/-- A rule makes a phrase of its parts. -/
theorem Realised.ofRule {source : String} {row : List Token} {piece : Piece} (rule : Rule)
    (children : List Derivation) (hsymbols : children.map Derivation.symbol = rule.rhs)
    (hchildren : ∀ child ∈ children, child.IsGrammatical)
    (hrow : children.flatMap Derivation.tokens = row)
    (hpiece : siteIn source (joinExtents (children.map Derivation.extent?)) = rowSite source row →
      (Derivation.ofRule rule children).piece source rule.lhs = piece) :
    Realised source rule.lhs row piece := by
  have hgrammatical : (Derivation.ofRule rule children).IsGrammatical :=
    .ofRule rule children hsymbols hchildren
  have htokens : (Derivation.ofRule rule children).tokens = row := by
    rw [Derivation.tokens_ofRule, hrow]
  refine .inl ⟨_, hgrammatical, rfl, htokens, hpiece ?_⟩
  rw [← htokens]
  exact congrArg (siteIn source) hgrammatical.extent_eq

/-- Every level of precedence leads to the next one by a rule that leaves no trace. -/
theorem Nonterminal.exists_rule_of_tighter {level inner : Nonterminal}
    (h : level.tighter? = some inner) :
    ∃ rule : Rule, rule.lhs = level ∧ rule.rhs = [.phrase inner] ∧
      ∀ (source : String) (d : Derivation),
        (Derivation.ofRule rule [d]).piece source level = d.piece source inner := by
  cases level <;> cases h
  case exp => exact ⟨.disjunctionAlone, rfl, rfl, fun _ _ => rfl⟩
  case disjunction => exact ⟨.conjunctionAlone, rfl, rfl, fun _ _ => rfl⟩
  case conjunction => exact ⟨.comparisonAlone, rfl, rfl, fun _ _ => rfl⟩
  case comparison => exact ⟨.sumAlone, rfl, rfl, fun _ _ => rfl⟩
  case sum => exact ⟨.productAlone, rfl, rfl, fun _ _ => rfl⟩
  case product => exact ⟨.unaryAlone, rfl, rfl, fun _ _ => rfl⟩
  case unary => exact ⟨.powerAlone, rfl, rfl, fun _ _ => rfl⟩
  case power => exact ⟨.suffixedAlone, rfl, rfl, fun _ _ => rfl⟩
  case suffixed => exact ⟨.primaryAlone, rfl, rfl, fun _ _ => rfl⟩

/-- Every operator between two operands has a rule of its own. -/
theorem Nonterminal.exists_rule_of_operands {level left right : Nonterminal} {op : Terminal}
    (h : level.operands? op = some (left, right)) :
    ∃ rule : Rule, rule.lhs = level ∧ rule.rhs = [.phrase left, .token op, .phrase right] ∧
      ∀ (source : String) (a sign b : Derivation),
        (Derivation.ofRule rule [a, sign, b]).piece source level =
          .expr (.binary (siteIn source (joinExtents ([a, sign, b].map Derivation.extent?)))
            sign.word (a.toExpr source) (b.toExpr source)) := by
  unfold operands? at h
  split at h <;> cases h
  · exact ⟨.or, rfl, rfl, fun _ _ _ _ => rfl⟩
  · exact ⟨.and, rfl, rfl, fun _ _ _ _ => rfl⟩
  · exact ⟨.compare, rfl, rfl, fun _ _ _ _ => rfl⟩
  · exact ⟨.add, rfl, rfl, fun _ _ _ _ => rfl⟩
  · exact ⟨.subtract, rfl, rfl, fun _ _ _ _ => rfl⟩
  · exact ⟨.multiply, rfl, rfl, fun _ _ _ _ => rfl⟩
  · exact ⟨.divide, rfl, rfl, fun _ _ _ _ => rfl⟩
  · exact ⟨.remainder, rfl, rfl, fun _ _ _ _ => rfl⟩
  · exact ⟨.power, rfl, rfl, fun _ _ _ _ => rfl⟩

/-- An operand is an expression at every level. -/
theorem Nonterminal.piece_of_operands {level left right : Nonterminal} {op : Terminal}
    (h : level.operands? op = some (left, right)) (source : String) (d : Derivation) :
    d.piece source left = .expr (d.toExpr source) ∧
      d.piece source right = .expr (d.toExpr source) := by
  unfold operands? at h
  split at h <;> cases h <;> exact ⟨rfl, rfl⟩

/-- **Every phrase has a derivation**, unless it repeats nothing. -/
theorem Phrase.realised {source : String} {n : Nonterminal} {row : List Token} {piece : Piece}
    (h : Phrase source n row piece) : Realised source n row piece := by
  induction h with
  | @program row ss hss ih =>
    -- No statements at all are a rule of their own, here and for blocks.
    rcases ih with ⟨d, hd, hsymbol, rfl, ⟨⟩⟩ | ⟨rfl, ⟨⟩⟩
    · exact .ofRule .program [d] (by simp [hsymbol, Rule.rhs]) (by simp [hd]) (by simp)
        (fun hsite => by rw [← hsite]; rfl)
    · exact .ofRule .emptyProgram [] rfl (by simp) rfl (fun _ => rfl)
  | noStatements => exact .inr ⟨rfl, rfl⟩
  | @nextStatement row u v ss s hss hs hrow ihss ihs =>
    obtain ⟨last, hlast, hlastSymbol, rfl, ⟨⟩⟩ := ihs.derivation rfl
    rcases ihss with ⟨d, hd, hsymbol, rfl, ⟨⟩⟩ | ⟨rfl, ⟨⟩⟩
    · exact .ofRule .nextStatement [d, last] (by simp [hsymbol, hlastSymbol, Rule.rhs])
        (by simp [hd, hlast]) (by simp [hrow])
        (fun _ => congrArg Piece.stmts (d.toStmts_append source [_]))
    · exact .ofRule .firstStatement [last] (by simp [hlastSymbol, Rule.rhs]) (by simp [hlast])
        (by simp [hrow]) (fun _ => rfl)
  | @declaration letWord id equal semicolon row w e hmarks he hrow ih =>
    obtain ⟨d, hd, hsymbol, rfl, ⟨⟩⟩ := ih.derivation rfl
    simp only [List.map_cons, List.map_nil, List.cons.injEq] at hmarks
    exact .ofRule .declaration [.leaf letWord, .leaf id, .leaf equal, d, .leaf semicolon]
      (by simp [hmarks, hsymbol, Rule.rhs]) (by simp [hd]) (by simp [hrow])
      (fun hsite => by rw [← hsite]; rfl)
  | @functionWithoutParams functionWord id lpar rpar equal semicolon row w e hmarks he hrow ih =>
    obtain ⟨d, hd, hsymbol, rfl, ⟨⟩⟩ := ih.derivation rfl
    simp only [List.map_cons, List.map_nil, List.cons.injEq] at hmarks
    exact .ofRule .functionWithoutParams
      [.leaf functionWord, .leaf id, .leaf lpar, .leaf rpar, .leaf equal, d, .leaf semicolon]
      (by simp [hmarks, hsymbol, Rule.rhs]) (by simp [hd]) (by simp [hrow])
      (fun hsite => by rw [← hsite]; rfl)
  | @function functionWord id lpar rpar equal semicolon row w u ids e hmarks hids he hrow ihids
      ihe =>
    obtain ⟨params, hparams, hparamsSymbol, rfl, ⟨⟩⟩ := ihids.derivation rfl
    obtain ⟨d, hd, hsymbol, rfl, ⟨⟩⟩ := ihe.derivation rfl
    simp only [List.map_cons, List.map_nil, List.cons.injEq] at hmarks
    exact .ofRule .function
      [.leaf functionWord, .leaf id, .leaf lpar, params, .leaf rpar, .leaf equal, d,
        .leaf semicolon]
      (by simp [hmarks, hparamsSymbol, hsymbol, Rule.rhs]) (by simp [hd, hparams]) (by simp [hrow])
      (fun hsite => by rw [← hsite]; rfl)
  | @assignment id equal semicolon row w e hmarks he hrow ih =>
    obtain ⟨d, hd, hsymbol, rfl, ⟨⟩⟩ := ih.derivation rfl
    simp only [List.map_cons, List.map_nil, List.cons.injEq] at hmarks
    exact .ofRule .assignment [.leaf id, .leaf equal, d, .leaf semicolon]
      (by simp [hmarks, hsymbol, Rule.rhs]) (by simp [hd]) (by simp [hrow])
      (fun hsite => by rw [← hsite]; rfl)
  | @print printWord semicolon row w e hmarks he hrow ih =>
    obtain ⟨d, hd, hsymbol, rfl, ⟨⟩⟩ := ih.derivation rfl
    simp only [List.map_cons, List.map_nil, List.cons.injEq] at hmarks
    exact .ofRule .print [.leaf printWord, d, .leaf semicolon]
      (by simp [hmarks, hsymbol, Rule.rhs]) (by simp [hd]) (by simp [hrow])
      (fun hsite => by rw [← hsite]; rfl)
  | @loop whileWord row w u e body hmark he hbody hrow ihe ihbody =>
    obtain ⟨test, htest, htestSymbol, rfl, ⟨⟩⟩ := ihe.derivation rfl
    obtain ⟨d, hd, hsymbol, rfl, ⟨⟩⟩ := ihbody.derivation rfl
    exact .ofRule .loop [.leaf whileWord, test, d] (by simp [hmark, htestSymbol, hsymbol, Rule.rhs])
      (by simp [htest, hd]) (by simp [hrow]) (fun hsite => by rw [← hsite]; rfl)
  | @block lbrace rbrace row w ss hmarks hss hrow ih =>
    simp only [List.map_cons, List.map_nil, List.cons.injEq] at hmarks
    rcases ih with ⟨d, hd, hsymbol, rfl, ⟨⟩⟩ | ⟨rfl, ⟨⟩⟩
    · exact .ofRule .block [.leaf lbrace, d, .leaf rbrace] (by simp [hmarks, hsymbol, Rule.rhs])
        (by simp [hd]) (by simp [hrow]) (fun hsite => by rw [← hsite]; rfl)
    · exact .ofRule .emptyBlock [.leaf lbrace, .leaf rbrace] (by simp [hmarks, Rule.rhs])
        (by simp) (by simp [hrow]) (fun hsite => by rw [← hsite]; rfl)
  | @params id row u ids hmark hmore hrow ih =>
    -- A row of one has a rule of its own as well, since there is no derivation of no more.
    rcases ih with ⟨more, hd, hsymbol, rfl, ⟨⟩⟩ | ⟨rfl, ⟨⟩⟩
    · exact .ofRule .severalParams [.leaf id, more] (by simp [hmark, hsymbol, Rule.rhs])
        (by simp [hd]) (by simp [hrow]) (fun _ => rfl)
    · exact .ofRule .oneParam [.leaf id] (by simp [hmark, Rule.rhs]) (by simp) (by simp [hrow])
        (fun _ => rfl)
  | noMoreParams => exact .inr ⟨rfl, rfl⟩
  | @nextParam comma id row u ids hmarks hids hrow ih =>
    simp only [List.map_cons, List.map_nil, List.cons.injEq] at hmarks
    rcases ih with ⟨more, hd, hsymbol, rfl, ⟨⟩⟩ | ⟨rfl, ⟨⟩⟩
    · exact .ofRule .nextParam [more, .leaf comma, .leaf id] (by simp [hmarks, hsymbol, Rule.rhs])
        (by simp [hd]) (by simp [hrow])
        (fun _ => congrArg Piece.names (more.toNames_append source [_]))
    · exact .ofRule .secondParam [.leaf comma, .leaf id] (by simp [hmarks, Rule.rhs]) (by simp)
        (by simp [hrow]) (fun _ => rfl)
  | @conditional qmark colon row u v w test consequent alternate hmarks htest hconsequent halternate
      hrow ihtest ihconsequent ihalternate =>
    obtain ⟨a, ha, haSymbol, rfl, ⟨⟩⟩ := ihtest.derivation rfl
    obtain ⟨b, hb, hbSymbol, rfl, ⟨⟩⟩ := ihconsequent.derivation rfl
    obtain ⟨c, hc, hcSymbol, rfl, ⟨⟩⟩ := ihalternate.derivation rfl
    simp only [List.map_cons, List.map_nil, List.cons.injEq] at hmarks
    exact .ofRule .conditional [a, .leaf qmark, b, .leaf colon, c]
      (by simp [hmarks, haSymbol, hbSymbol, hcSymbol, Rule.rhs]) (by simp [ha, hb, hc])
      (by simp [hrow]) (fun hsite => by rw [← hsite]; rfl)
  | @tighter level inner row e hlevel he ih =>
    have hinner : inner.repeatsNothing? = none := by cases level <;> cases hlevel <;> rfl
    obtain ⟨d, hd, hsymbol, rfl, hpiece⟩ := ih.derivation hinner
    obtain ⟨rule, rfl, hrhs, hread⟩ := Nonterminal.exists_rule_of_tighter hlevel
    exact .ofRule rule [d] (by simp [hsymbol, hrhs]) (by simp [hd]) (by simp)
      (fun _ => (hread source d).trans hpiece)
  | @binary level left right op row u v a b hlevel ha hb hrow iha ihb =>
    -- One argument for all the operators: the table gives the levels, and the levels the rule.
    have hoperands : left.repeatsNothing? = none ∧ right.repeatsNothing? = none := by
      unfold Nonterminal.operands? at hlevel
      split at hlevel <;> cases hlevel <;> exact ⟨rfl, rfl⟩
    obtain ⟨first, hfirst, hfirstSymbol, rfl, hfirstPiece⟩ := iha.derivation hoperands.1
    obtain ⟨second, hsecond, hsecondSymbol, rfl, hsecondPiece⟩ := ihb.derivation hoperands.2
    rw [(Nonterminal.piece_of_operands hlevel source first).1] at hfirstPiece
    rw [(Nonterminal.piece_of_operands hlevel source second).2] at hsecondPiece
    obtain ⟨rule, rfl, hrhs, hread⟩ := Nonterminal.exists_rule_of_operands hlevel
    refine .ofRule rule [first, .leaf op, second] (by simp [hfirstSymbol, hsecondSymbol, hrhs])
      (by simp [hfirst, hsecond]) (by simp [hrow]) fun hsite => ?_
    rw [hread, hsite, Piece.expr.inj hfirstPiece, Piece.expr.inj hsecondPiece]
    rfl
  | @unary op row w e hmark he hrow ih =>
    obtain ⟨d, hd, hsymbol, rfl, ⟨⟩⟩ := ih.derivation rfl
    rcases hmark with hmark | hmark
    · exact .ofRule .negate [.leaf op, d] (by simp [hmark, hsymbol, Rule.rhs]) (by simp [hd])
        (by simp [hrow]) (fun hsite => by rw [← hsite]; rfl)
    · exact .ofRule .not [.leaf op, d] (by simp [hmark, hsymbol, Rule.rhs]) (by simp [hd])
        (by simp [hrow]) (fun hsite => by rw [← hsite]; rfl)
  | @subscript lsqb rsqb row u v base index hmarks hbase hindex hrow ihbase ihindex =>
    obtain ⟨a, ha, haSymbol, rfl, ⟨⟩⟩ := ihbase.derivation rfl
    obtain ⟨b, hb, hbSymbol, rfl, ⟨⟩⟩ := ihindex.derivation rfl
    simp only [List.map_cons, List.map_nil, List.cons.injEq] at hmarks
    exact .ofRule .subscript [a, .leaf lsqb, b, .leaf rsqb]
      (by simp [hmarks, haSymbol, hbSymbol, Rule.rhs]) (by simp [ha, hb]) (by simp [hrow])
      (fun hsite => by rw [← hsite]; rfl)
  | @numeral token hmark =>
    exact .ofRule .numeral [.leaf token] (by simp [hmark, Rule.rhs]) (by simp) rfl (fun _ => rfl)
  | @trueLiteral token hmark =>
    exact .ofRule .trueLiteral [.leaf token] (by simp [hmark, Rule.rhs]) (by simp) rfl
      (fun _ => rfl)
  | @falseLiteral token hmark =>
    exact .ofRule .falseLiteral [.leaf token] (by simp [hmark, Rule.rhs]) (by simp) rfl
      (fun _ => rfl)
  | @name id hmark =>
    exact .ofRule .name [.leaf id] (by simp [hmark, Rule.rhs]) (by simp) rfl (fun _ => rfl)
  | @callWithoutArgs id lpar rpar row hmarks hrow =>
    simp only [List.map_cons, List.map_nil, List.cons.injEq] at hmarks
    exact .ofRule .callWithoutArgs [.leaf id, .leaf lpar, .leaf rpar] (by simp [hmarks, Rule.rhs])
      (by simp) (by simp [hrow]) (fun hsite => by rw [← hsite]; rfl)
  | @call id lpar rpar row u es hmarks hes hrow ih =>
    obtain ⟨args, hargs, hsymbol, rfl, ⟨⟩⟩ := ih.derivation rfl
    simp only [List.map_cons, List.map_nil, List.cons.injEq] at hmarks
    exact .ofRule .call [.leaf id, .leaf lpar, args, .leaf rpar]
      (by simp [hmarks, hsymbol, Rule.rhs]) (by simp [hargs]) (by simp [hrow])
      (fun hsite => by rw [← hsite]; rfl)
  | @emptyArray lsqb rsqb row hmarks hrow =>
    simp only [List.map_cons, List.map_nil, List.cons.injEq] at hmarks
    exact .ofRule .emptyArray [.leaf lsqb, .leaf rsqb] (by simp [hmarks, Rule.rhs]) (by simp)
      (by simp [hrow]) (fun hsite => by rw [← hsite]; rfl)
  | @array lsqb rsqb row u es hmarks hes hrow ih =>
    obtain ⟨elements, helements, hsymbol, rfl, ⟨⟩⟩ := ih.derivation rfl
    simp only [List.map_cons, List.map_nil, List.cons.injEq] at hmarks
    exact .ofRule .array [.leaf lsqb, elements, .leaf rsqb] (by simp [hmarks, hsymbol, Rule.rhs])
      (by simp [helements]) (by simp [hrow]) (fun hsite => by rw [← hsite]; rfl)
  | @parenthesised lpar rpar row w e hmarks he hrow ih =>
    obtain ⟨d, hd, hsymbol, rfl, ⟨⟩⟩ := ih.derivation rfl
    simp only [List.map_cons, List.map_nil, List.cons.injEq] at hmarks
    exact .ofRule .parenthesised [.leaf lpar, d, .leaf rpar] (by simp [hmarks, hsymbol, Rule.rhs])
      (by simp [hd]) (by simp [hrow]) (fun _ => rfl)
  | @args row u v e es he hmore hrow ihe ihmore =>
    obtain ⟨d, hd, hsymbol, rfl, ⟨⟩⟩ := ihe.derivation rfl
    rcases ihmore with ⟨more, hgrammatical, hmoreSymbol, rfl, ⟨⟩⟩ | ⟨rfl, ⟨⟩⟩
    · exact .ofRule .severalArgs [d, more] (by simp [hsymbol, hmoreSymbol, Rule.rhs])
        (by simp [hd, hgrammatical]) (by simp [hrow]) (fun _ => rfl)
    · exact .ofRule .oneArg [d] (by simp [hsymbol, Rule.rhs]) (by simp [hd]) (by simp [hrow])
        (fun _ => rfl)
  | noMoreArgs => exact .inr ⟨rfl, rfl⟩
  | @nextArg comma row u v es e hmark hes he hrow ihes ihe =>
    obtain ⟨d, hd, hsymbol, rfl, ⟨⟩⟩ := ihe.derivation rfl
    rcases ihes with ⟨more, hmore, hmoreSymbol, rfl, ⟨⟩⟩ | ⟨rfl, ⟨⟩⟩
    · exact .ofRule .nextArg [more, .leaf comma, d]
        (by simp [hmark, hsymbol, hmoreSymbol, Rule.rhs]) (by simp [hd, hmore]) (by simp [hrow])
        (fun _ => congrArg Piece.exprs (more.toExprs_append source [_]))
    · exact .ofRule .secondArg [.leaf comma, d] (by simp [hmark, hsymbol, Rule.rhs])
        (by simp [hd]) (by simp [hrow]) (fun _ => rfl)

/-! ## The reader and the language -/

/-- The automaton makes just the grammatical derivations. -/
theorem readTokens_eq_some_iff {tokens : List Token} {d : Derivation} :
    readTokens [] tokens = some d ↔ d.IsProgramOf tokens :=
  ⟨readTokens_sound .empty, fun h => h.readTokens_eq⟩

/-- A program phrase is a grammatical derivation of its tokens, and the tree made from it. -/
theorem programPhrase_iff {source : String} {tokens : List Token} {program : Program} :
    ProgramPhrase source tokens program ↔
      ∃ d : Derivation, d.IsProgramOf tokens ∧ d.toProgram source = program := by
  constructor
  · intro h
    obtain ⟨d, hgrammatical, hsymbol, htokens, hpiece⟩ := h.realised.derivation rfl
    exact ⟨d, ⟨hgrammatical, hsymbol, htokens⟩, congrArg Program.mk (Piece.block.inj hpiece)⟩
  · rintro ⟨d, ⟨hgrammatical, hsymbol, rfl⟩, rfl⟩
    exact hgrammatical.phrase source hsymbol

/-- **The reader accepts exactly the language.**  A row of tokens is accepted exactly if its
    terminals are a word of the grammar.  The tree made of it is the one that the concrete syntax
    prescribes, and there is one exactly where it prescribes one.  No row of tokens has two
    derivations. -/
theorem readTokens_accepts_language (source : String) (tokens : List Token) :
    ((readTokens [] tokens).isSome ↔ tokens.map (·.terminal) ∈ programGrammar.language) ∧
    (∀ program : Program, (readTokens [] tokens).map (·.toProgram source) = some program ↔
      ProgramPhrase source tokens program) ∧
    (∀ d other : Derivation, d.IsProgramOf tokens → other.IsProgramOf tokens → d = other) := by
  refine ⟨?_, fun program => ?_, fun d other hd hother => hd.unique hother⟩
  · rw [← exists_isProgramOf_iff, Option.isSome_iff_exists]
    exact exists_congr fun d => readTokens_eq_some_iff
  · rw [Option.map_eq_some_iff, programPhrase_iff]
    exact exists_congr fun d => and_congr_left' readTokens_eq_some_iff

end BellaLang
