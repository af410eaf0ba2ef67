import BellaLang.Proofs.Syntax.RoundTrip

/-!
The same tokens at other places.

A phrase hangs on the lexemes of its tokens only.  If every token is moved to some other place, be
it in another text, the row of tokens is a phrase of the same kind, and stands for the same piece of
a tree, sites apart (`Phrase.relocate`).
-/

namespace BellaLang

/-! ## Pieces without sites -/

/-- The piece without its sites. -/
def Piece.bare : Piece → Piece
  | .expr e => .expr e.bare
  | .exprs es => .exprs (Expr.bares es)
  | .names ids => .names (ids.map Name.bare)
  | .stmt s => .stmt s.bare
  | .stmts ss => .stmts (Stmt.bares ss)
  | .block body => .block body.bare

theorem Expr.bares_eq_map (es : List Expr) : Expr.bares es = es.map bare := by
  induction es with
  | nil => rfl
  | cons e es ih => rw [bares, ih, List.map_cons]

theorem Stmt.bares_eq_map (ss : List Stmt) : Stmt.bares ss = ss.map bare := by
  induction ss with
  | nil => rfl
  | cons s ss ih => rw [bares, ih, List.map_cons]

/-- A row of tokens is a phrase of some kind, and stands for the piece, sites apart. -/
def StandsBarely (source : String) (n : Nonterminal) (row : List Token) (piece : Piece) : Prop :=
  ∃ piece', Phrase source n row piece' ∧ piece'.bare = piece.bare

namespace StandsBarely

variable {source : String} {n : Nonterminal} {row : List Token}

theorem expr {e : Expr} (h : StandsBarely source n row (.expr e)) :
    ∃ e', Phrase source n row (.expr e') ∧ e'.bare = e.bare := by
  obtain ⟨piece, hpiece, hbare⟩ := h
  cases piece with
  | expr e' => exact ⟨e', hpiece, Piece.expr.inj hbare⟩
  | _ => cases hbare

theorem exprs {es : List Expr} (h : StandsBarely source n row (.exprs es)) :
    ∃ es', Phrase source n row (.exprs es') ∧ Expr.bares es' = Expr.bares es := by
  obtain ⟨piece, hpiece, hbare⟩ := h
  cases piece with
  | exprs es' => exact ⟨es', hpiece, Piece.exprs.inj hbare⟩
  | _ => cases hbare

theorem names {ids : List Name} (h : StandsBarely source n row (.names ids)) :
    ∃ ids', Phrase source n row (.names ids') ∧ ids'.map Name.bare = ids.map Name.bare := by
  obtain ⟨piece, hpiece, hbare⟩ := h
  cases piece with
  | names ids' => exact ⟨ids', hpiece, Piece.names.inj hbare⟩
  | _ => cases hbare

theorem stmt {s : Stmt} (h : StandsBarely source n row (.stmt s)) :
    ∃ s', Phrase source n row (.stmt s') ∧ s'.bare = s.bare := by
  obtain ⟨piece, hpiece, hbare⟩ := h
  cases piece with
  | stmt s' => exact ⟨s', hpiece, Piece.stmt.inj hbare⟩
  | _ => cases hbare

theorem stmts {ss : List Stmt} (h : StandsBarely source n row (.stmts ss)) :
    ∃ ss', Phrase source n row (.stmts ss') ∧ Stmt.bares ss' = Stmt.bares ss := by
  obtain ⟨piece, hpiece, hbare⟩ := h
  cases piece with
  | stmts ss' => exact ⟨ss', hpiece, Piece.stmts.inj hbare⟩
  | _ => cases hbare

theorem block {body : Block} (h : StandsBarely source n row (.block body)) :
    ∃ body', Phrase source n row (.block body') ∧ body'.bare = body.bare := by
  obtain ⟨piece, hpiece, hbare⟩ := h
  cases piece with
  | block body' => exact ⟨body', hpiece, Piece.block.inj hbare⟩
  | _ => cases hbare

end StandsBarely

/-! ## Moving tokens -/

section

variable {f : Token → Token} (hf : ∀ token, (f token).lexeme = token.lexeme)

include hf

theorem terminal_of_lexeme (token : Token) : (f token).terminal = token.terminal :=
  congrArg Lexeme.terminal (hf token)

theorem word_of_lexeme (token : Token) : (f token).word = token.word :=
  congrArg (fun lexeme : Lexeme => String.ofList lexeme.text) (hf token)

theorem bare_toName_of_lexeme (source other : String) (token : Token) :
    ((f token).toName other).bare = (token.toName source).bare := by
  rw [Token.toName, Token.toName, Name.bare, Name.bare, word_of_lexeme hf]

theorem map_terminal_of_lexeme {tokens : List Token} {marks : List Terminal}
    (h : tokens.map (·.terminal) = marks) : (tokens.map f).map (·.terminal) = marks := by
  rw [← h, List.map_map]
  exact List.map_congr_left fun token _ => terminal_of_lexeme hf token

/-- **The places of tokens make no difference** to what a phrase stands for, sites apart. -/
theorem Phrase.relocate {source : String} {n : Nonterminal} {row : List Token} {piece : Piece}
    (h : Phrase source n row piece) (other : String) :
    StandsBarely other n (row.map f) piece := by
  have hterminal := terminal_of_lexeme hf
  have hmarked {tokens : List Token} {marks : List Terminal}
      (h : tokens.map (·.terminal) = marks) := map_terminal_of_lexeme hf h
  have hword := word_of_lexeme hf
  have hname := bare_toName_of_lexeme hf source other
  induction h with
  | program hss ih =>
    obtain ⟨ss', hss, hbares⟩ := ih.stmts
    refine ⟨_, .program hss, ?_⟩
    rw [Piece.bare, Piece.bare, Block.bare, Block.bare, hbares]
  | noStatements => exact ⟨_, .noStatements, rfl⟩
  | nextStatement hss hs hrow ihss ihs =>
    obtain ⟨ss', hss, hbares⟩ := ihss.stmts
    obtain ⟨s', hs, hbare⟩ := ihs.stmt
    refine ⟨_, .nextStatement hss hs (by rw [hrow, List.map_append]), ?_⟩
    rw [Stmt.bares_eq_map, Stmt.bares_eq_map] at hbares
    simp only [Piece.bare, Stmt.bares_eq_map, List.map_append, hbares, List.map_singleton, hbare]
  | declaration hmarks he hrow ih =>
    obtain ⟨e', he, hbare⟩ := ih.expr
    refine ⟨_, .declaration (hmarked hmarks) he (by simp [hrow]), ?_⟩
    simp only [Piece.bare, Stmt.bare, hname, hbare]
  | functionWithoutParams hmarks he hrow ih =>
    obtain ⟨e', he, hbare⟩ := ih.expr
    refine ⟨_, .functionWithoutParams (hmarked hmarks) he (by simp [hrow]), ?_⟩
    simp only [Piece.bare, Stmt.bare, hname, hbare]
  | function hmarks hids he hrow ihids ihe =>
    obtain ⟨ids', hids, hbares⟩ := ihids.names
    obtain ⟨e', he, hbare⟩ := ihe.expr
    refine ⟨_, .function (hmarked hmarks) hids he (by simp [hrow]), ?_⟩
    simp only [Piece.bare, Stmt.bare, hname, hbares, hbare]
  | assignment hmarks he hrow ih =>
    obtain ⟨e', he, hbare⟩ := ih.expr
    refine ⟨_, .assignment (hmarked hmarks) he (by simp [hrow]), ?_⟩
    simp only [Piece.bare, Stmt.bare, hname, hbare]
  | print hmarks he hrow ih =>
    obtain ⟨e', he, hbare⟩ := ih.expr
    refine ⟨_, .print (hmarked hmarks) he (by simp [hrow]), ?_⟩
    simp only [Piece.bare, Stmt.bare, hbare]
  | loop hmark he hbody hrow ihe ihbody =>
    obtain ⟨e', he, hbare⟩ := ihe.expr
    obtain ⟨body', hbody, hbodyBare⟩ := ihbody.block
    refine ⟨_, .loop ((hterminal _).trans hmark) he hbody (by simp [hrow]), ?_⟩
    simp only [Piece.bare, Stmt.bare, hbare, hbodyBare]
  | block hmarks hss hrow ih =>
    obtain ⟨ss', hss, hbares⟩ := ih.stmts
    refine ⟨_, .block (hmarked hmarks) hss (by simp [hrow]), ?_⟩
    simp only [Piece.bare, Block.bare, hbares]
  | params hmark hmore hrow ih =>
    obtain ⟨ids', hids, hbares⟩ := ih.names
    refine ⟨_, .params ((hterminal _).trans hmark) hids (by simp [hrow]), ?_⟩
    simp only [Piece.bare, List.map_cons, hname, hbares]
  | noMoreParams => exact ⟨_, .noMoreParams, rfl⟩
  | nextParam hmarks hids hrow ih =>
    obtain ⟨ids', hids, hbares⟩ := ih.names
    refine ⟨_, .nextParam (hmarked hmarks) hids (by simp [hrow]), ?_⟩
    simp only [Piece.bare, List.map_append, List.map_singleton, hname, hbares]
  | conditional hmarks htest hconsequent halternate hrow ihtest ihconsequent ihalternate =>
    obtain ⟨test', htest, htestBare⟩ := ihtest.expr
    obtain ⟨consequent', hconsequent, hconsequentBare⟩ := ihconsequent.expr
    obtain ⟨alternate', halternate, halternateBare⟩ := ihalternate.expr
    refine ⟨_, .conditional (hmarked hmarks) htest hconsequent halternate
      (by simp [hrow]), ?_⟩
    simp only [Piece.bare, Expr.bare, htestBare, hconsequentBare, halternateBare]
  | tighter hlevel he ih =>
    obtain ⟨e', he, hbare⟩ := ih.expr
    exact ⟨_, .tighter hlevel he, congrArg Piece.expr hbare⟩
  | binary hlevel ha hb hrow iha ihb =>
    obtain ⟨a', ha, haBare⟩ := iha.expr
    obtain ⟨b', hb, hbBare⟩ := ihb.expr
    refine ⟨_, .binary (by rw [hterminal]; exact hlevel) ha hb (by simp [hrow]), ?_⟩
    simp only [Piece.bare, Expr.bare, hword, haBare, hbBare]
  | unary hmark he hrow ih =>
    obtain ⟨e', he, hbare⟩ := ih.expr
    refine ⟨_, .unary (by rw [hterminal]; exact hmark) he (by simp [hrow]), ?_⟩
    simp only [Piece.bare, Expr.bare, hword, hbare]
  | subscript hmarks hbase hindex hrow ihbase ihindex =>
    obtain ⟨base', hbase, hbaseBare⟩ := ihbase.expr
    obtain ⟨index', hindex, hindexBare⟩ := ihindex.expr
    refine ⟨_, .subscript (hmarked hmarks) hbase hindex (by simp [hrow]), ?_⟩
    simp only [Piece.bare, Expr.bare, hbaseBare, hindexBare]
  | @numeral token hmark =>
    refine ⟨_, .numeral ((hterminal token).trans hmark), ?_⟩
    have htext : (f token).text = token.text := congrArg Lexeme.text (hf token)
    simp only [Piece.bare, Expr.bare, htext]
  | trueLiteral hmark => exact ⟨_, .trueLiteral ((hterminal _).trans hmark), rfl⟩
  | falseLiteral hmark => exact ⟨_, .falseLiteral ((hterminal _).trans hmark), rfl⟩
  | name hmark =>
    refine ⟨_, .name ((hterminal _).trans hmark), ?_⟩
    simp only [Piece.bare, Expr.bare, hname]
  | callWithoutArgs hmarks hrow =>
    refine ⟨_, .callWithoutArgs (hmarked hmarks) (by rw [hrow]; rfl), ?_⟩
    simp only [Piece.bare, Expr.bare, hname]
  | call hmarks hes hrow ih =>
    obtain ⟨es', hes, hbares⟩ := ih.exprs
    refine ⟨_, .call (hmarked hmarks) hes (by simp [hrow]), ?_⟩
    simp only [Piece.bare, Expr.bare, hname, hbares]
  | emptyArray hmarks hrow =>
    exact ⟨_, .emptyArray (hmarked hmarks) (by rw [hrow]; rfl), rfl⟩
  | array hmarks hes hrow ih =>
    obtain ⟨es', hes, hbares⟩ := ih.exprs
    refine ⟨_, .array (hmarked hmarks) hes (by simp [hrow]), ?_⟩
    simp only [Piece.bare, Expr.bare, hbares]
  | parenthesised hmarks he hrow ih =>
    obtain ⟨e', he, hbare⟩ := ih.expr
    exact ⟨_, .parenthesised (hmarked hmarks) he (by simp [hrow]),
      congrArg Piece.expr hbare⟩
  | args he hmore hrow ihe ihmore =>
    obtain ⟨e', he, hbare⟩ := ihe.expr
    obtain ⟨es', hes, hbares⟩ := ihmore.exprs
    refine ⟨_, .args he hes (by rw [hrow, List.map_append]), ?_⟩
    simp only [Piece.bare, Expr.bares, hbare, hbares]
  | noMoreArgs => exact ⟨_, .noMoreArgs, rfl⟩
  | nextArg hmark hes he hrow ihes ihe =>
    obtain ⟨es', hes, hbares⟩ := ihes.exprs
    obtain ⟨e', he, hbare⟩ := ihe.expr
    refine ⟨_, .nextArg ((hterminal _).trans hmark) hes he (by simp [hrow]), ?_⟩
    rw [Expr.bares_eq_map, Expr.bares_eq_map] at hbares
    simp only [Piece.bare, Expr.bares_eq_map, List.map_append, hbares, List.map_singleton, hbare]

end

end BellaLang
