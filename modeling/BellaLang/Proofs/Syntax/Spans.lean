import BellaLang.Proofs.Grammar.Occurrences
import BellaLang.Proofs.Grammar.Slices
import BellaLang.Proofs.Syntax.Deciding
import BellaLang.Proofs.Syntax.Relocation

/-!
What the spans of a tree are worth.

The span of a node goes from its first token to its last one, where its own tokens are the shortest
row that is read as the node: the parentheses around it are not among them, those within it are.

  1. Extents of rows of tokens that stand one behind the other tell the rows apart
     (`InOrder.eq_of_rowExtent`), and the rows within a row lie within its extent
     (`InOrder.exists_extents`).
  2. The part of the derivation that a node comes from is read as the node (`Owns.exists_phrase`),
     and no shorter row is, as every row that is read as a node has its span in it
     (`Phrase.exists_row`).
  3. The slice of a statement can be read on its own, and that of an expression behind `print`.  Its
     tokens have the same lexemes there, and so stand for the same tree (`Phrase.readsAlone`,
     `Phrase.readsInPrint`).

Main statement: `Program.ofText_spans_faithful`.
-/

namespace BellaLang

/-! ## Extents of rows -/

/-- A row of tokens starts with its first token and stops with its last one. -/
theorem exists_first_last {row : List Token} {extent : Extent} (h : rowExtent row = some extent) :
    ∃ first last, row.head? = some first ∧ row.getLast? = some last ∧
      extent.start = first.extent.start ∧ extent.stop = last.extent.stop := by
  cases row with
  | nil => cases h
  | cons first rest =>
    obtain rfl := Option.some.inj h
    refine ⟨first, rest.getLastD first, rfl, ?_, rfl, rfl⟩
    rw [List.getLast?_cons, List.getLastD_eq_getLast?]

theorem exists_rowExtent {row : List Token} (h : row ≠ []) :
    ∃ extent, rowExtent row = some extent := by
  obtain ⟨first, rest, rfl⟩ := List.exists_cons_of_ne_nil h
  exact ⟨_, rfl⟩

/-- The tokens have lengths. -/
def HaveLengths (tokens : List Token) : Prop :=
  ∀ token ∈ tokens, token.extent.start < token.extent.stop

namespace InOrder

variable {row : List Token}

/-- Every token lies within the extent of its row. -/
theorem within_extent (h : InOrder row) (hlengths : HaveLengths row) {extent : Extent}
    (hextent : rowExtent row = some extent) {token : Token} (htoken : token ∈ row) :
    extent.start ≤ token.extent.start ∧ token.extent.stop ≤ extent.stop := by
  obtain ⟨first, last, hfirst, hlast, hstart, hstop⟩ := exists_first_last hextent
  have hpos := hlengths token htoken
  constructor
  · obtain ⟨rest, rfl⟩ := List.head?_eq_some_iff.mp hfirst
    rcases List.mem_cons.mp htoken with rfl | hmem
    · exact hstart.le
    · have hle := List.rel_of_pairwise_cons h hmem
      have hfirstPos := hlengths first List.mem_cons_self
      omega
  · obtain ⟨front, rfl⟩ := List.getLast?_eq_some_iff.mp hlast
    rcases List.mem_append.mp htoken with hmem | hmem
    · have hle := (List.pairwise_append.mp h).2.2 token hmem last List.mem_cons_self
      have hlastPos := hlengths last (List.mem_append_right _ List.mem_cons_self)
      omega
    · rw [List.mem_singleton.mp hmem]
      exact hstop.ge

/-- Within a row no other row has the same extent. -/
theorem eq_of_rowExtent (h : InOrder row) (hlengths : HaveLengths row) {inner : List Token}
    (hinner : inner <:+: row) (hextent : rowExtent inner = rowExtent row) : inner = row := by
  obtain ⟨front, back, rfl⟩ := hinner
  cases hwhole : rowExtent (front ++ inner ++ back) with
  | none =>
    cases hnil : front ++ inner ++ back with
    | nil =>
      obtain ⟨hleft, rfl⟩ := List.append_eq_nil_iff.mp hnil
      exact (List.append_eq_nil_iff.mp hleft).2
    | cons first rest =>
      rw [hnil] at hwhole
      cases hwhole
  | some extent =>
    obtain ⟨first, last, hfirst, hlast, hstart, hstop⟩ :=
      exists_first_last (hextent.trans hwhole)
    have hfirstMem := List.mem_of_head? hfirst
    have hlastMem := List.mem_of_getLast? hlast
    obtain ⟨hleft, -, hback⟩ := List.pairwise_append.mp h
    have hfront := (List.pairwise_append.mp hleft).2.2
    -- A token in front would start before the extent does, one behind would stop after it.
    have hnoFront : front = [] := List.eq_nil_iff_forall_not_mem.mpr fun token hmem => by
      have hrow : token ∈ front ++ inner ++ back := by simp [hmem]
      have hle := hfront token hmem first hfirstMem
      have hpos := hlengths token hrow
      have hwithin := (h.within_extent hlengths hwhole hrow).1
      omega
    have hnoBack : back = [] := List.eq_nil_iff_forall_not_mem.mpr fun token hmem => by
      have hrow : token ∈ front ++ inner ++ back := by simp [hmem]
      have hle := hback last (List.mem_append_right _ hlastMem) token hmem
      have hpos := hlengths token hrow
      have hwithin := (h.within_extent hlengths hwhole hrow).2
      omega
    rw [hnoFront, hnoBack, List.nil_append, List.append_nil]

/-- Rows one behind the other within a row have extents one behind the other within its extent. -/
theorem exists_extents (h : InOrder row) (hlengths : HaveLengths row) {extent : Extent}
    (hextent : rowExtent row = some extent) {rows : List (List Token)}
    (hsub : rows.flatten.Sublist row) (hne : ∀ inner ∈ rows, inner ≠ []) :
    ∃ extents : List Extent, rows.map rowExtent = extents.map some ∧
      (∀ inner ∈ extents, extent.start ≤ inner.start ∧ inner.start < inner.stop ∧
        inner.stop ≤ extent.stop) ∧
      extents.Pairwise fun a b => a.stop ≤ b.start := by
  induction rows with
  | nil => exact ⟨[], rfl, nofun, .nil⟩
  | cons inner others ih =>
    rw [List.flatten_cons] at hsub
    have hordered : InOrder (inner ++ others.flatten) := List.Pairwise.sublist hsub h
    obtain ⟨extents, hextents, hwithin, hpairwise⟩ :=
      ih ((List.sublist_append_right _ _).trans hsub) fun r hr => hne r (List.mem_cons_of_mem _ hr)
    obtain ⟨own, hown⟩ := exists_rowExtent (hne inner List.mem_cons_self)
    obtain ⟨first, last, hfirst, hlast, hstart, hstop⟩ := exists_first_last hown
    have hmem {token : Token} (htoken : token ∈ inner) : token ∈ row :=
      hsub.subset (List.mem_append_left _ htoken)
    have hfirstMem := List.mem_of_head? hfirst
    have hlastMem := List.mem_of_getLast? hlast
    refine ⟨own :: extents, by rw [List.map_cons, List.map_cons, hown, hextents], ?_, ?_⟩
    · refine List.forall_mem_cons.mpr ⟨?_, hwithin⟩
      have hbefore := (h.within_extent hlengths hextent (hmem hfirstMem)).1
      have hafter := (h.within_extent hlengths hextent (hmem hlastMem)).2
      have hinner : InOrder inner := (List.pairwise_append.mp hordered).1
      have hlength := hinner.within_extent (fun t ht => hlengths t (hmem ht)) hown hfirstMem
      have hpos := hlengths first (hmem hfirstMem)
      omega
    · refine .cons (fun other hother => ?_) hpairwise
      obtain ⟨r, hr, hrExtent⟩ := List.mem_map.mp
        (hextents ▸ List.mem_map_of_mem hother : some other ∈ others.map rowExtent)
      obtain ⟨next, -, hnext, -, hnextStart, -⟩ := exists_first_last hrExtent
      have hnextMem : next ∈ others.flatten :=
        List.mem_flatten.mpr ⟨r, hr, List.mem_of_head? hnext⟩
      have hle := (List.pairwise_append.mp hordered).2.2 last hlastMem next hnextMem
      omega

end InOrder

/-! ## The tokens of a node -/

/-- A phrase stands for a node: what it is read as, or the program of a block. -/
inductive Piece.Holds : Piece → Node → Prop
  | expr (e : Expr) : Holds (.expr e) (.expression e)
  | stmt (s : Stmt) : Holds (.stmt s) (.statement s)
  | block (body : Block) : Holds (.block body) (.statement (.block body))
  | program (body : Block) : Holds (.block body) (.program body)

/-- A row of tokens is read as the node. -/
def Node.IsReadFrom (source : String) (row : List Token) (node : Node) : Prop :=
  ∃ n piece, Phrase source n row piece ∧ piece.Holds node

/-- Whatever is read as a node has the tokens in it that the site of the node is taken from. -/
theorem Phrase.exists_row {source : String} {n : Nonterminal} {row : List Token} {piece : Piece}
    (h : Phrase source n row piece) {node : Node} (hnode : piece.Holds node) :
    ∃ inner, inner <:+: row ∧ node.site = rowSite source inner := by
  induction h with
  | program | block => cases hnode <;> exact ⟨_, List.infix_rfl, rfl⟩
  | tighter _ _ ih => exact ih hnode
  | parenthesised _ _ hrow ih =>
    obtain ⟨inner, hinner, hsite⟩ := ih hnode
    exact ⟨inner, hinner.trans ⟨_, _, hrow.symm⟩, hsite⟩
  | noStatements | nextStatement | params | noMoreParams | nextParam | args | noMoreArgs
  | nextArg => cases hnode
  | _ => cases hnode; exact ⟨_, List.infix_rfl, rfl⟩

/-- **The tokens that a site is taken from are the shortest row** that is read as the node. -/
theorem Node.IsReadFrom.eq_row {source : String} {row other : List Token} {node : Node}
    (hother : node.IsReadFrom source other) (hpart : other <:+: row)
    (hsite : node.site = rowSite source row) (horder : InOrder row) (hlengths : HaveLengths row) :
    other = row := by
  obtain ⟨n, piece, hphrase, hnode⟩ := hother
  obtain ⟨inner, hinner, hinnerSite⟩ := hphrase.exists_row hnode
  have hextent : rowExtent inner = rowExtent row := by
    rw [hsite] at hinnerSite
    exact Option.map_injective (fun a b h => (Span.mk.inj h).2) hinnerSite.symm
  obtain rfl := horder.eq_of_rowExtent hlengths (hinner.trans hpart) hextent
  exact hpart.eq_of_length_le hinner.length_le

/-- The part of a derivation that has made a node is read as the node. -/
theorem Derivation.Owns.exists_phrase {source : String} {owner : Derivation} {node : Node}
    (h : owner.Owns source node) (hgrammatical : owner.IsGrammatical) :
    ∃ n piece, Phrase source n owner.tokens piece ∧ piece.Holds node ∧
      (owner.symbol = .phrase n ∨ ∃ token, owner = .leaf token ∧ token.terminal = .name ∧
        node = .ofName (token.toName source)) := by
  cases h with
  | @name token hmark =>
    exact ⟨.primary, _, .name hmark, .expr _, .inr ⟨token, rfl, hmark, rfl⟩⟩
  | @rule rule children piece node _ hparts hnode =>
    have hphrase := hgrammatical.phrase source (n := rule.lhs) rfl
    refine ⟨rule.lhs, _, hphrase, ?_, .inl rfl⟩
    by_cases hprogram : rule.lhs = .program
    · obtain rfl := Part.node.inj (List.singleton_inj.mp ((if_pos hprogram).symm.trans hparts))
      rw [hprogram]
      rcases hnode with rfl | rfl
      · exact .program _
      · exact .block _
    · rw [parts_eq source rfl hprogram] at hparts
      have hpart := List.singleton_inj.mp hparts
      generalize (Derivation.ofRule rule children).piece source rule.lhs = read at hpart ⊢
      cases read with
      | expr e => cases hpart; rcases hnode with rfl | rfl <;> exact .expr _
      | stmt s => cases hpart; rcases hnode with rfl | rfl <;> exact .stmt _
      | block body => cases hpart; rcases hnode with rfl | rfl <;> exact .block _
      | exprs | names | stmts => cases hpart

/-! ## Slices -/

/-- The extent of the statement is a text that is read as this statement alone, sites apart. -/
def Stmt.ReadsAlone (text : List Char) (extent : Extent) (s : Stmt) : Prop :=
  ∀ source : String, ∃ program : Program,
    Program.ofText source (String.ofList (slice text extent)) = .ok program ∧
      program.block.bare = .mk none [s.bare]

/-- With `print` in front of it and a semicolon behind, the extent of the expression is read as the
    statement that prints this expression, sites apart. -/
def Expr.ReadsInPrint (text : List Char) (extent : Extent) (e : Expr) : Prop :=
  ∀ source : String, ∃ program : Program,
    Program.ofText source (String.ofList ("print ".toList ++ slice text extent ++ [';'])) =
        .ok program ∧
      program.block.bare = .mk none [.print none e.bare]

theorem Cursor.atEnd_of_rest {cursor : Cursor} (h : cursor.rest = []) : cursor.AtEnd := by
  rw [AtEnd, h]
  exact Nat.zero_le _

/-- A phrase that is a statement is read on its own. -/
theorem Phrase.readsAlone {source : String} {text : List Char} {row : List Token} {extent : Extent}
    {s : Stmt} (h : Phrase source .statement row (.stmt s))
    (hcut : Recuts text extent .statement row) : s.ReadsAlone text extent := by
  intro other
  generalize hslice : slice text extent = piece
  obtain ⟨f, hf, hrow⟩ := hcut (.start piece) [] (by rw [hslice, List.append_nil]; rfl)
    Lexeme.ends_nil
  obtain ⟨s', hs, hbare⟩ := (h.relocate hf other).stmt
  have hend : ((Cursor.start piece).advance (slice text extent).length).AtEnd := by
    refine Cursor.atEnd_of_rest ?_
    rw [Cursor.advance_rest, hslice]
    exact List.drop_length
  have hphrase : ProgramPhrase other (row.map f) ⟨.mk (rowSite other (row.map f)) ([] ++ [s'])⟩ :=
    .program (.nextStatement .noStatements hs rfl)
  refine ⟨_, Cut.ofText (by rw [String.toList_ofList]; exact hrow) hend hphrase, ?_⟩
  rw [← hbare]
  rfl

/-- The token that the next characters are. -/
def Cursor.token (cursor : Cursor) (t : Terminal) (text : List Char) : Token :=
  ⟨t, text, cursor.extent text.length⟩

/-- A token other than a name, right at the cursor. -/
theorem Cut.here {mode next : Mode} {cursor after : Cursor} {t : Terminal} {text rest : List Char}
    {tokens : List Token} (hrest : cursor.rest = text ++ rest)
    (hspelled : Lexeme.IsSpelled ⟨t, text⟩) (hends : Lexeme.Ends ⟨t, text⟩ rest)
    (ht : t ≠ .name) (hstep : mode.step? t = some next)
    (htokens : Cut next (cursor.advance text.length) tokens after) :
    Cut mode cursor (cursor.token t text :: tokens) after := by
  have hnone : IsGap [] := .nil
  refine .token hnone hrest rfl hspelled hends (fun h => absurd h ht) hstep ?_
  rw [List.length_nil, Nat.zero_add]
  exact htokens

theorem Mode.after?_map {f : Token → Token} (hf : ∀ token, (f token).lexeme = token.lexeme)
    (mode : Mode) (row : List Token) : mode.after? (row.map f) = mode.after? row := by
  rw [after?, List.foldlM_map]
  simp only [terminal_of_lexeme hf]
  rfl

/-- The tokens of an expression, cut out of the text of a statement that prints it. -/
theorem Cut.inPrint {start : Cursor} {piece : List Char} {first : Token} {rest : List Token}
    (hstart : start.rest = "print ".toList ++ (piece ++ [';']))
    (h : Cut .operand (start.advance 6) (first :: rest) ((start.advance 6).advance piece.length))
    (hmode : Mode.operand.after? (first :: rest) = some .operandEnd) :
    ∃ printWord semicolon after,
      [printWord, semicolon].map Token.terminal = [.printWord, .semicolon] ∧
        Cut .statement start ([printWord] ++ first :: rest ++ [semicolon]) after ∧ after.AtEnd := by
  have hgap : (start.advance 5).rest = [' '] ++ (piece ++ [';']) := by
    rw [Cursor.advance_rest, hstart]
    rfl
  have hbehind : ((start.advance 6).advance piece.length).rest = [';'] ++ [] := by
    rw [Cursor.advance_rest, Cursor.advance_rest, hstart]
    exact List.drop_left
  generalize (start.advance 6).advance piece.length = behind at h hbehind
  have hword : Lexeme.IsSpelled ⟨.printWord, "print".toList⟩ :=
    show keyword? "print".toList = some .printWord by decide
  have hwordEnds : Lexeme.Ends ⟨.printWord, "print".toList⟩ (' ' :: (piece ++ [';'])) := by
    rintro - c ⟨⟩
    decide
  -- From the end of the text to its start.
  have hlast : Cut .operandEnd behind [behind.token .semicolon [';']] (behind.advance 1) :=
    .here hbehind rfl (Lexeme.ends_nil _) (by decide) rfl (.nil _ _)
  have hplace : start.advance 6 = (start.advance 5).advance 1 := Cursor.advance_add 5 1 start
  have hboth := h.append hmode hlast
  rw [hplace] at hboth
  have hrow : Cut .operand (start.advance 5) (first :: (rest ++ [behind.token .semicolon [';']]))
      (behind.advance 1) := .after_gap (.space rfl .nil) hgap hboth
  refine ⟨start.token .printWord "print".toList, behind.token .semicolon [';'],
    behind.advance 1, rfl, .here hstart hword hwordEnds (by decide) rfl hrow, ?_⟩
  refine Cursor.atEnd_of_rest ?_
  rw [Cursor.advance_rest, hbehind]
  rfl

/-- A phrase that is an expression is read behind `print`. -/
theorem Phrase.readsInPrint {source : String} {text : List Char} {row : List Token}
    {extent : Extent} {e : Expr} (h : Phrase source .exp row (.expr e)) (hne : row ≠ [])
    (hmode : Mode.operand.after? row = some .operandEnd)
    (hcut : Recuts text extent .operand row) : e.ReadsInPrint text extent := by
  intro other
  generalize hwhole : "print ".toList ++ slice text extent ++ [';'] = whole
  have hstart : (Cursor.start whole).rest = "print ".toList ++ (slice text extent ++ [';']) := by
    rw [← hwhole, List.append_assoc]
    rfl
  have hplace : ((Cursor.start whole).advance 6).rest = slice text extent ++ [';'] := by
    rw [Cursor.advance_rest, hstart]
    rfl
  obtain ⟨f, hf, hrow⟩ := hcut _ _ hplace fun lexeme => lexeme.ends_semicolon []
  rw [← Mode.after?_map hf] at hmode
  obtain ⟨e', he, hbare⟩ := (h.relocate hf other).expr
  obtain ⟨first, rest, hcons⟩ := List.exists_cons_of_ne_nil (mt List.map_eq_nil_iff.mp hne)
  rw [hcons] at hrow hmode he
  obtain ⟨printWord, semicolon, after, hmarks, htokens, hend⟩ := Cut.inPrint hstart hrow hmode
  have hphrase : ProgramPhrase other ([printWord] ++ first :: rest ++ [semicolon])
      ⟨.mk (rowSite other _) ([] ++ [_])⟩ :=
    .program (.nextStatement .noStatements (.print hmarks he rfl) rfl)
  refine ⟨_, Cut.ofText (by rw [String.toList_ofList]; exact htokens) hend hphrase, ?_⟩
  rw [← hbare]
  rfl

/-- What stands for an expression is one, and begins and ends like one. -/
theorem Phrase.exp_of_expr {source : String} {n : Nonterminal} {row : List Token} {e : Expr}
    (h : Phrase source n row (.expr e)) :
    Phrase source .exp row (.expr e) ∧ n.start = .operand ∧ n.finish = .operandEnd := by
  have hlevel : n.isLoose = true ∨ n = .primary := by
    cases h with
    | tighter hlevel | binary hlevel => cases n <;> first | exact .inl rfl | cases hlevel
    | _ => first | exact .inl rfl | exact .inr rfl
  rcases hlevel with hloose | rfl
  · exact ⟨h.to_exp hloose, by cases n <;> first | exact ⟨rfl, rfl⟩ | cases hloose⟩
  · have hsuffixed : Phrase source .suffixed row (.expr e) := .tighter rfl h
    exact ⟨hsuffixed.to_exp rfl, rfl, rfl⟩

theorem Phrase.level_of_stmt {source : String} {n : Nonterminal} {row : List Token} {s : Stmt}
    (h : Phrase source n row (.stmt s)) : n = .statement := by
  cases h <;> rfl

/-- A phrase begins in its own mode only. -/
theorem Mode.eq_start {mode : Mode} {n : Nonterminal}
    (h : (mode.over? (.phrase n)).isSome = true) : mode = n.start := by
  obtain ⟨next, hnext⟩ := Option.isSome_iff_exists.mp h
  exact (Option.ite_none_right_eq_some.mp hnext).1

/-- A name that is declared could as well be an operand, unless it is spelled like a literal. -/
theorem Recuts.operand {text : List Char} {extent : Extent} {mode : Mode} {id : Token}
    (h : Recuts text extent mode [id]) (hname : id.terminal = .name)
    (hother : id.word ≠ "true" ∧ id.word ≠ "false") : Recuts text extent .operand [id] := by
  intro start tail hrest hends
  obtain ⟨f, hf, hcut⟩ := h start tail hrest hends
  refine ⟨f, hf, ?_⟩
  have hnameMoved : (f id).terminal = .name := (terminal_of_lexeme hf id).trans hname
  have hwordMoved : (f id).word = id.word := word_of_lexeme hf id
  have hkeyword : ∀ word, keyword? (f id).text = some word → Mode.operand.step? word = none := by
    intro word hword
    unfold keyword? at hword
    split at hword <;> cases hword <;> first | rfl | skip
    · rename_i htrue
      exact absurd (hwordMoved.symm.trans htrue) hother.1
    · rename_i hfalse
      exact absurd (hwordMoved.symm.trans hfalse) hother.2
  rw [List.map_singleton] at hcut ⊢
  generalize start.advance (slice text extent).length = after at hcut ⊢
  cases hcut with
  | token hgap hrow hextent hspelled hending _ _ htokens =>
    cases htokens
    exact .token hgap hrow hextent hspelled hending (fun _ => hkeyword)
      (by rw [hnameMoved]; rfl) (.nil _ _)

namespace Derivation.Owns

variable {source : String} {text : List Char} {extent : Extent} {owner : Derivation} {mode : Mode}

/-- A statement is read on its own, where its part of the derivation has stood. -/
theorem readsAlone {s : Stmt} (h : owner.Owns source (.statement s))
    (hgrammatical : owner.IsGrammatical) (hmode : (mode.over? owner.symbol).isSome = true)
    (hrecuts : Recuts text extent mode owner.tokens) (hblock : ∀ body, s ≠ .block body) :
    s.ReadsAlone text extent := by
  obtain ⟨n, piece, hphrase, hholds, howner⟩ := h.exists_phrase hgrammatical
  cases hholds with
  | block body => exact absurd rfl (hblock body)
  | stmt s =>
    obtain rfl := hphrase.level_of_stmt
    rcases howner with hsymbol | ⟨token, -, -, hnode⟩
    · rw [hsymbol] at hmode
      obtain rfl := Mode.eq_start hmode
      exact hphrase.readsAlone hrecuts
    · cases hnode

/-- An expression is read behind `print`, where its part of the derivation has stood. -/
theorem readsInPrint {e : Expr} (h : owner.Owns source (.expression e))
    (hgrammatical : owner.IsGrammatical) (hmode : (mode.over? owner.symbol).isSome = true)
    (hrecuts : Recuts text extent mode owner.tokens) (hne : owner.tokens ≠ [])
    (hother : ∀ id, e = .name id → id.spelling ≠ "true" ∧ id.spelling ≠ "false") :
    e.ReadsInPrint text extent := by
  obtain ⟨n, piece, hphrase, hholds, howner⟩ := h.exists_phrase hgrammatical
  cases hholds
  obtain ⟨hexp, hstart, hfinish⟩ := hphrase.exp_of_expr
  rcases howner with hsymbol | ⟨token, rfl, hname, hnode⟩
  · rw [hsymbol] at hmode
    obtain rfl := Mode.eq_start hmode
    rw [hstart] at hrecuts
    refine hexp.readsInPrint hne (hgrammatical.mode ?_) hrecuts
    rw [hsymbol, Mode.over?, if_pos hstart.symm, hfinish]
  · -- A name may have been declared there, so the mode need not be that of an operand.
    obtain rfl := Node.expression.inj hnode
    refine hexp.readsInPrint hne ?_ (hrecuts.operand hname (hother _ rfl))
    rw [tokens_leaf, Mode.after?_cons, hname]
    rfl

end Derivation.Owns

/-! ## Faithful spans -/

/-- An extent in a text is faithful to a node, given the tokens of the text. -/
structure Extent.IsFaithful (source : String) (text : List Char) (tokens : List Token)
    (node : Node) (extent : Extent) : Prop where
  /-- It goes from the first to the last token of the shortest row that is read as the node. -/
  row : ∃ row, row <:+: tokens ∧ node.IsReadFrom source row ∧
    (∀ other, other <:+: row → node.IsReadFrom source other → other = row) ∧
    ∃ first last, row.head? = some first ∧ row.getLast? = some last ∧
      extent.start = first.extent.start ∧ extent.stop = last.extent.stop
  line : extent.line = lineAt text extent.start
  column : extent.column = columnAt text extent.start
  /-- A statement is read on its own, unless it is a block: blocks belong to loops. -/
  statement : ∀ s, node = .statement s → (∀ body, s ≠ .block body) → s.ReadsAlone text extent
  /-- An expression is read behind `print`. -/
  expression : ∀ e, node = .expression e →
    (∀ id, e = .name id → id.spelling ≠ "true" ∧ id.spelling ≠ "false") →
    e.ReadsInPrint text extent
  /-- The children have extents within it, one behind the other. -/
  children : ∃ extents : List Extent,
    node.children.map Node.site = extents.map (fun inner => some ⟨source, inner⟩) ∧
    (∀ inner ∈ extents, extent.start ≤ inner.start ∧ inner.start < inner.stop ∧
      inner.stop ≤ extent.stop) ∧
    extents.Pairwise fun a b => a.stop ≤ b.start

/-- The extent of the tokens of an owner is faithful to its nodes. -/
theorem Derivation.Owns.isFaithful {source : String} {text : List Char} {d owner : Derivation}
    {node : Node} (h : owner.Owns source node) (hgrammatical : d.IsGrammatical)
    (hsymbol : d.symbol = .phrase .program) {after : Cursor}
    (hcut : Cut .statement (.start text) d.tokens after) {before behind : List Token}
    (hoccurs : d.Occurs before owner behind) {extent : Extent}
    (hextent : rowExtent owner.tokens = some extent) :
    extent.IsFaithful source text d.tokens node := by
  have howner := hoccurs.isGrammatical hgrammatical
  have hsite := h.site_eq howner
  have htokens := hoccurs.tokens_eq
  have hne : owner.tokens ≠ [] := fun hnil => by rw [hnil] at hextent; cases hextent
  have hpart : owner.tokens <:+: d.tokens := ⟨before, behind, by rw [htokens, List.append_assoc]⟩
  have horder : InOrder owner.tokens := hcut.inOrder.sublist hpart.sublist
  have hlengths : HaveLengths owner.tokens := fun token htoken =>
    (hcut.isIn (Cursor.start_isIn text) token (hpart.subset htoken)).pos
  -- The tokens of the owner, cut out of the text.
  have hstart : (Mode.statement.over? d.symbol).isSome = true := by rw [hsymbol]; rfl
  obtain ⟨mode, hbefore, hmode⟩ := hoccurs.mode hgrammatical hstart
  rw [htokens] at hcut
  obtain ⟨own, hown, hline, hcolumn, hrecuts⟩ := hcut.exists_slice hbefore hne
  obtain rfl := Option.some.inj (hown.symm.trans hextent)
  obtain ⟨n, piece, hphrase, hholds, -⟩ := h.exists_phrase howner
  obtain ⟨rows, hsites, hsub, hrows⟩ := h.inRows howner hne
  obtain ⟨extents, hextents, hwithin, hpairwise⟩ :=
    horder.exists_extents hlengths hextent hsub hrows
  exact {
    row := ⟨owner.tokens, hpart, ⟨n, piece, hphrase, hholds⟩,
      fun other hother hread => hread.eq_row hother hsite horder hlengths,
      exists_first_last hextent⟩
    line := hline
    column := hcolumn
    statement := fun s hs hblock => by
      subst hs
      exact h.readsAlone howner hmode hrecuts hblock
    expression := fun e he hother => by
      subst he
      exact h.readsInPrint howner hmode hrecuts hne hother
    children := by
      refine ⟨extents, ?_, hwithin, hpairwise⟩
      have hcompose : rows.map (rowSite source) = (rows.map rowExtent).map (siteIn source) :=
        List.map_map.symm
      rw [hsites, hcompose, hextents, List.map_map]
      rfl }

/-- **Spans are faithful.**  A text that is read as a program is cut into tokens, each of them a
    slice of the text, and every span in the program is faithful to its node. -/
theorem Program.ofText_spans_faithful {source text : String} {program : Program}
    (h : Program.ofText source text = .ok program) :
    ∃ tokens after, Cut .statement (.start text.toList) tokens after ∧ after.AtEnd ∧
      (∀ token ∈ tokens, token.IsIn text.toList) ∧
      ∀ node, Node.Within (.program program.block) node →
        (node.site = none → tokens = []) ∧
        ∀ span, node.site = some span → span.source = source ∧
          span.extent.IsFaithful source text.toList tokens node := by
  obtain ⟨d, hread, rfl⟩ := ofText_eq_ok_iff.mp h
  obtain ⟨hgrammatical, hsymbol, after, hcut, hend⟩ := readText_eq_ok_iff.mp hread
  refine ⟨d.tokens, after, hcut, hend, hcut.isIn (Cursor.start_isIn _), fun node hnode => ?_⟩
  obtain ⟨before, owner, behind, hoccurs, howns⟩ :=
    hgrammatical.exists_owner_of_within hsymbol hnode
  have howner := hoccurs.isGrammatical hgrammatical
  have hsite := howns.site_eq howner
  constructor
  · intro hnone
    -- Only a program can do without tokens.
    have hnil : owner.tokens = [] := by
      by_contra hne
      obtain ⟨extent, hextent⟩ := exists_rowExtent hne
      rw [hsite, rowSite, hextent] at hnone
      cases hnone
    have hprogram : owner.symbol = .phrase .program := by
      by_contra hother
      exact howner.tokens_ne_nil hother hnil
    rw [← hoccurs.eq_of_program hgrammatical hprogram, hnil]
  · intro span hspan
    rw [hsite] at hspan
    obtain ⟨extent, hextent, rfl⟩ := Option.map_eq_some_iff.mp hspan
    exact ⟨rfl, howns.isFaithful hgrammatical hsymbol hcut hoccurs hextent⟩

/-- An operand in parentheses: they belong to the statement and not to the operand. -/
theorem Program.ofText_spans_faithful_parentheses :
    ∃ tokens after, Cut .statement (.start "print (true);".toList) tokens after ∧ after.AtEnd ∧
      Extent.IsFaithful "here" "print (true);".toList tokens
        (.expression (.boolean (some ⟨"here", ⟨1, 8, 7, 11⟩⟩) true)) ⟨1, 8, 7, 11⟩ := by
  have hread : Program.ofText "here" "print (true);" =
      .ok ⟨.mk (some ⟨"here", ⟨1, 1, 0, 13⟩⟩)
        [.print (some ⟨"here", ⟨1, 1, 0, 13⟩⟩)
          (.boolean (some ⟨"here", ⟨1, 8, 7, 11⟩⟩) true)]⟩ := by
    decide +kernel
  obtain ⟨tokens, after, hcut, hend, -, hspans⟩ := Program.ofText_spans_faithful hread
  have hspan := (hspans (.expression (.boolean (some ⟨"here", ⟨1, 8, 7, 11⟩⟩) true))
    (.tail (.tail (.tail .refl List.mem_cons_self) List.mem_cons_self) List.mem_cons_self)).2 _ rfl
  exact ⟨tokens, after, hcut, hend, hspan.2⟩

/-- Two slices that are not read as what they are: the body of a loop, as a block is no statement
    of the grammar, and a name that is declared and spelled like a literal. -/
theorem Program.slices_read_otherwise :
    (∃ program body extent, Program.ofText "here" "while true \x7b \x7d" = .ok program ∧
      Node.Within (.program program.block) (.statement (.block body)) ∧
      body.site = some ⟨"here", extent⟩ ∧
      ¬ (Stmt.block body).ReadsAlone "while true \x7b \x7d".toList extent) ∧
    ∃ program id extent, Program.ofText "here" "let true = false;" = .ok program ∧
      Node.Within (.program program.block) (.ofName id) ∧ id.site = some ⟨"here", extent⟩ ∧
      ¬ (Expr.name id).ReadsInPrint "let true = false;".toList extent := by
  constructor
  · have hread : Program.ofText "here" "while true \x7b \x7d" =
        .ok ⟨.mk (some ⟨"here", ⟨1, 1, 0, 14⟩⟩)
          [.loop (some ⟨"here", ⟨1, 1, 0, 14⟩⟩) (.boolean (some ⟨"here", ⟨1, 7, 6, 10⟩⟩) true)
            (.mk (some ⟨"here", ⟨1, 12, 11, 14⟩⟩) [])]⟩ := by
      decide +kernel
    refine ⟨_, .mk (some ⟨"here", ⟨1, 12, 11, 14⟩⟩) [], ⟨1, 12, 11, 14⟩, hread, ?_, rfl, ?_⟩
    · refine .tail (.tail (.tail .refl List.mem_cons_self) List.mem_cons_self) ?_
      exact List.mem_cons_of_mem _ List.mem_cons_self
    · intro hreads
      obtain ⟨other, hother, -⟩ := hreads "here"
      have hslice : slice "while true \x7b \x7d".toList ⟨1, 12, 11, 14⟩ = "\x7b \x7d".toList := by
        decide
      have hnone : (Program.ofText "here" (String.ofList "\x7b \x7d".toList)).toOption = none := by
        decide +kernel
      rw [hslice] at hother
      rw [hother] at hnone
      cases hnone
  · have hread : Program.ofText "here" "let true = false;" =
        .ok ⟨.mk (some ⟨"here", ⟨1, 1, 0, 17⟩⟩)
          [.declaration (some ⟨"here", ⟨1, 1, 0, 17⟩⟩) ⟨"true", some ⟨"here", ⟨1, 5, 4, 8⟩⟩⟩
            (.boolean (some ⟨"here", ⟨1, 12, 11, 16⟩⟩) false)]⟩ := by
      decide +kernel
    refine ⟨_, ⟨"true", some ⟨"here", ⟨1, 5, 4, 8⟩⟩⟩, ⟨1, 5, 4, 8⟩, hread, ?_, rfl, ?_⟩
    · exact .tail (.tail (.tail .refl List.mem_cons_self) List.mem_cons_self) List.mem_cons_self
    · intro hreads
      obtain ⟨other, hother, hbare⟩ := hreads "here"
      have hslice : "print ".toList ++ slice "let true = false;".toList ⟨1, 5, 4, 8⟩ ++ [';'] =
          "print true;".toList := by decide
      have hliteral : Program.ofText "here" (String.ofList "print true;".toList) =
          .ok ⟨.mk (some ⟨"here", ⟨1, 1, 0, 11⟩⟩)
            [.print (some ⟨"here", ⟨1, 1, 0, 11⟩⟩)
              (.boolean (some ⟨"here", ⟨1, 7, 6, 10⟩⟩) true)]⟩ := by
        decide +kernel
      rw [hslice, hliteral] at hother
      obtain rfl := Except.ok.inj hother
      cases hbare

end BellaLang
