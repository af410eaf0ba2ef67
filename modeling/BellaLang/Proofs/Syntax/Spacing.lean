import BellaLang.Proofs.Grammar.Slices
import BellaLang.Proofs.Grammar.Taking
import BellaLang.Proofs.Syntax.Relocation

/-!
White space and comments make no difference.

A gap that begins with white space can be put in at the start of a text or right behind any token of
it.  White space goes on with no lexeme, so the tokens in front are cut as they were.  Those behind
find a longer gap in front of them, and otherwise the same characters.

  1. A row of tokens is cut where something is put in, and the two parts are cut elsewhere like
     before (`Cut.exists_widened`).
  2. The tokens have the same lexemes as before, and so they stand for the same tree, sites apart
     (`Program.ofText_insert_gap`).
-/

namespace BellaLang

open BellaLang.Number BellaLang.Text

/-! ## Putting something in -/

/-- The text with some characters put in at an offset. -/
def insertAt (text : String) (offset : Nat) (piece : List Char) : String :=
  String.ofList (text.toList.take offset ++ (piece ++ text.toList.drop offset))

/-- A gap that white space begins with. -/
structure IsSpacing (gap : List Char) : Prop where
  isGap : IsGap gap
  space : ∃ c ∈ gap.head?, isSpace c = true

/-- No lexeme goes on with white space. -/
theorem Lexeme.ends_of_space (lexeme : Lexeme) {c : Char} (hc : isSpace c = true)
    (rest : List Char) : lexeme.Ends (c :: rest) := by
  have hother : c ≠ '=' ∧ c ≠ '*' ∧ c ≠ '/' ∧ isWordChar c = false := by
    unfold isSpace at hc
    simp only [Bool.or_eq_true, beq_iff_eq] at hc
    rcases hc with (((rfl | rfl) | rfl) | rfl) | rfl <;> decide
  unfold Lexeme.Ends
  rw [List.head?_cons]
  split
  · exact endsNumeral_of_ignored (.inl hc) rest
  · exact fun _ h => hother.1 (Option.some.inj h)
  · exact fun h => hother.2.1 (Option.some.inj h)
  · exact fun h => hother.2.2.1 (Option.some.inj h)
  · rintro - d ⟨⟩
    exact hother.2.2.2

theorem IsSpacing.ends {gap : List Char} (h : IsSpacing gap) (lexeme : Lexeme)
    (rest : List Char) : lexeme.Ends (gap ++ rest) := by
  obtain ⟨c, hc, hspace⟩ := h.space
  obtain ⟨tail, rfl⟩ := List.head?_eq_some_iff.mp hc
  exact lexeme.ends_of_space hspace (tail ++ rest)

/-! ## Cutting the wider text -/

/-- A gap in front of the end is at the end. -/
theorem IsGap.atEnd {gap rest : List Char} (h : IsGap gap) {cursor other : Cursor}
    (hcursor : cursor.rest = gap ++ rest) (hother : other.rest = rest) (hend : other.AtEnd) :
    cursor.AtEnd := by
  have hle : other.rest.length ≤ ignored other.rest := hend
  rw [Cursor.AtEnd, hcursor, h.ignored_append, List.length_append, ← hother]
  omega

/-- A row of tokens with a gap put in front of it is cut like before, somewhere behind. -/
theorem Cut.exists_pushed {mode : Mode} {cursor after : Cursor} {tokens : List Token}
    (h : Cut mode cursor tokens after) {gap : List Char} (hgap : IsGap gap) (hend : after.AtEnd)
    {start : Cursor} (hstart : start.rest = gap ++ cursor.rest) :
    ∃ (f : Token → Token) (last : Cursor), (∀ token, (f token).lexeme = token.lexeme) ∧
      Cut mode start (tokens.map f) last ∧ last.AtEnd := by
  have hbehind : (start.advance gap.length).rest = cursor.rest := by
    rw [Cursor.advance_rest, hstart, List.drop_left]
  cases htokens : tokens with
  | nil =>
    rw [htokens] at h
    cases h
    exact ⟨id, start, fun _ => rfl, .nil mode start, hgap.atEnd hstart rfl hend⟩
  | cons token others =>
    obtain ⟨consumed, hconsumed, hmoved⟩ := h.moved
    have hcut := hmoved (start.advance gap.length) after.rest (hbehind.trans hconsumed)
      fun _ hends => hends
    rw [htokens] at hcut
    refine ⟨Token.movedTo cursor.offset (start.advance gap.length), _, fun _ => rfl,
      hcut.after_gap hgap hstart, ?_⟩
    have hlast : ((start.advance gap.length).advance consumed.length).rest = after.rest := by
      rw [Cursor.advance_rest, hbehind, hconsumed, List.drop_left]
    rw [Cursor.AtEnd, hlast]
    exact hend

/-- **Putting spacing in changes no lexeme.**  A row of tokens is cut in two at the place, and both
    parts are cut like before. -/
theorem Cut.exists_widened {mode : Mode} {cursor between after : Cursor} {u v : List Token}
    (hu : Cut mode cursor u between) {next : Mode} (hnext : mode.after? u = some next)
    (hv : Cut next between v after) (hend : after.AtEnd) {gap front : List Char}
    (hgap : IsSpacing gap) (hfront : cursor.rest = front ++ between.rest) {start : Cursor}
    (hstart : start.rest = front ++ (gap ++ between.rest)) :
    ∃ (f : Token → Token) (last : Cursor), (∀ token, (f token).lexeme = token.lexeme) ∧
      Cut mode start ((u ++ v).map f) last ∧ last.AtEnd := by
  obtain ⟨consumed, hconsumed, hmoved⟩ := hu.moved
  obtain rfl : front = consumed := List.append_cancel_right (hfront.symm.trans hconsumed)
  have hfirst := hmoved start (gap ++ between.rest) hstart fun lexeme _ => hgap.ends lexeme _
  have hplace : (start.advance front.length).rest = gap ++ between.rest := by
    rw [Cursor.advance_rest, hstart, List.drop_left]
  obtain ⟨g, last, hg, hsecond, hlast⟩ := hv.exists_pushed hgap.isGap hend hplace
  -- The tokens in front of the place stop there, and those behind it do not.
  refine ⟨fun token => if token.extent.start < between.offset
    then token.movedTo cursor.offset start else g token, last, fun token => ?_, ?_, hlast⟩
  · dsimp only
    split
    · rfl
    · exact hg token
  · have hlow := hu.start_lt
    have hhigh : ∀ token ∈ v, ¬token.extent.start < between.offset := fun token htoken =>
      Nat.not_lt.mpr (hv.le_start token htoken)
    rw [List.map_append, List.map_congr_left fun token htoken => if_pos (hlow token htoken),
      List.map_congr_left fun token htoken => if_neg (hhigh token htoken)]
    refine hfirst.append ?_ hsecond
    rw [Mode.after?, List.foldlM_map]
    exact hnext

/-- At the start of a text, or right behind one of its tokens. -/
def IsBetweenTokens (text : String) (offset : Nat) : Prop :=
  offset = 0 ∨ ∃ token ∈ tokensRead text, token.extent.stop = offset

/-- There the tokens of the text come in two parts. -/
theorem Cut.exists_split {text : List Char} {tokens : List Token} {after : Cursor}
    (h : Cut .statement (.start text) tokens after) {offset : Nat}
    (hoffset : offset = 0 ∨ ∃ token ∈ tokens, token.extent.stop = offset) :
    ∃ u v next between, u ++ v = tokens ∧ Cut .statement (.start text) u between ∧
      Mode.statement.after? u = some next ∧ Cut next between v after ∧
      between.rest = text.drop offset := by
  rcases hoffset with rfl | ⟨token, htoken, rfl⟩
  · exact ⟨[], tokens, .statement, .start text, rfl, .nil _ _, rfl, h, rfl⟩
  · obtain ⟨before, behind, rfl⟩ := List.append_of_mem htoken
    rw [List.append_cons] at h ⊢
    obtain ⟨last, hlast⟩ := h.exists_mode
    rw [Mode.after?_append] at hlast
    obtain ⟨next, hnext, -⟩ := Option.bind_eq_some_iff.mp hlast
    obtain ⟨between, hu, hv⟩ := h.split hnext
    obtain ⟨n, hn, rfl⟩ := hu.exists_advance
    have hstop : token.extent.stop = n := by
      rw [hu.stop_eq List.getLast?_concat, Cursor.advance_offset hn]
      exact Nat.zero_add n
    rw [hstop]
    exact ⟨_, _, next, _, rfl, hu, hnext, hv, Cursor.advance_rest n _⟩

/-- **White space and comments make no difference.**  If a text is read as a program, it is read as
    the same program, sites apart, with spacing put in at its start or right behind one of its
    tokens.  And the tokens have the same lexemes. -/
theorem Program.ofText_insert_gap {source text : String} {program : Program}
    (h : Program.ofText source text = .ok program) {offset : Nat}
    (hoffset : IsBetweenTokens text offset) {gap : List Char} (hgap : IsSpacing gap) :
    ∃ wider : Program, Program.ofText source (insertAt text offset gap) = .ok wider ∧
      wider.block.bare = program.block.bare ∧
      (tokensRead (insertAt text offset gap)).map Token.lexeme =
        (tokensRead text).map Token.lexeme := by
  obtain ⟨d, hread, rfl⟩ := ofText_eq_ok_iff.mp h
  obtain ⟨hgrammatical, hsymbol, after, hcut, hend⟩ := readText_eq_ok_iff.mp hread
  rw [IsBetweenTokens, tokensRead_of_readText hread] at hoffset
  rw [tokensRead_of_readText hread]
  -- The text with the gap is cut into the same lexemes.
  obtain ⟨u, v, next, between, htokens, hu, hnext, hv, hrest⟩ := hcut.exists_split hoffset
  have hfront : (Cursor.start text.toList).rest = text.toList.take offset ++ between.rest := by
    rw [hrest, List.take_append_drop]
    rfl
  have hstart : (Cursor.start (insertAt text offset gap).toList).rest =
      text.toList.take offset ++ (gap ++ between.rest) := by
    rw [insertAt, String.toList_ofList, hrest]
    rfl
  obtain ⟨f, last, hf, hwider, hlast⟩ := hu.exists_widened hnext hv hend hgap hfront hstart
  rw [htokens] at hwider
  -- They are a program, and the tree is the same but for its sites.
  have hphrase : Phrase source .program d.tokens (.block (d.toProgram source).block) :=
    programPhrase_iff.mpr ⟨d, ⟨hgrammatical, hsymbol, rfl⟩, rfl⟩
  obtain ⟨body, hbody, hbare⟩ := (hphrase.relocate hf source).block
  have hprogram : ProgramPhrase source (d.tokens.map f) ⟨body⟩ := hbody
  obtain ⟨e, ⟨hegrammatical, hesymbol, hetokens⟩, he⟩ := programPhrase_iff.mp hprogram
  have hreadWider : readText (insertAt text offset gap) = .ok e :=
    readText_eq_ok_iff.mpr ⟨hegrammatical, hesymbol, last, hetokens ▸ hwider, hlast⟩
  refine ⟨⟨body⟩, ofText_eq_ok_iff.mpr ⟨e, hreadWider, he⟩, hbare, ?_⟩
  rw [tokensRead_of_readText hreadWider, hetokens, List.map_map]
  exact List.map_congr_left fun token _ => hf token

/-- A comment right behind a division, in the middle of a line. -/
theorem Program.ofText_insert_gap_division :
    let text := "print 6/x;"
    let gap := " // over\n\t".toList
    IsBetweenTokens text 8 ∧ IsSpacing gap ∧ insertAt text 8 gap = "print 6/ // over\n\tx;" ∧
      ∃ program wider : Program, Program.ofText "here" text = .ok program ∧
        Program.ofText "here" (insertAt text 8 gap) = .ok wider ∧
        wider.block.bare = program.block.bare := by
  intro text gap
  have hoffset : IsBetweenTokens text 8 :=
    .inr ⟨⟨.slash, ['/'], ⟨1, 8, 7, 8⟩⟩, by decide +kernel, rfl⟩
  have hbody : '\n' ∉ " over".toList := by decide
  have hgap : IsSpacing gap := ⟨.space rfl (.comment hbody (.space rfl .nil)), ' ', rfl, rfl⟩
  obtain ⟨program, hprogram⟩ : ∃ program, Program.ofText "here" text = .ok program :=
    Program.exists_ofText (by decide +kernel)
  obtain ⟨wider, hwider, hbare, -⟩ := Program.ofText_insert_gap hprogram hoffset hgap
  exact ⟨hoffset, hgap, by decide +kernel, program, wider, hprogram, hwider, hbare⟩

end BellaLang
