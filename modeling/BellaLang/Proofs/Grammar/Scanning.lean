import BellaLang.Proofs.Grammar.Run

/-!
Cutting a text apart from reading it.

What the next token of a text is depends on what the reader can use.  For a text that is accepted in
the end this makes no difference: a token that the automaton takes is the one that is found where
every terminal may come.  So such a text can be cut first, with all terminals accepted (`Spells`),
and its tokens read afterwards (`Spells.readFrom`).

  1. The first match among all terminals is also the first among the accepted ones, if it is itself
     accepted (`firstMatch_accepted`).
  2. A word stays the same word, since wherever a word of the language can come a name can come too
     (`name_acceptable`).
-/

namespace BellaLang

/-! ## What is accepted -/

/-- Every terminal is accepted. -/
abbrev everywhere : Terminal → Bool := fun _ => true

/-- A terminal that the automaton has a move for is acceptable. -/
theorem mem_acceptable_of_move? {s : State} {t : Terminal} {move : Move}
    (h : move? s t = some move) : t ∈ acceptable s := by
  unfold move? at h
  unfold acceptable
  split at h
  · rename_i target hshift
    exact List.mem_append_left _ (List.mem_map_of_mem (mem_of_lookup hshift))
  · split at h
    · split at h
      · rename_i hfollow
        exact List.mem_append_right _ hfollow
      · cases h
    · cases h

theorem rows_name_acceptable :
    ∀ s < 100, ((acceptable s).any Terminal.isKeyword → (acceptable s).contains .name) := by
  decide +kernel

/-- Wherever a word of the language can come, a name can come too. -/
theorem name_acceptable {s : State} {t : Terminal} (ht : t ∈ acceptable s)
    (hkeyword : t.isKeyword = true) : .name ∈ acceptable s := by
  rcases Nat.lt_or_ge s 100 with hs | hs
  · have hany : (acceptable s).any Terminal.isKeyword = true :=
      List.any_eq_true.mpr ⟨t, ht, hkeyword⟩
    exact List.contains_iff_mem.mp (rows_name_acceptable s hs hany)
  · rw [acceptable, stateRow_of_le hs] at ht
    exact absurd ht List.not_mem_nil

theorem isKeyword_of_keyword? {word : List Char} {t : Terminal} (h : keyword? word = some t) :
    t.isKeyword = true := by
  unfold keyword? at h
  split at h <;> cases h <;> rfl

/-! ## The first match -/

/-- The first match among all terminals is the first among the accepted ones, if it is accepted. -/
theorem firstMatch_accepted {accepted : Terminal → Bool} {text : List Char} {t : Terminal} {n : Nat}
    (h : firstMatch everywhere text = some (t, n)) (ht : accepted t = true) :
    firstMatch accepted text = some (t, n) := by
  unfold firstMatch at h ⊢
  generalize scanOrder = order at h ⊢
  induction order with
  | nil => cases h
  | cons u order ih =>
    rw [List.findSome?_cons] at h ⊢
    by_cases hmatch : 0 < u.matchLength text
    · rw [if_pos ⟨rfl, hmatch⟩] at h
      cases h
      rw [if_pos ⟨ht, hmatch⟩]
    · rw [if_neg fun hu => hmatch hu.2] at h ⊢
      exact ih h

/-- What is refined to an accepted terminal is refined to it where only some are accepted. -/
theorem refine_accepted {accepted : Terminal → Bool} {t : Terminal} {piece : List Char}
    (h : accepted (refine everywhere t piece) = true) :
    refine accepted t piece = refine everywhere t piece := by
  unfold refine at h ⊢
  by_cases hname : t = .name
  · rw [if_pos hname] at h ⊢
    rw [if_pos hname]
    cases hword : keyword? piece with
    | none => rfl
    | some word =>
      rw [hword] at h
      exact if_pos h
  · rw [if_neg hname, if_neg hname]

/-- A terminal can come wherever the one can that it is refined to. -/
theorem acceptable_of_refine {s : State} {t : Terminal} {piece : List Char}
    (h : refine everywhere t piece ∈ acceptable s) : t ∈ acceptable s := by
  unfold refine at h
  by_cases hname : t = .name
  · rw [if_pos hname] at h
    rw [hname]
    cases hword : keyword? piece with
    | none =>
      rw [hword] at h
      exact h
    | some word =>
      rw [hword] at h
      exact name_acceptable h (isKeyword_of_keyword? hword)
  · rw [if_neg hname] at h
    exact h

/-! ## Texts and what they spell -/

/-- What matters of a token, apart from where it stands. -/
structure Lexeme where
  terminal : Terminal
  text : List Char
deriving DecidableEq, Repr

/-- A token without its place. -/
def Token.lexeme (token : Token) : Lexeme := ⟨token.terminal, token.text⟩

/-- In front of `rest`, the lexeme is cut off where it ends. -/
def Lexeme.Stands (lexeme : Lexeme) (rest : List Char) : Prop :=
  ignored (lexeme.text ++ rest) = 0 ∧
    ∃ t, firstMatch everywhere (lexeme.text ++ rest) = some (t, lexeme.text.length) ∧
      refine everywhere t lexeme.text = lexeme.terminal

/-- A text is a row of lexemes, perhaps with spaces between them. -/
inductive Spells : List Char → List Lexeme → Prop
  | nothing : Spells [] []
  | space {text : List Char} {lexemes : List Lexeme} (h : Spells text lexemes) :
      Spells (' ' :: text) lexemes
  | lexeme {lexeme : Lexeme} {rest : List Char} {lexemes : List Lexeme}
      (hstands : lexeme.Stands rest) (h : Spells rest lexemes) :
      Spells (lexeme.text ++ rest) (lexeme :: lexemes)

/-! ## Cutting first, reading afterwards -/

/-- A lexeme is found as a token, by any reader that can use it. -/
theorem Cursor.next_of_stands {cursor : Cursor} {lexeme : Lexeme} {rest : List Char}
    (hcursor : cursor.rest = lexeme.text ++ rest) (hstands : lexeme.Stands rest) :
    ∃ token after, token.lexeme = lexeme ∧ Cursor.rest after = rest ∧
      ∀ s : State, lexeme.terminal ∈ acceptable s →
        (cursor.next fun t => (acceptable s).contains t) = .token token after := by
  obtain ⟨hignored, t, hmatch, hrefine⟩ := hstands
  have htake : cursor.rest.take lexeme.text.length = lexeme.text := by rw [hcursor, List.take_left]
  refine ⟨⟨lexeme.terminal, lexeme.text, cursor.extent lexeme.text.length⟩,
    cursor.advance lexeme.text.length, rfl, ?_, fun s hs => ?_⟩
  · rw [advance_rest, hcursor, List.drop_left]
  · -- The reader tries fewer terminals, but the one that matches first is among them.
    have ht : t ∈ acceptable s := acceptable_of_refine (hrefine ▸ hs)
    have hfirst : firstMatch (fun t => (acceptable s).contains t) (lexeme.text ++ rest) =
        some (t, lexeme.text.length) := firstMatch_accepted hmatch (List.contains_iff_mem.mpr ht)
    have hword : refine (fun t => (acceptable s).contains t) t lexeme.text = lexeme.terminal := by
      rw [refine_accepted (List.contains_iff_mem.mpr (hrefine ▸ hs)), hrefine]
    have hlexeme : cursor.lexeme? (fun t => (acceptable s).contains t) =
        some (⟨lexeme.terminal, lexeme.text, cursor.extent lexeme.text.length⟩,
          cursor.advance lexeme.text.length) := by
      rw [lexeme?, hcursor, hfirst, ← hcursor]
      dsimp only [Option.map_some]
      rw [htake, hword]
    have hnonempty : cursor.rest ≠ [] := by
      intro hnil
      have hpos := firstMatch_pos hmatch
      rw [hcursor] at hnil
      rw [(List.append_eq_nil_iff.mp hnil).1] at hpos
      exact absurd hpos (Nat.lt_irrefl 0)
    unfold next
    rw [hcursor, hignored]
    dsimp only [advance]
    split
    · rename_i hnil
      exact absurd hnil hnonempty
    · rw [hlexeme]

/-- A space makes no difference to what comes next. -/
theorem Cursor.next_space {cursor : Cursor} {text : List Char} (h : cursor.rest = ' ' :: text)
    (accepted : Terminal → Bool) :
    cursor.next accepted = (cursor.past ' ' text).next accepted := by
  have hignored : ignored cursor.rest = ignored text + 1 := by
    rw [h, ignored.eq_def]
    exact Nat.add_comm 1 _
  have hpast : (cursor.past ' ' text).rest = text := by
    rw [past]
    rfl
  have hadvance : cursor.advance (ignored cursor.rest) =
      (cursor.past ' ' text).advance (ignored (cursor.past ' ' text).rest) := by
    rw [hignored, hpast, advance, h]
  unfold next
  rw [hadvance]

/-- A text without lexemes is at its end, for every reader. -/
theorem Spells.next_nil {text : List Char} (h : Spells text []) {cursor : Cursor}
    (hcursor : cursor.rest = text) (accepted : Terminal → Bool) :
    cursor.next accepted = .endOfText := by
  generalize hlexemes : ([] : List Lexeme) = lexemes at h
  induction h generalizing cursor with
  | nothing =>
    unfold Cursor.next
    rw [hcursor, ignored.eq_def]
    dsimp only [Cursor.advance]
    rw [hcursor]
  | @space text lexemes _ ih =>
    rw [Cursor.next_space hcursor]
    exact ih rfl hlexemes
  | lexeme hstands _ ih => cases hlexemes

/-- The first lexeme of a text is its next token, for every reader that can use it. -/
theorem Spells.next_cons {text : List Char} {lexeme : Lexeme} {lexemes : List Lexeme}
    (h : Spells text (lexeme :: lexemes)) {cursor : Cursor} (hcursor : cursor.rest = text) :
    ∃ token after, token.lexeme = lexeme ∧ Spells (Cursor.rest after) lexemes ∧
      ∀ s : State, lexeme.terminal ∈ acceptable s →
        (cursor.next fun t => (acceptable s).contains t) = .token token after := by
  generalize hall : lexeme :: lexemes = all at h
  induction h generalizing cursor with
  | nothing => cases hall
  | @space text lexemes _ ih =>
    have hpast : (cursor.past ' ' text).rest = text := rfl
    obtain ⟨token, after, htoken, hafter, hnext⟩ := ih hpast hall
    refine ⟨token, after, htoken, hafter, fun s hs => ?_⟩
    rw [Cursor.next_space hcursor]
    exact hnext s hs
  | lexeme hstands hrest _ =>
    cases hall
    obtain ⟨token, after, htoken, hafter, hnext⟩ := Cursor.next_of_stands hcursor hstands
    exact ⟨token, after, htoken, hafter ▸ hrest, hnext⟩

/-- At the end of a text the reader is done, if the program is complete. -/
theorem readFrom_end {stack : Stack} {last : Option Token} {cursor : Cursor} {d : Derivation}
    (hnext : (cursor.next fun t => (acceptable stack.state).contains t) = .endOfText)
    (hfeed : feed (endToken last) stack = .finished d) : readFrom stack last cursor = .ok d := by
  rw [readFrom.eq_def]
  split <;> rename_i hfound <;> rw [hnext] at hfound <;> cases hfound
  rw [hfeed]

/-- A token that can be put on top is put on top, and reading goes on after it. -/
theorem readFrom_token {stack shifted : Stack} {last : Option Token} {cursor after : Cursor}
    {token : Token}
    (hnext : (cursor.next fun t => (acceptable stack.state).contains t) = .token token after)
    (hfeed : feed token stack = .shifted shifted) :
    readFrom stack last cursor = readFrom shifted (some token) after := by
  rw [readFrom.eq_def]
  split <;> rename_i hfound <;> rw [hnext] at hfound <;> cases hfound
  rw [hfeed]

/-- A token that is put on top can come next. -/
theorem acceptable_of_feed {token : Token} {stack shifted : Stack}
    (h : feed token stack = .shifted shifted) : token.terminal ∈ acceptable stack.state := by
  rw [feed] at h
  split at h
  · cases h
  · rename_i target hmove
    exact mem_acceptable_of_move? hmove
  · rename_i rule hmove
    exact mem_acceptable_of_move? hmove

/-- **Cutting first, reading afterwards.**  If a text spells some lexemes, it can be cut into tokens
    for them, and what the automaton makes of the tokens the text is read as. -/
theorem Spells.readFrom {lexemes : List Lexeme} {cursor : Cursor} (h : Spells cursor.rest lexemes) :
    ∃ tokens : List Token, tokens.map Token.lexeme = lexemes ∧
      ∀ (stack : Stack) (last : Option Token) (d : Derivation),
        readTokens stack tokens = some d → BellaLang.readFrom stack last cursor = .ok d := by
  -- The induction is on the lexemes and not on the text, so that spaces need no case here.
  induction lexemes generalizing cursor with
  | nil =>
    refine ⟨[], rfl, fun stack last d hread => ?_⟩
    have hterminal : (endToken none).terminal = (endToken last).terminal := by cases last <;> rfl
    rw [readTokens] at hread
    split at hread
    · rename_i made hfeed
      have hfinished := feed_finished_congr hterminal hfeed
      cases hread
      exact readFrom_end (h.next_nil rfl _) hfinished
    · cases hread
    · cases hread
  | cons lexeme lexemes ih =>
    obtain ⟨token, after, rfl, hafter, hnext⟩ := h.next_cons rfl
    obtain ⟨tokens, hlexemes, hreads⟩ := ih hafter
    refine ⟨token :: tokens, by rw [List.map_cons, hlexemes], fun stack last d hread => ?_⟩
    rw [readTokens] at hread
    split at hread
    · rename_i shifted hfeed
      rw [readFrom_token (hnext stack.state (acceptable_of_feed hfeed)) hfeed]
      exact hreads shifted (some token) d hread
    · cases hread
    · cases hread

end BellaLang
