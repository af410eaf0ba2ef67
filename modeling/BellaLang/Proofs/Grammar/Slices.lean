import BellaLang.Proofs.Grammar.Cutting

/-!
Cutting a slice out of a text, and cutting it up on its own.

  1. Line and column of a place are counted in the text in front of it (`Cursor.IsIn`), and every
     token of a text stands at such a place.
  2. Tokens stand one behind the other (`Cut.inOrder`).
  3. A row of tokens can be cut off from those before and after it (`Cut.split`), and at the place
     of its first token there is no gap left (`Cut.from_first`).
  4. The characters from the first token to the last are cut in the same way in another text, at
     whatever place, if nothing behind them can go on with a lexeme (`Cut.moved`).  So a row of
     tokens can be cut out of its text (`Cut.exists_slice`).
-/

namespace BellaLang

/-! ## Places in a text -/

/-- The line of a place: one more than the line feeds in front of it. -/
def lineAt (text : List Char) (offset : Nat) : Nat := 1 + (text.take offset).count '\n'

/-- The column of a place: one more than the characters in front of it on its line. -/
def columnAt (text : List Char) (offset : Nat) : Nat :=
  1 + ((text.take offset).reverse.takeWhile (· ≠ '\n')).length

/-- The cursor stands in the text, and knows where. -/
structure Cursor.IsIn (cursor : Cursor) (text : List Char) : Prop where
  rest : cursor.rest = text.drop cursor.offset
  line : cursor.line = lineAt text cursor.offset
  column : cursor.column = columnAt text cursor.offset

theorem Cursor.start_isIn (text : List Char) : (Cursor.start text).IsIn text :=
  ⟨rfl, rfl, rfl⟩

theorem Cursor.IsIn.past {cursor : Cursor} {text : List Char} (h : cursor.IsIn text) {c : Char}
    {rest : List Char} (hrest : cursor.rest = c :: rest) : (cursor.past c rest).IsIn text := by
  have hdrop : text.drop cursor.offset = c :: rest := by rw [← h.rest, hrest]
  have hafter : rest = text.drop (cursor.offset + 1) := by
    rw [← List.drop_drop, hdrop, List.drop_one, List.tail_cons]
  have htake : text.take (cursor.offset + 1) = text.take cursor.offset ++ [c] := by
    have hget : text[cursor.offset]? = some c := by
      rw [← List.head?_drop, hdrop, List.head?_cons]
    rw [List.take_add_one, hget, Option.toList_some]
  unfold Cursor.past
  split
  · rename_i hfeed
    refine ⟨hafter, ?_, ?_⟩
    · rw [lineAt, htake, List.count_append, hfeed, h.line, lineAt, List.count_singleton_self,
        Nat.add_assoc]
    · rw [columnAt, htake, List.reverse_append, hfeed]
      rfl
  · rename_i hother
    refine ⟨hafter, ?_, ?_⟩
    · rw [lineAt, htake, List.count_append, h.line, lineAt, List.count_singleton,
        if_neg (by simpa using hother), Nat.add_zero]
    · have hkept : decide (c ≠ '\n') = true := decide_eq_true hother
      rw [columnAt, htake, List.reverse_append, List.reverse_singleton, List.singleton_append,
        List.takeWhile_cons, if_pos hkept, List.length_cons, h.column, columnAt, Nat.add_assoc]

theorem Cursor.IsIn.advance {cursor : Cursor} {text : List Char} (h : cursor.IsIn text) (n : Nat) :
    (cursor.advance n).IsIn text := by
  induction n generalizing cursor with
  | zero => exact h
  | succ n ih =>
    rw [Cursor.advance]
    split
    · exact h
    · rename_i hrest
      exact ih (h.past hrest)

/-- The offset counts the characters that have been passed. -/
theorem Cursor.advance_offset {n : Nat} {cursor : Cursor} (h : n ≤ cursor.rest.length) :
    (cursor.advance n).offset = cursor.offset + n := by
  induction n generalizing cursor with
  | zero => rfl
  | succ n ih =>
    rw [advance]
    split
    · rename_i hnil
      rw [hnil] at h
      exact absurd h (Nat.not_succ_le_zero n)
    · rename_i c rest hrest
      rw [hrest, List.length_cons] at h
      have hpast : (cursor.past c rest).rest = rest ∧
          (cursor.past c rest).offset = cursor.offset + 1 := by
        unfold past
        split <;> exact ⟨rfl, rfl⟩
      rw [ih (by rw [hpast.1]; omega), hpast.2]
      omega

/-! ## Tokens stand one behind the other -/

/-- The token stands in the text, and has a length. -/
structure Token.IsIn (token : Token) (text : List Char) : Prop where
  pos : token.extent.start < token.extent.stop
  slice : token.text = (text.drop token.extent.start).take (token.extent.stop - token.extent.start)
  line : token.extent.line = lineAt text token.extent.start
  column : token.extent.column = columnAt text token.extent.start

/-- One behind the other. -/
def InOrder (tokens : List Token) : Prop :=
  tokens.Pairwise fun a b => a.extent.stop ≤ b.extent.start

/-- Where a token behind a gap stands, and what is behind it. -/
theorem token_place {cursor : Cursor} {gap rest : List Char} {token : Token}
    (hrest : cursor.rest = gap ++ (token.text ++ rest))
    (hextent : token.extent = (cursor.advance gap.length).extent token.text.length) :
    token.extent.start = cursor.offset + gap.length ∧
      token.extent.stop = (cursor.advance (gap.length + token.text.length)).offset ∧
      token.extent.stop = token.extent.start + token.text.length ∧
      (cursor.advance (gap.length + token.text.length)).rest = rest := by
  have hlength := congrArg List.length hrest
  simp only [List.length_append] at hlength
  have hstart : (cursor.advance gap.length).offset = cursor.offset + gap.length :=
    Cursor.advance_offset (by omega)
  have hstop : (cursor.advance (gap.length + token.text.length)).offset =
      cursor.offset + (gap.length + token.text.length) := Cursor.advance_offset (by omega)
  refine ⟨?_, ?_, ?_, ?_⟩
  · rw [hextent, Cursor.extent, hstart]
  · rw [hextent, Cursor.extent, hstart, hstop, Nat.add_assoc]
  · rw [hextent, Cursor.extent]
  · rw [Cursor.advance_rest, hrest, ← List.append_assoc, ← List.length_append, List.drop_left]

theorem Lexeme.IsSpelled.text_ne_nil {lexeme : Lexeme} {rest : List Char} (h : lexeme.IsSpelled)
    (hends : lexeme.Ends rest) : lexeme.text ≠ [] := by
  obtain ⟨t, hscanned, hspelled, -⟩ := h.scanned hends
  exact BellaLang.text_ne_nil hscanned hspelled

namespace Cut

variable {mode : Mode} {cursor after : Cursor} {tokens : List Token}

/-- How far the tokens reach. -/
theorem exists_advance (h : Cut mode cursor tokens after) :
    ∃ n ≤ cursor.rest.length, after = cursor.advance n := by
  induction h with
  | nil => exact ⟨0, Nat.zero_le _, rfl⟩
  | @token mode next cursor after gap rest token tokens hgap hrest hextent hspelled hends hword
      hstep htokens ih =>
    obtain ⟨n, hn, rfl⟩ := ih
    refine ⟨gap.length + token.text.length + n, ?_, (Cursor.advance_add _ _ _).symm⟩
    have hlength := congrArg List.length hrest
    rw [(token_place hrest hextent).2.2.2] at hn
    simp only [List.length_append] at hlength
    omega

theorem offset_le (h : Cut mode cursor tokens after) : cursor.offset ≤ after.offset := by
  obtain ⟨n, hn, rfl⟩ := h.exists_advance
  rw [Cursor.advance_offset hn]
  exact Nat.le_add_right _ _

/-- No token stands in front of the cursor. -/
theorem le_start (h : Cut mode cursor tokens after) :
    ∀ token ∈ tokens, cursor.offset ≤ token.extent.start := by
  induction h with
  | nil => exact nofun
  | @token mode next cursor after gap rest token tokens hgap hrest hextent hspelled hends hword
      hstep htokens ih =>
    obtain ⟨hstart, hstop, hlength, -⟩ := token_place hrest hextent
    intro other hother
    rcases List.mem_cons.mp hother with rfl | hmem
    · omega
    · have hle := ih other hmem
      omega

/-- Every token starts in front of the place that the row of tokens ends at. -/
theorem start_lt (h : Cut mode cursor tokens after) :
    ∀ token ∈ tokens, token.extent.start < after.offset := by
  induction h with
  | nil => exact nofun
  | @token mode next cursor after gap rest token tokens hgap hrest hextent hspelled hends hword
      hstep htokens ih =>
    intro other hother
    rcases List.mem_cons.mp hother with rfl | hmem
    · obtain ⟨-, hstop, hlength, -⟩ := token_place hrest hextent
      have hpos := List.length_pos_iff.mpr (hspelled.text_ne_nil hends)
      have hle := htokens.offset_le
      have htext : other.lexeme.text = other.text := rfl
      rw [htext] at hpos
      omega
    · exact ih other hmem

/-- Every token stands in the text. -/
theorem isIn (h : Cut mode cursor tokens after) {text : List Char} (hcursor : cursor.IsIn text) :
    ∀ token ∈ tokens, token.IsIn text := by
  induction h with
  | nil => exact nofun
  | @token mode next cursor after gap rest token tokens hgap hrest hextent hspelled hends hword
      hstep htokens ih =>
    intro other hother
    rcases List.mem_cons.mp hother with rfl | hmem
    · obtain ⟨hstart, -, hlength, -⟩ := token_place hrest hextent
      have hplace := hcursor.advance gap.length
      have hhere : (cursor.advance gap.length).rest = other.text ++ rest := by
        rw [Cursor.advance_rest, hrest, List.drop_left]
      have hoffset : (cursor.advance gap.length).offset = other.extent.start := by
        rw [hextent, Cursor.extent]
      refine ⟨?_, ?_, ?_, ?_⟩
      · have hpos := List.length_pos_iff.mpr (hspelled.text_ne_nil hends)
        rw [hlength]
        exact Nat.lt_add_of_pos_right hpos
      · rw [hlength, Nat.add_sub_cancel_left, ← hoffset, ← hplace.rest, hhere, List.take_left]
      · rw [← hoffset, ← hplace.line, hextent, Cursor.extent]
      · rw [← hoffset, ← hplace.column, hextent, Cursor.extent]
    · exact ih (hcursor.advance _) other hmem

/-- **Tokens stand one behind the other.** -/
theorem inOrder (h : Cut mode cursor tokens after) : InOrder tokens := by
  induction h with
  | nil => exact .nil
  | @token mode next cursor after gap rest token tokens hgap hrest hextent hspelled hends hword
      hstep htokens ih =>
    refine .cons (fun other hother => ?_) ih
    rw [(token_place hrest hextent).2.1]
    exact htokens.le_start other hother

/-- The last token ends where the row of tokens does. -/
theorem stop_eq (h : Cut mode cursor tokens after) {last : Token}
    (hlast : tokens.getLast? = some last) : last.extent.stop = after.offset := by
  induction h with
  | nil => cases hlast
  | @token mode next cursor after gap rest token tokens hgap hrest hextent hspelled hends hword
      hstep htokens ih =>
    cases tokens with
    | nil =>
      obtain rfl := Option.some.inj hlast
      cases htokens
      exact (token_place hrest hextent).2.1
    | cons other more => exact ih (by rw [← hlast, List.getLast?_cons_cons])

end Cut

/-! ## A part of a row of tokens -/

/-- Two gaps, one behind the other, are a gap. -/
theorem IsGap.append {u v : List Char} (hu : IsGap u) (hv : IsGap v) : IsGap (u ++ v) := by
  induction hu with
  | nil => exact hv
  | space hc h ih => exact .space hc ih
  | @comment body gap hbody h ih =>
    rw [List.cons_append, List.cons_append, List.append_assoc, List.cons_append]
    exact .comment hbody ih

namespace Cut

variable {mode : Mode} {cursor after : Cursor}

/-- The mode behind some tokens. -/
theorem exists_mode {tokens : List Token} (h : Cut mode cursor tokens after) :
    ∃ next, mode.after? tokens = some next := by
  induction h with
  | nil mode cursor => exact ⟨mode, rfl⟩
  | token hgap hrest hextent hspelled hends hword hstep htokens ih =>
    obtain ⟨next, hnext⟩ := ih
    refine ⟨next, ?_⟩
    rw [Mode.after?_cons, hstep]
    exact hnext

/-- Two rows of tokens, one behind the other, are cut one after the other. -/
theorem split {u v : List Token} (h : Cut mode cursor (u ++ v) after) {next : Mode}
    (hnext : mode.after? u = some next) :
    ∃ between, Cut mode cursor u between ∧ Cut next between v after := by
  induction u generalizing mode cursor with
  | nil =>
    obtain rfl := Option.some.inj hnext
    exact ⟨cursor, .nil mode cursor, h⟩
  | cons token u ih =>
    cases h with
    | token hgap hrest hextent hspelled hends hword hstep htokens =>
      rw [Mode.after?_cons, hstep] at hnext
      obtain ⟨between, hu, hv⟩ := ih htokens hnext
      exact ⟨between, .token hgap hrest hextent hspelled hends hword hstep hu, hv⟩

/-- Two rows of tokens that are cut one after the other are cut. -/
theorem append {u v : List Token} {between : Cursor} (hu : Cut mode cursor u between) {next : Mode}
    (hnext : mode.after? u = some next) (hv : Cut next between v after) :
    Cut mode cursor (u ++ v) after := by
  induction hu with
  | nil mode cursor =>
    obtain rfl := Option.some.inj hnext
    exact hv
  | token hgap hrest hextent hspelled hends hword hstep htokens ih =>
    rw [Mode.after?_cons, hstep] at hnext
    exact .token hgap hrest hextent hspelled hends hword hstep (ih hnext hv)

/-- Where the first token starts there is no gap in front of it. -/
theorem from_first {token : Token} {tokens : List Token}
    (h : Cut mode cursor (token :: tokens) after) :
    ∃ n, (cursor.advance n).offset = token.extent.start ∧
      Cut mode (cursor.advance n) (token :: tokens) after := by
  cases h with
  | @token _ next _ _ gap rest _ _ hgap hrest hextent hspelled hends hword hstep htokens =>
    have hnone : IsGap [] := .nil
    refine ⟨gap.length, by rw [hextent, Cursor.extent], ?_⟩
    refine .token hnone ?_ hextent hspelled hends hword hstep ?_
    · rw [Cursor.advance_rest, hrest, List.drop_left]
      rfl
    · rw [List.length_nil, Nat.zero_add, ← Cursor.advance_add]
      exact htokens

/-- A gap in front of a row of tokens makes no difference. -/
theorem after_gap {token : Token} {tokens : List Token} {gap rest : List Char} (hgap : IsGap gap)
    (hrest : cursor.rest = gap ++ rest)
    (h : Cut mode (cursor.advance gap.length) (token :: tokens) after) :
    Cut mode cursor (token :: tokens) after := by
  cases h with
  | @token _ next _ _ inner behind _ _ hinner hbehind hextent hspelled hends hword hstep htokens =>
    rw [Cursor.advance_rest, hrest, List.drop_left] at hbehind
    refine .token (hgap.append hinner) ?_ ?_ hspelled hends hword hstep ?_
    · rw [hrest, hbehind, List.append_assoc]
    · rw [hextent, ← Cursor.advance_add, List.length_append]
    · rw [← Cursor.advance_add] at htokens
      rw [List.length_append, Nat.add_assoc]
      exact htokens

end Cut

/-! ## The same characters in another text -/

/-- The token, as it stands in another text: as far behind the place `start` as it stands behind
    the offset `base` in its own. -/
def Token.movedTo (base : Nat) (start : Cursor) (token : Token) : Token :=
  { token with extent := (start.advance (token.extent.start - base)).extent token.text.length }

/-- **The same characters are cut in the same way elsewhere**, if whatever follows goes on with no
    lexeme with which what followed before did not. -/
theorem Cut.moved {mode : Mode} {cursor after : Cursor} {tokens : List Token}
    (h : Cut mode cursor tokens after) :
    ∃ consumed, cursor.rest = consumed ++ after.rest ∧
      ∀ (start : Cursor) (tail : List Char), start.rest = consumed ++ tail →
        (∀ lexeme : Lexeme, lexeme.Ends after.rest → lexeme.Ends tail) →
        Cut mode start (tokens.map (Token.movedTo cursor.offset start))
          (start.advance consumed.length) := by
  induction h with
  | nil mode cursor => exact ⟨[], rfl, fun start _ _ _ => .nil mode start⟩
  | @token mode next cursor after gap rest token tokens hgap hrest hextent hspelled hends hword
      hstep htokens ih =>
    obtain ⟨hstart, hstop, hlength, hbehind⟩ := token_place hrest hextent
    obtain ⟨consumed, hconsumed, hmoved⟩ := ih
    rw [hbehind] at hconsumed
    refine ⟨gap ++ (token.text ++ consumed), ?_, fun start tail hother htail => ?_⟩
    · rw [hrest, hconsumed]
      simp only [List.append_assoc]
    · have hotherRest : start.rest = gap ++ (token.text ++ (consumed ++ tail)) := by
        rw [hother]
        simp only [List.append_assoc]
      have hrow : tokens.map (Token.movedTo cursor.offset start) =
          tokens.map (Token.movedTo (cursor.advance (gap.length + token.text.length)).offset
            (start.advance (gap.length + token.text.length))) := by
        refine List.map_congr_left fun other hmem => ?_
        have hle := htokens.le_start other hmem
        rw [Token.movedTo, Token.movedTo, ← Cursor.advance_add]
        congr 3
        omega
      have hdistance : token.extent.start - cursor.offset = gap.length := by omega
      have hlast : token.lexeme.Ends (consumed ++ tail) := by
        cases consumed with
        | nil => exact htail token.lexeme (hends.congr (congrArg List.head? hconsumed))
        | cons c more =>
          refine hends.congr ?_
          rw [hconsumed, List.cons_append, List.cons_append, List.head?_cons, List.head?_cons]
      have htokensMoved := hmoved (start.advance (gap.length + token.text.length)) tail
        (by rw [Cursor.advance_rest, hotherRest, ← List.append_assoc, ← List.length_append,
          List.drop_left]) htail
      have hfar : start.advance (gap ++ (token.text ++ consumed)).length =
          (start.advance (gap.length + token.text.length)).advance consumed.length := by
        rw [List.length_append, List.length_append, ← Nat.add_assoc, Cursor.advance_add]
      rw [List.map_cons, hrow, hfar]
      have hspelledMoved : (token.movedTo cursor.offset start).lexeme.IsSpelled := hspelled
      refine .token hgap hotherRest ?_ hspelledMoved hlast hword hstep ?_
      · rw [Token.movedTo, hdistance]
      · exact htokensMoved

/-! ## Slices -/

/-- The characters of a text in an extent. -/
def slice (text : List Char) (extent : Extent) : List Char :=
  (text.drop extent.start).take (extent.stop - extent.start)

/-- The slice of an extent is cut into tokens with the lexemes of the row wherever it stands, if
    nothing behind it goes on with a lexeme. -/
def Recuts (text : List Char) (extent : Extent) (mode : Mode) (row : List Token) : Prop :=
  ∀ (start : Cursor) (tail : List Char), start.rest = slice text extent ++ tail →
    (∀ lexeme : Lexeme, lexeme.Ends tail) →
    ∃ f : Token → Token, (∀ token, (f token).lexeme = token.lexeme) ∧
      Cut mode start (row.map f) (start.advance (slice text extent).length)

/-- **A row of tokens can be cut out of its text.**  It stands where its first token starts, and the
    characters from there to the end of its last token are cut like that elsewhere. -/
theorem Cut.exists_slice {text : List Char} {first mode : Mode} {before row behind : List Token}
    {after : Cursor} (h : Cut first (.start text) (before ++ (row ++ behind)) after)
    (hmode : first.after? before = some mode) (hrow : row ≠ []) :
    ∃ extent, rowExtent row = some extent ∧ extent.line = lineAt text extent.start ∧
      extent.column = columnAt text extent.start ∧ Recuts text extent mode row := by
  -- The row on its own, from its first token on.
  obtain ⟨place, hbefore, hbehind⟩ := h.split hmode
  obtain ⟨next, hnext⟩ := hbehind.exists_mode
  rw [Mode.after?_append] at hnext
  obtain ⟨last, hlast, -⟩ := Option.bind_eq_some_iff.mp hnext
  obtain ⟨there, hall, -⟩ := hbehind.split hlast
  obtain ⟨token, rest, rfl⟩ := List.exists_cons_of_ne_nil hrow
  obtain ⟨n, hstart, hcut⟩ := hall.from_first
  obtain ⟨k, -, rfl⟩ := hbefore.exists_advance
  have hplace := ((Cursor.start_isIn text).advance k).advance n
  generalize ((Cursor.start text).advance k).advance n = here at hstart hcut hplace
  -- What it takes up is the slice.
  obtain ⟨m, hm, rfl⟩ := hcut.exists_advance
  obtain ⟨consumed, hconsumed, hmoved⟩ := hcut.moved
  have hstop : (rest.getLastD token).extent.stop = here.offset + m := by
    rw [← Cursor.advance_offset hm]
    exact hcut.stop_eq (by rw [List.getLast?_cons, List.getLastD_eq_getLast?])
  have hlength : consumed.length = m := by
    have hsum := congrArg List.length hconsumed
    rw [List.length_append, Cursor.advance_rest, List.length_drop] at hsum
    omega
  have hslice : slice text (token.extent.through (rest.getLastD token).extent) = consumed := by
    rw [slice, Extent.through, hstop, ← hstart, Nat.add_sub_cancel_left, ← hplace.rest, hconsumed,
      ← hlength, List.take_left]
  have hfirst := hcut.isIn hplace token List.mem_cons_self
  refine ⟨_, rfl, hfirst.line, hfirst.column, fun start tail hrest hends => ?_⟩
  rw [hslice] at hrest ⊢
  exact ⟨Token.movedTo here.offset start, fun _ => rfl,
    hmoved start tail hrest fun lexeme _ => hends lexeme⟩

end BellaLang
