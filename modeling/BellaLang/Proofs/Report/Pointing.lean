import BellaLang.Proofs.Grammar.Occurrences
import BellaLang.Proofs.Report.Retention
import BellaLang.Proofs.Text.Lines
import BellaLang.Report.Reading

/-!
Excerpts point at what they are about.

A span knows its line and its column, since the text was read with a cursor that counts them.  An
excerpt does not look at them: it finds the row and the column from the offset alone, in the text as
the index holds it.  For a text without carriage returns the two agree.

  1. Every span that comes of reading a text starts at a character of it, and has the line and the
     column of this character: the spans of nodes, as they start with a token
     (`startsIn_of_within`), and those of faults, also where the text ends too early
  (`startsIn_of_readFrom`). 2. The row that is found for such a span is the line of its start, and
     at least one character of it is left to point at (`pointsAt_of_startsIn`).

Main statement: `quote_agrees_with_span`.
-/

namespace BellaLang

open BellaLang.Text

/-! ## Where spans start -/

/-- The extent starts at a character of the text, and its line and column are those of its start. -/
structure Extent.StartsIn (extent : Extent) (text : List Char) : Prop where
  lt : extent.start < text.length
  line : extent.line = lineAt text extent.start
  column : extent.column = columnAt text extent.start

section

variable {text : List Char}

theorem Cursor.IsIn.startsIn {cursor : Cursor} (h : cursor.IsIn text) (hrest : cursor.rest ≠ [])
    (n : Nat) : (cursor.extent n).StartsIn text where
  lt := by
    refine Nat.lt_of_not_le fun hle => hrest ?_
    rw [h.rest, List.drop_eq_nil_iff]
    exact hle
  line := congrArg Nat.cast h.line
  column := congrArg Nat.cast h.column

theorem Token.IsIn.startsIn {token : Token} (h : token.IsIn text) (htext : token.text ≠ []) :
    token.extent.StartsIn text where
  lt := by
    refine Nat.lt_of_not_le fun hle => htext ?_
    rw [h.slice, List.drop_eq_nil_of_le hle, List.take_nil]
  line := h.line
  column := h.column

/-- A row of tokens starts where its first token does. -/
theorem startsIn_of_rowExtent {row : List Token} {extent : Extent}
    (h : rowExtent row = some extent) (hrow : ∀ token ∈ row, token.extent.StartsIn text) :
    extent.StartsIn text := by
  cases row with
  | nil => cases h
  | cons first rest =>
    obtain rfl := Option.some.inj h
    obtain ⟨hlt, hline, hcolumn⟩ := hrow first List.mem_cons_self
    exact ⟨hlt, hline, hcolumn⟩

end

/-- The span of a node starts in the text that the node is read from. -/
theorem startsIn_of_within {source text : String} {program : Program}
    (h : Program.ofText source text = .ok program) {node : Node}
    (hnode : Node.Within (.program program.block) node) {span : Span}
    (hspan : node.site = some span) :
    span.source = source ∧ span.extent.StartsIn text.toList := by
  obtain ⟨d, hread, rfl⟩ := Program.ofText_eq_ok_iff.mp h
  obtain ⟨hgrammatical, hsymbol, after, hcut, -⟩ := readText_eq_ok_iff.mp hread
  obtain ⟨before, owner, behind, hoccurs, howns⟩ :=
    hgrammatical.exists_owner_of_within hsymbol hnode
  rw [howns.site_eq (hoccurs.isGrammatical hgrammatical)] at hspan
  obtain ⟨extent, hextent, rfl⟩ := Option.map_eq_some_iff.mp hspan
  refine ⟨rfl, startsIn_of_rowExtent hextent fun token htoken => ?_⟩
  have hmem : token ∈ d.tokens := by
    rw [hoccurs.tokens_eq]
    exact List.mem_append_right _ (List.mem_append_left _ htoken)
  exact (hcut.isIn (Cursor.start_isIn _) token hmem).startsIn
    ((hcut.isSpelled token hmem).text_ne_nil (Lexeme.ends_nil _))

/-! ## Where faults are -/

/-- Whatever comes next starts in the text. -/
def Scanned.StartsIn (text : List Char) : Scanned → Prop
  | .token found after => found.extent.StartsIn text ∧ after.IsIn text
  | .misplaced found => found.extent.StartsIn text
  | .unknown _ extent => extent.StartsIn text
  | .endOfText => True

theorem Cursor.IsIn.next {cursor : Cursor} {text : List Char} (h : cursor.IsIn text)
    {accepted : Terminal → Bool} {scanned : Scanned} (hnext : cursor.next accepted = scanned) :
    scanned.StartsIn text := by
  have hhere := h.advance (ignored cursor.rest)
  have hlexeme {accepted : Terminal → Bool} {token : Token} {after : Cursor}
      (hrest : (cursor.advance (ignored cursor.rest)).rest ≠ [])
      (hfound : (cursor.advance (ignored cursor.rest)).lexeme? accepted = some (token, after)) :
      token.extent.StartsIn text ∧ after.IsIn text := by
    obtain ⟨⟨t, n⟩, -, hsame⟩ := Option.map_eq_some_iff.mp hfound
    obtain ⟨rfl, rfl⟩ := Prod.mk.inj hsame
    exact ⟨hhere.startsIn hrest n, hhere.advance n⟩
  rw [← hnext]
  unfold Cursor.next
  dsimp only
  split
  · trivial
  · rename_i c others hrest
    have hne := hrest ▸ List.cons_ne_nil c others
    split
    · rename_i token after hfound
      exact hlexeme hne hfound
    · split
      · rename_i token after hfound
        exact (hlexeme hne hfound).1
      · exact hhere.startsIn hne 1

/-- The fault starts in the text, if it has a place at all. -/
def SyntaxFault.StartsIn (text : List Char) : SyntaxFault → Prop
  | .unexpected token _ => token.extent.StartsIn text
  | .unknown _ extent => extent.StartsIn text
  | .unfinished => True

/-- The end of a text is placed at its last token. -/
theorem endToken_startsIn {text : List Char} {last : Token} (h : last.extent.StartsIn text) :
    (endToken (some last)).extent.StartsIn text := ⟨h.lt, h.line, h.column⟩

/-- A text without tokens is a program, so where the end of a text is refused there is a last
    token. -/
theorem exists_last_of_end {stack : Stack} {last : Option Token} (hstack : last = none → stack = [])
    (hfeed : ∀ d, feed (endToken last) stack ≠ .finished d) : ∃ token, last = some token := by
  cases last with
  | some token => exact ⟨token, rfl⟩
  | none =>
    have hempty : readTokens [] [] = some (.ofRule .emptyProgram []) := readTokens_finish rfl rfl
    rw [readTokens] at hempty
    rw [hstack rfl] at hfeed
    split at hempty
    · rename_i d hfinished
      exact absurd hfinished (hfeed d)
    · cases hempty
    · cases hempty

/-- **A fault is placed in the text**, wherever reading comes to it. -/
theorem startsIn_of_readFrom {text : List Char} {stack : Stack} {last : Option Token}
    {cursor : Cursor} {fault : SyntaxFault} (h : readFrom stack last cursor = .error fault)
    (hcursor : cursor.IsIn text) (hlast : ∀ token ∈ last, token.extent.StartsIn text)
    (hstack : last = none → stack = []) : fault.StartsIn text := by
  fun_induction readFrom stack last cursor with
  | case1 stack last cursor token hnext =>
    have hplace := hcursor.next hnext
    cases h
    exact hplace
  | case2 stack last cursor c found hnext =>
    have hplace := hcursor.next hnext
    cases h
    exact hplace
  | case3 => cases h
  | case4 stack last cursor hnext s hfeed =>
    obtain ⟨token, rfl⟩ := exists_last_of_end hstack fun d hd => by cases hfeed.symm.trans hd
    cases h
    exact endToken_startsIn (hlast token rfl)
  | case5 stack last cursor hnext shifted hfeed =>
    obtain ⟨token, rfl⟩ := exists_last_of_end hstack fun d hd => by cases hfeed.symm.trans hd
    cases h
    exact endToken_startsIn (hlast token rfl)
  | case6 stack last cursor token after hnext shifted hfeed ih =>
    have hplace := hcursor.next hnext
    refine ih h hplace.2 ?_ ?_
    · rintro other ⟨⟩
      exact hplace.1
    · intro hnone
      cases hnone
  | case7 stack last cursor token after hnext s hfeed =>
    have hplace := hcursor.next hnext
    cases h
    exact hplace.1
  | case8 stack last cursor token after hnext d hfeed =>
    have hplace := hcursor.next hnext
    cases h
    exact hplace.1

/-- The fault in a text is placed in it. -/
theorem startsIn_of_ofText {source text : String} {fault : SyntaxFault}
    (h : Program.ofText source text = .error fault) : fault.StartsIn text.toList := by
  have hread : readText text = .error fault := Program.ofText_eq_error_iff.mp h
  exact startsIn_of_readFrom hread (Cursor.start_isIn _) nofun fun _ => rfl

/-! ## Spans that come of a text -/

/-- The span is that of a node that is read from the text, or of what is wrong with it. -/
inductive IsSpanOf (source text : String) : Span → Prop
  | node {program : Program} {node : Node} {span : Span}
      (h : Program.ofText source text = .ok program)
      (hnode : Node.Within (.program program.block) node) (hspan : node.site = some span) :
      IsSpanOf source text span
  | fault {fault : SyntaxFault} {note : Annotation}
      (h : Program.ofText source text = .error fault)
      (hnote : note ∈ (Issue.syntaxFault source fault).annotations) :
      IsSpanOf source text note.span

theorem IsSpanOf.startsIn {source text : String} {span : Span} (h : IsSpanOf source text span) :
    span.source = source ∧ span.extent.StartsIn text.toList := by
  cases h with
  | node h hnode hspan => exact startsIn_of_within h hnode hspan
  | @fault fault note h hnote =>
    have hstarts := startsIn_of_ofText h
    cases fault with
    | unexpected token expected =>
      obtain rfl := List.mem_singleton.mp hnote
      exact ⟨rfl, hstarts⟩
    | unknown c extent =>
      obtain rfl := List.mem_singleton.mp hnote
      exact ⟨rfl, hstarts⟩
    | unfinished => cases hnote

/-! ## What is shown -/

/-- The margin of an excerpt: the number of the row in decimal digits, which end in the sixth column
    or further to the right, with at least one blank in front, and behind them a blank and a bar. -/
def numberedMargin (number : Nat) : List Char :=
  let digits := Nat.toDigits 10 number
  List.replicate (max 1 (6 - digits.length)) ' ' ++ digits ++ [' ', '|']

example : numberedMargin 27 = "    27 |".toList ∧ numberedMargin 1234567 = " 1234567 |".toList := by
  decide

/-- The number of a row is padded to its margin. -/
theorem padNumber_eq_numberedMargin (number : Nat) :
    padNumber 6 number ++ [' ', '|'] = numberedMargin number := by
  have hdigits : (toString (number : Int)).toList = Nat.toDigits 10 number := by
    have hnatural : toString (number : Int) = toString number := rfl
    rw [hnatural, Nat.toString_eq_repr, Nat.toList_repr]
  have hsign : ¬ (number : Int) < 0 := Int.not_lt.mpr (Int.natCast_nonneg number)
  have hblanks : max 1 (6 - (Nat.toDigits 10 number).length) =
      6 - ((Nat.toDigits 10 number).length + 1) + 1 := by omega
  unfold padNumber numberedMargin
  dsimp only
  rw [hdigits, if_neg hsign, List.length_cons, hblanks, List.replicate_succ']
  simp only [List.append_assoc, List.singleton_append]

/-- The row without the blanks at its end. -/
def IsTrimmedTo (row visible : List Char) : Prop :=
  ∃ blanks, row = visible ++ blanks ∧ (∀ c ∈ blanks, isBlank c = true) ∧
    ∀ c ∈ visible.getLast?, isBlank c = false

theorem isTrimmedTo_trimEnd (row : List Char) : IsTrimmedTo row (trimEnd row) := by
  have hsplit := List.takeWhile_append_dropWhile (p := isBlank) (l := row.reverse)
  refine ⟨(row.reverse.takeWhile isBlank).reverse, ?_, fun c hc => ?_, fun c hc => ?_⟩
  · rw [trimEnd, ← List.reverse_append, hsplit, List.reverse_reverse]
  · exact List.all_eq_true.mp List.all_takeWhile c (List.mem_reverse.mp hc)
  · rw [trimEnd, List.getLast?_reverse] at hc
    have hhead := List.head?_dropWhile_not isBlank row.reverse
    rw [Option.mem_def.mp hc] at hhead
    exact hhead

/-- As much blank space as a text takes up, with its tabs. -/
def blankedOut (text : List Char) : List Char := text.map fun c => if c = '\t' then '\t' else ' '

/-- What is shown is a line behind its number, and below it some carets, as far to the right as a
    column of the line is.  They are as many as the extent is long, but at least one, and they do
    not go beyond the line and its line feed. -/
def PointsAt (number : Nat) (row : List Char) (column : Nat) (extent : Extent)
    (caption shown : String) : Prop :=
  ∃ visible carets, IsTrimmedTo row visible ∧ 0 < carets ∧ column + carets ≤ row.length ∧
    carets = max 1 (min (extent.stop - extent.start) (row.length - column)) ∧
    shown = String.ofList (numberedMargin number ++ visible ++ '\n' ::
      blankedOut (numberedMargin number ++ row.take column) ++ List.replicate carets '^' ++
      [' ']) ++ caption

theorem pointsAt_of_startsIn {text : List Char} (hreturn : '\r' ∉ text) {extent : Extent}
    (h : extent.StartsIn text) :
    ∃ before own behind, IsLineAt text extent.start before own behind ∧
      ∀ caption, PointsAt (before.count '\n' + 1) own (extent.start - before.length) extent caption
        (excerpt text extent.start (extent.stop - extent.start) caption) := by
  obtain ⟨before, own, behind, hline, hplace⟩ := exists_line hreturn h.lt 1
  have hlt := hline.lt
  have hle := hline.le
  refine ⟨before, own, behind, hline, fun caption =>
    ⟨trimEnd own, _, isTrimmedTo_trimEnd own, by omega, by omega, rfl, ?_⟩⟩
  rw [excerpt, place, hplace, Nat.add_comm]
  dsimp only
  rw [padNumber_eq_numberedMargin]
  rfl

/-- **Excerpts and spans agree.**  A span that comes of a text without carriage returns is about a
    character of the text, and says on which line it stands and at which column.  An excerpt from
    the text shows this line behind this number, and points at this column; and if the text is not
    in the index any more, the same number is given. -/
theorem quote_agrees_with_span {source text : String} (hreturn : '\r' ∉ text.toList) {span : Span}
    (hspan : IsSpanOf source text span) :
    span.source = source ∧
    ∃ before own behind, IsLineAt text.toList span.extent.start before own behind ∧
      span.extent.line = (before.count '\n' + 1 : Nat) ∧
      span.extent.column = (span.extent.start - before.length + 1 : Nat) ∧
      own[span.extent.start - before.length]? = text.toList[span.extent.start]? ∧
      ∀ (index : SourceIndex) (caption : String),
        (index.text? source = some text → PointsAt (before.count '\n' + 1) own
          (span.extent.start - before.length) span.extent caption (index.quote span caption)) ∧
        (index.text? source = none → index.quote span caption =
          String.ofList (numberedMargin (before.count '\n' + 1)) ++ " (source unavailable) " ++
            caption) := by
  obtain ⟨rfl, hstarts⟩ := hspan.startsIn
  obtain ⟨before, own, behind, hline, hpoints⟩ := pointsAt_of_startsIn hreturn hstarts
  have hnumber : span.extent.line = (before.count '\n' + 1 : Nat) := by
    rw [hstarts.line, hline.lineAt_eq]
  refine ⟨rfl, before, own, behind, hline, hnumber, ?_, hline.getElem?_eq, fun index caption =>
    ⟨fun htext => ?_, fun hnone => ?_⟩⟩
  · rw [hstarts.column, hline.columnAt_eq]
  · rw [SourceIndex.quote, htext]
    exact hpoints caption
  · have hbar : " | (source unavailable) " = String.ofList [' ', '|'] ++ " (source unavailable) " :=
      rfl
    rw [SourceIndex.quote, hnone]
    dsimp only
    rw [hbar, hnumber, ← padNumber_eq_numberedMargin, String.ofList_append]
    simp only [String.append_assoc]

/-- A parenthesis that is not closed, on the second of two lines: the end of the text is refused,
    and what is pointed at is the last token. -/
theorem quote_agrees_with_span_unclosed :
    let text := "let x = 1;\n\tprint (x\n"
    let span : Span := ⟨"here", ⟨2, 9, 19, 19⟩⟩
    '\r' ∉ text.toList ∧ IsSpanOf "here" text span ∧
      ∃ before own behind, IsLineAt text.toList 19 before own behind ∧
        ∀ caption, PointsAt (before.count '\n' + 1) own (19 - before.length) span.extent caption
          ((SourceIndex.empty.register "here" text).quote span caption) := by
  intro text span
  have hreturn : '\r' ∉ text.toList := by decide
  have hshown : ((Report.new false).readText .empty "here" text).2.1.issues.flatMap
      (fun issue => issue.annotations.map (·.span)) = [span] := by decide +kernel
  have hspan : IsSpanOf "here" text span := by
    cases hresult : Program.ofText "here" text with
    | ok program =>
      rw [Report.readText_of_ok hresult] at hshown
      cases hshown
    | error fault =>
      rw [Report.readText_of_error hresult] at hshown
      have hspans : (Issue.syntaxFault "here" fault).annotations.map (·.span) = [span] := by
        simpa [Report.add, Report.new] using hshown
      obtain ⟨note, hnote, hsame⟩ :=
        List.mem_map.mp (hspans ▸ List.mem_singleton_self span)
      exact hsame ▸ .fault hresult hnote
  obtain ⟨-, before, own, behind, hline, -, -, -, hquote⟩ :=
    quote_agrees_with_span hreturn hspan
  exact ⟨hreturn, hspan, before, own, behind, hline, fun caption =>
    (hquote _ caption).1 (SourceIndex.text?_register _ _ _)⟩

end BellaLang
