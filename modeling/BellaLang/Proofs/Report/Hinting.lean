import BellaLang.Proofs.Grammar.Faults
import BellaLang.Proofs.Grammar.Slices
import BellaLang.Proofs.Syntax.Deciding

/-!
When the hint about a character is true.

Where nothing matches, a text is refused at a character, and the issue goes on to say that this
character does not begin any word or symbol of the language.  What has been found out is less: that
no word and no symbol *stands* there.  For a bar and for an ampersand the two differ, as each is the
first half of a symbol and no symbol by itself.  For all other characters the hint is true.

  1. What a word or a symbol begins with is by itself one, unless it is one of these two
     (`spelled_alone`), and with these two only their doubles begin (`spelled_doubled`).
  2. So nothing stands at the front of a text if nothing begins with its first character, or if this
     is a half without its other half, and in no other case (`nothingStands_iff`).
  3. The hint is given for unknown characters only (`exists_unknown_of_hint`), and at such a one
     nothing stands (`nothingStands_of_readText`).

Main statement: `hint_false_iff_half`.
-/

namespace BellaLang

open BellaLang.Number BellaLang.Text

/-! ## Beginnings -/

/-- A word or a symbol of the language, or something that is ignored, begins with the character. -/
def IsBeginning (c : Char) : Prop :=
  ∃ more, (∃ t : Terminal, Lexeme.IsSpelled ⟨t, c :: more⟩) ∨ IsIgnorable (c :: more)

/-- No word and no symbol stands at the front of the text, nor anything that is ignored. -/
def NothingStands (text : List Char) : Prop :=
  ∀ piece behind, text = piece ++ behind →
    (∀ t : Terminal, ¬Lexeme.IsSpelled ⟨t, piece⟩) ∧ ¬IsIgnorable piece

/-- The characters that are symbols only if they are doubled. -/
def doubled : List Char := ['|', '&']

/-- The character is one half of a symbol, and what follows is not the other half. -/
def IsHalf (c : Char) (rest : List Char) : Prop := c ∈ doubled ∧ rest.head? ≠ some c

/-! ## Characters by themselves -/

/-- A digit is a numeral. -/
theorem spelled_digit {c : Char} (h : isDigit c = true) : Lexeme.IsSpelled ⟨.numeral, [c]⟩ := by
  obtain ⟨value, hvalue⟩ := Option.isSome_iff_exists.mp h
  have htake : takeDigits [c] = ([value], []) := by
    rw [takeDigits, hvalue]
    rfl
  show ∃ n, readNumeral [c] = some (n, [])
  rw [readNumeral, htake]
  exact ⟨_, rfl⟩

/-- A character that a name can begin with is a name. -/
theorem spelled_letter {c : Char} (h : beginsName c = true) : Lexeme.IsSpelled ⟨.name, [c]⟩ := by
  constructor
  · exact List.cons_ne_nil c []
  · show nameLength [c] = 1
    rw [nameLength, if_pos h]
    rfl

/-- A character that is all of some terminal's spelling. -/
theorem spelled_mark {c : Char} (h : ∃ u ∈ scanOrder, u.spelling = [c]) :
    ∃ u : Terminal, Lexeme.IsSpelled ⟨u, [c]⟩ := by
  obtain ⟨u, -, hspelling⟩ := h
  have hmark : u.isMark = true := by
    rw [Terminal.isMark, hspelling]
    rfl
  exact ⟨u, (isSpelled_mark hmark).mpr hspelling.symm⟩

/-- **What a word or a symbol begins with is by itself one**, two characters apart. -/
theorem spelled_alone {t : Terminal} {c : Char} {more : List Char}
    (h : Lexeme.IsSpelled ⟨t, c :: more⟩) :
    (∃ u : Terminal, Lexeme.IsSpelled ⟨u, [c]⟩) ∨ c ∈ doubled := by
  obtain ⟨u, hu, hspelled, -, -⟩ := h.scanned (Lexeme.ends_nil _)
  rcases scanned_cases hu with rfl | rfl | rfl | hmark
  · left
    refine ⟨.numeral, spelled_digit ?_⟩
    by_contra hdigit
    have hnone := numeral_matchLength_cons (Bool.eq_false_iff.mpr hdigit) more
    have hlength := matchLength_of_spelled hu hspelled (Lexeme.ends_nil _)
    rw [List.append_nil, hnone] at hlength
    cases hlength
  · left
    exact ⟨.name, spelled_letter (IsWord.cons hspelled).1⟩
  · left
    have hheads : ∀ relation ∈ relations, ∀ d ∈ relation.head?,
        [d] ∈ relations ∨ ∃ v ∈ scanOrder, v.spelling = [d] := forall_head_of_check (by decide)
    rcases hheads _ hspelled c rfl with hrelation | halone
    · exact ⟨.relop, hrelation⟩
    · exact spelled_mark halone
  · have hheads : ∀ v ∈ scanOrder, ∀ d ∈ v.spelling.head?,
        (∃ w ∈ scanOrder, w.spelling = [d]) ∨ d ∈ doubled := forall_head_of_check (by decide)
    have htext : c :: more = u.spelling := (isSpelled_mark hmark).mp hspelled
    have hhead : u.spelling.head? = some c := by
      rw [← htext]
      rfl
    exact (hheads u hu c hhead).imp_left spelled_mark

theorem mem_doubled {c : Char} : c ∈ doubled ↔ c = '|' ∨ c = '&' := by
  rw [doubled, List.mem_pair]

/-- These two begin nothing else: no numeral, no name, and nothing that is ignored. -/
theorem doubled_plain {c : Char} (hc : c ∈ doubled) :
    isDigit c = false ∧ beginsName c = false ∧ isSpace c = false ∧ c ≠ '/' := by
  rcases mem_doubled.mp hc with rfl | rfl
  · decide
  · decide

/-- With one of these two only its double begins. -/
theorem spelled_doubled {t : Terminal} {c : Char} {more : List Char}
    (h : Lexeme.IsSpelled ⟨t, c :: more⟩) (hc : c ∈ doubled) : more = [c] := by
  obtain ⟨hdigit, hletter, -, -⟩ := doubled_plain hc
  obtain ⟨u, hu, hspelled, -, -⟩ := h.scanned (Lexeme.ends_nil _)
  rcases scanned_cases hu with rfl | rfl | rfl | hmark
  · have hnone := numeral_matchLength_cons hdigit more
    have hlength := matchLength_of_spelled hu hspelled (Lexeme.ends_nil _)
    rw [List.append_nil, hnone] at hlength
    cases hlength
  · have hbegins := (IsWord.cons hspelled).1
    rw [hletter] at hbegins
    cases hbegins
  · have hheads : ∀ relation ∈ relations, ∀ d ∈ relation.head?, d ∉ doubled :=
      forall_head_of_check (by decide)
    exact absurd hc (hheads _ hspelled c rfl)
  · have hheads : ∀ v ∈ scanOrder, ∀ d ∈ v.spelling.head?, d ∈ doubled → v.spelling = [d, d] :=
      forall_head_of_check (by decide)
    have htext : c :: more = u.spelling := (isSpelled_mark hmark).mp hspelled
    have hhead : u.spelling.head? = some c := by
      rw [← htext]
      rfl
    have hdouble := htext.trans (hheads u hu c hhead hc)
    exact (List.cons.inj hdouble).2

/-- Each of the two is a symbol if it is doubled. -/
theorem spelled_double {c : Char} (hc : c ∈ doubled) :
    ∃ t : Terminal, Lexeme.IsSpelled ⟨t, [c, c]⟩ := by
  rcases mem_doubled.mp hc with rfl | rfl
  · exact ⟨.or, rfl⟩
  · exact ⟨.and, rfl⟩

theorem isBeginning_of_doubled {c : Char} (hc : c ∈ doubled) : IsBeginning c :=
  ⟨[c], .inl (spelled_double hc)⟩

/-- What something ignored begins with stands by itself, as a space or as a division. -/
theorem IsIgnorable.alone {c : Char} {more : List Char} (h : IsIgnorable (c :: more)) :
    IsIgnorable [c] ∨ Lexeme.IsSpelled ⟨.slash, [c]⟩ := by
  cases h with
  | space c more hspace =>
    left
    refine .space c [] ?_
    intro d hd
    obtain rfl := List.mem_singleton.mp hd
    exact hspace d List.mem_cons_self
  | comment body hbody =>
    right
    rfl

/-! ## What stands at the front -/

/-- **Nothing stands at the front of a text** exactly if nothing begins with its first character, or
    if this is a half without its other half. -/
theorem nothingStands_iff (c : Char) (rest : List Char) :
    NothingStands (c :: rest) ↔ ¬IsBeginning c ∨ IsHalf c rest := by
  constructor
  · intro hnothing
    by_cases hbegins : IsBeginning c
    · right
      -- By itself the character is nothing, so it is one of the two.
      obtain ⟨hspelled, hignorable⟩ := hnothing [c] rest rfl
      have hc : c ∈ doubled := by
        obtain ⟨more, ⟨t, ht⟩ | hmore⟩ := hbegins
        · rcases spelled_alone ht with ⟨u, hu⟩ | hc
          · exact absurd hu (hspelled u)
          · exact hc
        · rcases hmore.alone with hspace | hslash
          · exact absurd hspace hignorable
          · exact absurd hslash (hspelled .slash)
      refine ⟨hc, ?_⟩
      intro hhead
      obtain ⟨tail, rfl⟩ := List.head?_eq_some_iff.mp hhead
      obtain ⟨t, ht⟩ := spelled_double hc
      exact (hnothing [c, c] tail rfl).1 t ht
    · exact .inl hbegins
  · intro h piece behind hpiece
    -- A piece that is something is not empty, and begins with the character.
    have hfirst (hne : piece ≠ []) : ∃ more, piece = c :: more ∧ rest = more ++ behind := by
      obtain ⟨d, more, rfl⟩ := List.exists_cons_of_ne_nil hne
      obtain ⟨rfl, hrest⟩ := List.cons.inj hpiece
      exact ⟨more, rfl, hrest⟩
    constructor
    · intro t ht
      obtain ⟨more, rfl, hrest⟩ := hfirst (ht.text_ne_nil (Lexeme.ends_nil _))
      rcases h with hnone | ⟨hc, hhead⟩
      · exact hnone ⟨more, .inl ⟨t, ht⟩⟩
      · obtain rfl := spelled_doubled ht hc
        rw [hrest] at hhead
        exact hhead rfl
    · intro hignorable
      have hne : piece ≠ [] := by
        rintro rfl
        cases hignorable
      obtain ⟨more, rfl, -⟩ := hfirst hne
      rcases h with hnone | ⟨hc, -⟩
      · exact hnone ⟨more, .inr hignorable⟩
      · obtain ⟨-, -, hspace, hslash⟩ := doubled_plain hc
        have hpos := hignorable.ignored_pos []
        rw [List.append_nil, ignored_cons hspace hslash] at hpos
        exact Nat.lt_irrefl 0 hpos

/-! ## Unknown characters -/

/-- The place behind a row of tokens lies in the same text. -/
theorem Lies.isIn {cursor place : Cursor} {tokens : List Token} (h : Lies cursor tokens place)
    {text : List Char} (hcursor : cursor.IsIn text) : place.IsIn text := by
  induction h with
  | nil cursor => exact hcursor
  | token hmeets hstands htokens ih =>
    obtain ⟨gap, -, -, rfl⟩ := hmeets
    exact ih ((hcursor.advance _).advance _)

/-- At a character that is reported as unknown, nothing stands in the text. -/
theorem nothingStands_of_readText {text : String} {c : Char} {extent : Extent}
    (h : readText text = .error (.unknown c extent)) :
    ∃ rest, text.toList.drop extent.start = c :: rest ∧ NothingStands (c :: rest) := by
  obtain ⟨-, place, hlies, hdue⟩ := comesTo_of_readFrom h .empty (by decide +kernel) fun _ => rfl
  cases hdue with
  | @character here c rest hmeets hrest hterminal hignorable =>
    obtain ⟨gap, -, -, rfl⟩ := hmeets
    have hplace := (hlies.isIn (Cursor.start_isIn _)).advance gap.length
    refine ⟨rest, ?_, ?_⟩
    · rw [← hrest]
      exact hplace.rest.symm
    · intro piece behind hpiece
      rw [hrest] at hterminal hignorable
      exact ⟨hterminal piece behind hpiece, hignorable piece behind hpiece⟩

/-! ## The hint -/

/-- What the issue with an unknown character goes on to say. -/
def unknownHint : String := "That character does not begin any word or symbol of the language."

/-- The hint is given for unknown characters only. -/
theorem exists_unknown_of_hint {source : String} {fault : SyntaxFault}
    (h : (Issue.syntaxFault source fault).footer = [unknownHint]) :
    ∃ c extent, fault = .unknown c extent := by
  cases fault with
  | unexpected token expected =>
    -- The two hints differ in their first character.
    have hhint : "Expected one of: " ++ ", ".intercalate (sortedLabels expected) = unknownHint :=
      List.singleton_inj.mp h
    have hhead : some 'E' = unknownHint.toList.head? := by
      rw [← hhint, String.toList_append]
      rfl
    exact absurd hhead (by decide)
  | unknown c extent => exact ⟨c, extent, rfl⟩
  | unfinished =>
    have hhint : "The program seems to stop in the middle of something." = unknownHint :=
      List.singleton_inj.mp h
    exact absurd hhint (by decide)

/-- **The hint is false exactly for a half without its other half.**  If reading a text ends with an
    issue that gives the hint, this is the issue with some character of the text, and no word or
    symbol stands there.  But a word or a symbol begins with this character if it is a bar or an
    ampersand that is not doubled; if it is any other character, none does. -/
theorem hint_false_iff_half (report : Report) (index : SourceIndex) (source text : String)
    {issue : Issue}
    (hissue : (report.readText index source text).2.1.issues = report.issues ++ [issue])
    (hhint : issue.footer = [unknownHint]) :
    ∃ c extent rest, issue = .syntaxFault source (.unknown c extent) ∧
      text.toList.drop extent.start = c :: rest ∧ NothingStands (c :: rest) ∧
      (IsBeginning c ↔ IsHalf c rest) := by
  cases hresult : Program.ofText source text with
  | ok program =>
    rw [Report.readText_of_ok hresult] at hissue
    have hlength := congrArg List.length hissue
    rw [List.length_append, List.length_singleton] at hlength
    dsimp only at hlength
    omega
  | error fault =>
    rw [Report.readText_of_error hresult] at hissue
    have hsame : [Issue.syntaxFault source fault] = [issue] := List.append_cancel_left hissue
    obtain rfl := List.singleton_inj.mp hsame
    obtain ⟨c, extent, rfl⟩ := exists_unknown_of_hint hhint
    obtain ⟨rest, hrest, hnothing⟩ :=
      nothingStands_of_readText (Program.ofText_eq_error_iff.mp hresult)
    refine ⟨c, extent, rest, rfl, hrest, hnothing, ?_⟩
    constructor
    · intro hbegins
      rcases (nothingStands_iff c rest).mp hnothing with hnone | hhalf
      · exact absurd hbegins hnone
      · exact hhalf
    · intro hhalf
      exact isBeginning_of_doubled hhalf.1

/-- An ampersand that is not doubled, behind one that is: the hint is given, and it is false. -/
theorem hint_false_iff_half_ampersand :
    let text := "print a && b & c;"
    let report := Report.new false
    let issue := Issue.syntaxFault "<input>" (.unknown '&' ⟨1, 14, 13, 14⟩)
    (report.readText .empty "<input>" text).2.1.issues = report.issues ++ [issue] ∧
      issue.footer = [unknownHint] ∧
      ∃ c extent rest, issue = .syntaxFault "<input>" (.unknown c extent) ∧
        text.toList.drop extent.start = c :: rest ∧ NothingStands (c :: rest) ∧
        (IsBeginning c ↔ IsHalf c rest) := by
  intro text report issue
  have hread : Program.ofText "<input>" text = .error (.unknown '&' ⟨1, 14, 13, 14⟩) := by
    decide +kernel
  have hissue : (report.readText .empty "<input>" text).2.1.issues = report.issues ++ [issue] := by
    rw [Report.readText_of_error hread]
    rfl
  exact ⟨hissue, rfl, hint_false_iff_half report .empty "<input>" text hissue rfl⟩

/-- A bar that is not doubled: it is said to begin no symbol, but `||` begins with it. -/
theorem hint_false_of_bar :
    ∃ issue : Issue,
      ((Report.new false).readText .empty "<input>" "print 1 | 2;").2.1.issues = [issue] ∧
      issue.intro = "Bella does not know what to make of '|'." ∧ issue.footer = [unknownHint] ∧
      Lexeme.IsSpelled ⟨.or, ['|', '|']⟩ := by
  have hread : Program.ofText "<input>" "print 1 | 2;" = .error (.unknown '|' ⟨1, 9, 8, 9⟩) := by
    decide +kernel
  refine ⟨.syntaxFault "<input>" (.unknown '|' ⟨1, 9, 8, 9⟩), ?_, by decide, rfl, rfl⟩
  rw [Report.readText_of_error hread]
  rfl

end BellaLang
