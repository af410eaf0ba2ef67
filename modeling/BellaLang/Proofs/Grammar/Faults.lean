import BellaLang.Proofs.Grammar.Taking
import BellaLang.Proofs.Grammar.Viability

/-!
Where a text is refused.

A text that is no program is refused at the first thing in it that cannot be right.  What has been
read by then are the first tokens of some program (`IsViable`), and they lie one after the other in
the text, with gaps between them (`Lies`).  What comes next in the text is the fault, and it says
what it is (`SyntaxFault.IsDue`): a token that no program goes on with, the end of the text where
the program has not ended, or a character that nothing begins with.

  1. What the reader cannot use it does not find, although it tries more than once: a token that is
     misplaced is not acceptable (`not_acceptable_of_misplaced`), and a character that is unknown
     begins nothing (`Cursor.isDue_of_unknown`).
  2. The automaton may close rules before it refuses a token, but that hangs on the terminal alone
     (`feed_shifted_congr`).  So it takes no other token of that terminal either, and since it reads
     every program, no program goes on like this (`not_isViable_of_refuses`).
  3. Token by token the reader comes to the fault (`comesTo_of_readFrom`).
  4. The report quotes the place of the fault, and opens with what stands there
     (`SyntaxFault.isToldBy_of_ofText`).

Main statement: `readText_refuses_first_fault`.
-/

namespace BellaLang

open BellaLang.Number BellaLang.Text

/-! ## Viable rows -/

/-- Some program begins with these terminals. -/
def IsViable (terminals : List Terminal) : Prop :=
  ∃ more, terminals ++ more ∈ programGrammar.language

/-- What a path has read is viable. -/
theorem Stack.IsPath.isViable {stack : Stack} (h : stack.IsPath) :
    IsViable (stack.tokens.map (·.terminal)) := by
  obtain ⟨more, d, hd⟩ := h.viable
  have hprogram := (exists_isProgramOf_iff _).mp ⟨d, hd⟩
  rw [List.map_append] at hprogram
  exact ⟨_, hprogram⟩

/-- If the automaton refuses every token of a terminal after what it has read, no program goes on
    with that terminal. -/
theorem not_isViable_of_refuses {read : List Token} {t : Terminal}
    (h : ∀ (token : Token) (rest : List Token), token.terminal = t →
      readTokens [] (read ++ token :: rest) = none) :
    ¬IsViable (read.map (·.terminal) ++ [t]) := by
  rintro ⟨more, hmore⟩
  -- Tokens are made up for the terminals; only the terminals matter.
  have hrow : (read ++ ⟨t, [], ⟨1, 1, 0, 0⟩⟩ ::
      more.map fun u => (⟨u, [], ⟨1, 1, 0, 0⟩⟩ : Token)).map (·.terminal) =
      read.map (·.terminal) ++ [t] ++ more := by
    simp [Function.comp_def]
  rw [← hrow] at hmore
  obtain ⟨d, hd⟩ := (exists_isProgramOf_iff _).mpr hmore
  have hnone := h ⟨t, [], ⟨1, 1, 0, 0⟩⟩ (more.map fun u => ⟨u, [], ⟨1, 1, 0, 0⟩⟩) rfl
  rw [hd.readTokens_eq] at hnone
  cases hnone

/-- If the automaton makes no program of what it has read, it is none. -/
theorem not_program_of_readTokens {read : List Token} (h : readTokens [] read = none) :
    read.map (·.terminal) ∉ programGrammar.language := by
  intro hprogram
  obtain ⟨d, hd⟩ := (exists_isProgramOf_iff read).mpr hprogram
  rw [hd.readTokens_eq] at h
  cases h

/-! ## What the automaton refuses -/

/-- A token that is not put on top ends the reading, and so does any other of its terminal. -/
theorem readTokens_of_not_shifted {token other : Token} {stack : Stack}
    (hterminal : other.terminal = token.terminal)
    (h : ∀ shifted, feed token stack ≠ .shifted shifted) (rest : List Token) :
    readTokens stack (other :: rest) = none := by
  rw [readTokens]
  split
  · rename_i shifted hshifted
    obtain ⟨after, hafter⟩ := feed_shifted_congr hterminal hshifted
    exact absurd hafter (h after)
  · rfl
  · rfl

/-! ## Places in a text -/

/-- The place `here` comes next, behind a gap. -/
def Cursor.Meets (cursor here : Cursor) : Prop :=
  ∃ gap, IsGap gap ∧ cursor.rest = gap ++ here.rest ∧ here = cursor.advance gap.length

/-- The token is what stands at a place, and it is spelled rightly. -/
structure Token.StandsAt (token : Token) (here : Cursor) : Prop where
  text : ∃ rest, here.rest = token.text ++ rest
  extent : token.extent = here.extent token.text.length
  spelled : token.lexeme.IsSpelled

/-- From a place to another one the text is a row of tokens, with gaps between them. -/
inductive Lies : Cursor → List Token → Cursor → Prop
  | nil (cursor : Cursor) : Lies cursor [] cursor
  | token {cursor here place : Cursor} {token : Token} {tokens : List Token}
      (hmeets : cursor.Meets here) (hstands : token.StandsAt here)
      (htokens : Lies (here.advance token.text.length) tokens place) :
      Lies cursor (token :: tokens) place

/-- What is ignored between tokens: white space, or a comment up to the end of its line. -/
inductive IsIgnorable : List Char → Prop
  | space (c : Char) (more : List Char) (h : ∀ d ∈ c :: more, isSpace d = true) :
      IsIgnorable (c :: more)
  | comment (body : List Char) (h : '\n' ∉ body) : IsIgnorable ('/' :: '/' :: body)

/-- After some tokens have been read up to a place, the fault is what comes next, and there can be
    no program with it. -/
inductive SyntaxFault.IsDue (read : List Token) (place : Cursor) : SyntaxFault → Prop
  /-- A token that no program goes on with. -/
  | token {here : Cursor} {token : Token} {expected : List Terminal} (hmeets : place.Meets here)
      (hstands : token.StandsAt here)
      (hrefused : ¬IsViable (read.map (·.terminal) ++ [token.terminal])) :
      IsDue read place (.unexpected token expected)
  /-- The end of the text, where what has been read is not a program. -/
  | endOfText {token : Token} {expected : List Terminal} (hterminal : token.terminal = .endOfText)
      (hend : place.AtEnd) (hunfinished : read.map (·.terminal) ∉ programGrammar.language) :
      IsDue read place (.unexpected token expected)
  /-- A character that begins neither a terminal nor anything that is ignored. -/
  | character {here : Cursor} {c : Char} {rest : List Char} (hmeets : place.Meets here)
      (hrest : here.rest = c :: rest)
      (hterminal : ∀ piece behind, here.rest = piece ++ behind →
        ∀ t : Terminal, ¬Lexeme.IsSpelled ⟨t, piece⟩)
      (hignorable : ∀ piece behind, here.rest = piece ++ behind → ¬IsIgnorable piece) :
      IsDue read place (.unknown c (here.extent 1))

/-! ## What comes next -/

/-- A token that comes next stands behind a gap. -/
theorem Cursor.meets_of_next {accepted : Terminal → Bool} {cursor after : Cursor} {token : Token}
    (h : cursor.next accepted = .token token after)
    (hpow : accepted .star = true → accepted .pow = true) :
    ∃ here, cursor.Meets here ∧ token.StandsAt here ∧ after = here.advance token.text.length := by
  obtain ⟨gap, rest, hgap, hrest, hextent, rfl, hspelled, -, -⟩ := Cursor.next_token h hpow
  have hhere : (cursor.advance gap.length).rest = token.text ++ rest := by
    rw [advance_rest, hrest, List.drop_left]
  exact ⟨cursor.advance gap.length, ⟨gap, hgap, by rw [hhere, hrest], rfl⟩,
    ⟨⟨rest, hhere⟩, hextent, hspelled⟩, Cursor.advance_add _ _ _⟩

/-- The same for what is acceptable in a state. -/
theorem Cursor.meets_of_next_acceptable {s : State} {cursor after : Cursor} {token : Token}
    (h : (cursor.next fun t => (acceptable s).contains t) = .token token after)
    (hpow : .star ∈ acceptable s → .pow ∈ acceptable s) :
    ∃ here, cursor.Meets here ∧ token.StandsAt here ∧ after = here.advance token.text.length :=
  meets_of_next h fun hstar => List.contains_iff_mem.mpr (hpow (List.contains_iff_mem.mp hstar))

/-- A misplaced token is found where every terminal is accepted. -/
theorem Cursor.next_of_misplaced {accepted : Terminal → Bool} {cursor : Cursor} {token : Token}
    (h : cursor.next accepted = .misplaced token) :
    ∃ after, cursor.next everywhere = .token token after := by
  unfold next at h ⊢
  dsimp only at h ⊢
  split at h
  · cases h
  · split at h
    · cases h
    · split at h
      · rename_i found behind hlexeme
        cases h
        have heverywhere : (cursor.advance (ignored cursor.rest)).lexeme? everywhere =
            some (token, behind) := hlexeme
        exact ⟨behind, by rw [heverywhere]⟩
      · cases h

/-- A misplaced token is not acceptable. -/
theorem not_acceptable_of_misplaced {cursor : Cursor} {token : Token} {s : State}
    (h : (cursor.next fun t => (acceptable s).contains t) = .misplaced token) :
    token.terminal ∉ acceptable s := by
  intro hs
  obtain ⟨after, hafter⟩ := Cursor.next_of_misplaced h
  cases h.symm.trans (Cursor.next_of_everywhere hafter hs)

/-- A numeral begins with a digit, and whatever begins with a digit begins with a numeral. -/
theorem numeral_matchLength_pos {c : Char} (h : isDigit c = true) (rest : List Char) :
    0 < Terminal.numeral.matchLength (c :: rest) := by
  obtain ⟨value, hvalue⟩ := Option.isSome_iff_exists.mp h
  have htake : takeDigits (c :: rest) = (value :: (takeDigits rest).1, (takeDigits rest).2) := by
    rw [takeDigits, hvalue]
  rw [Terminal.matchLength, readNumeral, htake]
  dsimp only
  rw [List.length_cons]
  omega

/-- Where a piece of the text is spelled like some terminal, a terminal matches. -/
theorem exists_matchLength_pos {t : Terminal} {piece : List Char}
    (h : Lexeme.IsSpelled ⟨t, piece⟩) (behind : List Char) :
    ∃ u ∈ scanOrder, 0 < u.matchLength (piece ++ behind) := by
  obtain ⟨u, hu, hspelled, -, -⟩ := h.scanned (Lexeme.ends_nil _)
  refine ⟨u, hu, ?_⟩
  obtain ⟨c, tail, rfl⟩ := List.exists_cons_of_ne_nil (text_ne_nil hu hspelled)
  -- In front of nothing the whole piece is taken, but more may be taken of the text.
  have hlength := matchLength_of_spelled hu hspelled (Lexeme.ends_nil _)
  rw [List.append_nil] at hlength
  rcases scanned_cases hu with rfl | rfl | rfl | hmark
  · refine numeral_matchLength_pos (Decidable.byContradiction fun hdigit => ?_) _
    rw [numeral_matchLength_cons (Bool.eq_false_iff.mpr hdigit)] at hlength
    cases hlength
  · show 0 < nameLength (c :: (tail ++ behind))
    rw [nameLength, if_pos (IsWord.cons hspelled).1]
    omega
  · have hrelation : c :: tail ∈ relations := hspelled
    simp only [relations, List.mem_cons, List.not_mem_nil, or_false] at hrelation
    show 0 < relopLength (c :: (tail ++ behind))
    rcases hrelation with h | h | h | h | h | h <;> cases h <;> unfold relopLength <;> split <;>
      simp_all
  · have hpiece : c :: tail = u.spelling := (isSpelled_mark hmark).mp hspelled
    rw [hpiece, matchLength_mark hmark,
      if_pos (List.isPrefixOf_iff_prefix.mpr (List.prefix_append _ _)), ← hpiece]
    exact Nat.zero_lt_succ _

/-- What can be ignored is ignored, wholly or in part. -/
theorem IsIgnorable.ignored_pos {piece : List Char} (h : IsIgnorable piece) (behind : List Char) :
    0 < ignored (piece ++ behind) := by
  cases h with
  | space c more h =>
    rw [List.cons_append, ignored_space (h c List.mem_cons_self)]
    omega
  | comment body h =>
    rw [List.cons_append, List.cons_append, ignored_slashes]
    omega

/-- A character that is unknown stands behind a gap, and nothing begins with it. -/
theorem Cursor.isDue_of_unknown {accepted : Terminal → Bool} {cursor : Cursor} {c : Char}
    {extent : Extent} (h : cursor.next accepted = .unknown c extent) (read : List Token) :
    (SyntaxFault.unknown c extent).IsDue read cursor := by
  unfold next at h
  dsimp only at h
  split at h
  · cases h
  · rename_i first others hhere
    split at h
    · cases h
    · split at h
      · cases h
      · rename_i hlexeme
        cases h
        have hlt : ignored cursor.rest < cursor.rest.length := by
          have hlength := congrArg List.length hhere
          rw [advance_rest, List.length_drop, List.length_cons] at hlength
          omega
        obtain ⟨gap, rest, hrest, hgap, hignored, hplace⟩ := exists_gap cursor.rest hlt
        have hbehind : (cursor.advance gap.length).rest = rest := by
          rw [advance_rest, hrest, List.drop_left]
        rw [hignored] at hhere hlexeme ⊢
        refine .character ⟨gap, hgap, by rw [hbehind, hrest], rfl⟩ hhere
          (fun piece behind hpiece t hspelled => ?_) (fun piece behind hpiece hignorable => ?_)
        · -- Something would match, so something would be the first match.
          obtain ⟨u, hu, hpos⟩ := exists_matchLength_pos hspelled behind
          have hnone : firstMatch everywhere (piece ++ behind) = none := by
            rw [← hpiece]
            exact Option.map_eq_none_iff.mp hlexeme
          have hmatch := List.findSome?_eq_none_iff.mp hnone u hu
          rw [if_pos ⟨rfl, hpos⟩] at hmatch
          cases hmatch
        · have hpos := hignorable.ignored_pos behind
          rw [← hpiece, hbehind, hplace] at hpos
          exact Nat.lt_irrefl 0 hpos

/-! ## Reading up to the fault -/

/-- A token that stands next is due as a fault, if the automaton does not take it. -/
theorem isDue_of_stands {stack : Stack} {cursor here : Cursor} {token : Token}
    (hmeets : cursor.Meets here) (hstands : token.StandsAt here)
    (hrefused : ∀ shifted, feed token stack ≠ .shifted shifted) {read : List Token}
    (hread : ∀ more, readTokens [] (read ++ more) = readTokens stack more)
    (expected : List Terminal) : (SyntaxFault.unexpected token expected).IsDue read cursor := by
  refine .token hmeets hstands (not_isViable_of_refuses fun other rest hterminal => ?_)
  rw [hread]
  exact readTokens_of_not_shifted hterminal hrefused rest

/-- The end of the text is due as a fault, if the program is not complete there. -/
theorem isDue_of_end {stack : Stack} {last : Option Token} {cursor : Cursor}
    (hend : cursor.AtEnd) (hunfinished : ∀ d, feed (endToken last) stack ≠ .finished d)
    {read : List Token} (hread : ∀ more, readTokens [] (read ++ more) = readTokens stack more)
    (expected : List Terminal) :
    (SyntaxFault.unexpected (endToken last) expected).IsDue read cursor := by
  have hterminal : (endToken last).terminal = .endOfText := by cases last <;> rfl
  refine .endOfText hterminal hend (not_program_of_readTokens ?_)
  have hstack := hread []
  rw [List.append_nil] at hstack
  rw [hstack, readTokens]
  split
  · rename_i made hfinished
    exact absurd (feed_finished_congr hterminal.symm hfinished) (hunfinished made)
  · rfl
  · rfl

/-- What the reader takes from here on makes a viable row, and lies in the text up to a place where
    the fault is due. -/
def Stack.ComesTo (stack : Stack) (cursor : Cursor) (fault : SyntaxFault) : Prop :=
  IsViable ((stack.tokens ++ tokensFrom stack cursor).map (·.terminal)) ∧
    ∃ place, Lies cursor (tokensFrom stack cursor) place ∧
      fault.IsDue (stack.tokens ++ tokensFrom stack cursor) place

namespace Stack.IsPath

variable {stack : Stack} {cursor after : Cursor} {token : Token}

/-- Where the reader takes nothing more, the fault is due at once. -/
theorem comesTo (h : stack.IsPath) {fault : SyntaxFault} (hnil : tokensFrom stack cursor = [])
    (hdue : fault.IsDue stack.tokens cursor) : stack.ComesTo cursor fault := by
  unfold Stack.ComesTo
  rw [hnil, List.append_nil]
  exact ⟨h.isViable, cursor, .nil cursor, hdue⟩

/-- The fault at the end of the text. -/
theorem comesTo_end (h : stack.IsPath)
    (hread : ∀ more, readTokens [] (stack.tokens ++ more) = readTokens stack more)
    (hnext : (cursor.next fun t => (acceptable stack.state).contains t) = .endOfText)
    {last : Option Token} (hunfinished : ∀ d, feed (endToken last) stack ≠ .finished d)
    (expected : List Terminal) : stack.ComesTo cursor (.unexpected (endToken last) expected) :=
  h.comesTo (tokensFrom_of_no_token fun _ _ ht => by cases hnext.symm.trans ht)
    (isDue_of_end (Cursor.next_eq_endOfText_iff.mp hnext) hunfinished hread expected)

/-- The fault at a token that is acceptable, but not taken in the end. -/
theorem comesTo_token (h : stack.IsPath)
    (hread : ∀ more, readTokens [] (stack.tokens ++ more) = readTokens stack more)
    (hpow : .star ∈ acceptable stack.state → .pow ∈ acceptable stack.state)
    (hnext : (cursor.next fun t => (acceptable stack.state).contains t) = .token token after)
    (hrefused : ∀ shifted, feed token stack ≠ .shifted shifted) (expected : List Terminal) :
    stack.ComesTo cursor (.unexpected token expected) := by
  obtain ⟨here, hmeets, hstands, -⟩ := Cursor.meets_of_next_acceptable hnext hpow
  exact h.comesTo (tokensFrom_of_not_shifted hnext hrefused)
    (isDue_of_stands hmeets hstands hrefused hread expected)

/-- The fault at a token that is not acceptable. -/
theorem comesTo_misplaced (h : stack.IsPath)
    (hread : ∀ more, readTokens [] (stack.tokens ++ more) = readTokens stack more)
    (hnext : (cursor.next fun t => (acceptable stack.state).contains t) = .misplaced token)
    (expected : List Terminal) : stack.ComesTo cursor (.unexpected token expected) := by
  obtain ⟨after, hafter⟩ := Cursor.next_of_misplaced hnext
  obtain ⟨here, hmeets, hstands, -⟩ := Cursor.meets_of_next hafter fun _ => rfl
  refine h.comesTo (tokensFrom_of_no_token fun _ _ ht => by cases hnext.symm.trans ht)
    (isDue_of_stands hmeets hstands (fun shifted hshifted => ?_) hread expected)
  exact not_acceptable_of_misplaced hnext (acceptable_of_feed hshifted)

end Stack.IsPath

/-- **The reader comes to the fault** that it reports. -/
theorem comesTo_of_readFrom {stack : Stack} {last : Option Token} {cursor : Cursor}
    {fault : SyntaxFault} (h : readFrom stack last cursor = .error fault) (hpath : stack.IsPath)
    (hpow : .star ∈ acceptable stack.state → .pow ∈ acceptable stack.state)
    (hread : ∀ more, readTokens [] (stack.tokens ++ more) = readTokens stack more) :
    stack.ComesTo cursor fault := by
  fun_induction readFrom stack last cursor with
  | case1 stack last cursor token hnext =>
    cases h
    exact hpath.comesTo_misplaced hread hnext _
  | case2 stack last cursor c extent hnext =>
    cases h
    exact hpath.comesTo (tokensFrom_of_no_token fun _ _ ht => by cases hnext.symm.trans ht)
      (Cursor.isDue_of_unknown hnext _)
  | case3 => cases h
  | case4 stack last cursor hnext s hfeed =>
    cases h
    exact hpath.comesTo_end hread hnext (fun _ hd => by cases hfeed.symm.trans hd) _
  | case5 stack last cursor hnext shifted hfeed =>
    cases h
    exact hpath.comesTo_end hread hnext (fun _ hd => by cases hfeed.symm.trans hd) _
  | case6 stack last cursor token after hnext shifted hfeed ih =>
    -- The token is one more that has been read; the rest is the same from the next place on.
    obtain ⟨here, hmeets, hstands, rfl⟩ := Cursor.meets_of_next_acceptable hnext hpow
    have hsound : (feed token stack).IsSound token stack := feed_sound hpath
    rw [hfeed] at hsound
    obtain ⟨hshifted, htokens⟩ := hsound
    have hreads (more : List Token) :
        readTokens [] (shifted.tokens ++ more) = readTokens shifted more := by
      rw [htokens, List.append_assoc, hread, List.singleton_append, readTokens, hfeed]
    obtain ⟨hviable, place, hlies, hdue⟩ := ih h hshifted (pow_acceptable_of_feed hfeed) hreads
    rw [htokens, List.append_assoc, List.singleton_append] at hviable hdue
    unfold Stack.ComesTo
    rw [tokensFrom_token hnext hfeed]
    exact ⟨hviable, place, .token hmeets hstands hlies, hdue⟩
  | case7 stack last cursor token after hnext s hfeed =>
    cases h
    exact hpath.comesTo_token hread hpow hnext (fun _ ha => by cases hfeed.symm.trans ha) _
  | case8 stack last cursor token after hnext d hfeed =>
    cases h
    exact hpath.comesTo_token hread hpow hnext (fun _ ha => by cases hfeed.symm.trans ha) _

/-! ## What the report says -/

/-- The issue quotes the place of the fault and nothing else, and opens with what stands there. -/
def SyntaxFault.IsToldBy (source : String) (issue : Issue) : SyntaxFault → Prop
  | .unexpected token _ =>
    issue.annotations.map (·.span) = [⟨source, token.extent⟩] ∧
      issue.intro = "Bella got confused by " ++
        (if token.terminal = .endOfText then "the end of the text"
          else Text.quoted (String.ofList token.text)) ++ "."
  | .unknown c extent =>
    issue.annotations.map (·.span) = [⟨source, extent⟩] ∧
      issue.intro =
        "Bella does not know what to make of " ++ Text.quoted (String.singleton c) ++ "."
  | .unfinished => False

/-- A fault that is due somewhere has a place to be quoted. -/
theorem SyntaxFault.IsDue.isToldBy {read : List Token} {place : Cursor} {fault : SyntaxFault}
    (h : fault.IsDue read place) (source : String) :
    fault.IsToldBy source (.syntaxFault source fault) := by
  cases h with
  | token hmeets hstands hrefused => exact ⟨rfl, rfl⟩
  | endOfText hterminal hend hunfinished => exact ⟨rfl, rfl⟩
  | character hmeets hrest hterminal hignorable => exact ⟨rfl, rfl⟩

/-- So the reader comes to the fault in a text that is no program, from its start on. -/
theorem comesTo_of_ofText {source text : String} {fault : SyntaxFault}
    (h : Program.ofText source text = .error fault) :
    Stack.ComesTo [] (.start text.toList) fault := by
  have hread : readText text = .error fault := Program.ofText_eq_error_iff.mp h
  exact comesTo_of_readFrom hread .empty (by decide +kernel) fun more => rfl

/-- What is said about it is about this fault. -/
theorem SyntaxFault.isToldBy_of_ofText {source text : String} {fault : SyntaxFault}
    (h : Program.ofText source text = .error fault) :
    fault.IsToldBy source (.syntaxFault source fault) := by
  obtain ⟨-, place, -, hdue⟩ := comesTo_of_ofText h
  exact hdue.isToldBy source

/-- **A text is refused at the first thing that cannot be right.**  If reading a text gives no
    program, the report has just one more issue, with a fault in the text: it quotes the place of
    the fault and opens with what stands there.  The tokens before it are the first ones of some
    program, and what the fault is about is what no program goes on with. -/
theorem readText_refuses_first_fault (report : Report) (index : SourceIndex) (source text : String)
    (h : (report.readText index source text).1 = none) :
    ∃ fault : SyntaxFault, Program.ofText source text = .error fault ∧
      (report.readText index source text).2.1.issues =
        report.issues ++ [.syntaxFault source fault] ∧
      fault.IsToldBy source (.syntaxFault source fault) ∧
      IsViable ((tokensRead text).map (·.terminal)) ∧
      ∃ place, Lies (.start text.toList) (tokensRead text) place ∧
        fault.IsDue (tokensRead text) place := by
  cases hresult : Program.ofText source text with
  | ok program =>
    rw [Report.readText_of_ok hresult] at h
    cases h
  | error fault =>
    obtain ⟨hviable, place, hlies, hdue⟩ := comesTo_of_ofText hresult
    rw [Report.readText_of_error hresult]
    exact ⟨fault, rfl, rfl, hdue.isToldBy source, hviable, place, hlies, hdue⟩

/-- A parenthesis that is not closed: several rules are closed before the semicolon is refused. -/
theorem readText_refuses_first_fault_parenthesis :
    let text := "print (1 + 2;"
    let report := Report.new false
    (report.readText .empty "<input>" text).1 = none ∧
      (tokensRead text).map (·.terminal) = [.printWord, .lpar, .numeral, .plus, .numeral] ∧
      ∃ fault : SyntaxFault, Program.ofText "<input>" text = .error fault ∧
        (report.readText .empty "<input>" text).2.1.issues =
          report.issues ++ [.syntaxFault "<input>" fault] ∧
        fault.IsToldBy "<input>" (.syntaxFault "<input>" fault) ∧
        IsViable ((tokensRead text).map (·.terminal)) ∧
        ∃ place, Lies (.start text.toList) (tokensRead text) place ∧
          fault.IsDue (tokensRead text) place := by
  intro text report
  have hnone : (report.readText .empty "<input>" text).1 = none :=
    Option.isNone_iff_eq_none.mp (by decide +kernel)
  exact ⟨hnone, by decide +kernel,
    readText_refuses_first_fault report .empty "<input>" text hnone⟩

end BellaLang
