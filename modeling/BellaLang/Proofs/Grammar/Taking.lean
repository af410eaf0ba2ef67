import BellaLang.Proofs.Grammar.Cutting
import BellaLang.Proofs.Grammar.Language
import BellaLang.Report.Reading

/-!
The tokens that the reader takes.

The reader takes one token after the other, until the text is at its end or something in it is
refused.  The tokens it has put on its stack by then are those that it has read (`tokensRead`).

A text can also be cut without a reader, with every terminal accepted everywhere (`plainTokens?`).
Where this gives a row of tokens that is a program, the reader takes the same row.

  1. A token that is found among all the terminals is found among fewer, if it is one of them
     (`Cursor.next_of_everywhere`).
  2. What the automaton takes is acceptable, so token by token the reader finds the same
     (`readFrom_of_plainTokens`).

Main statement: `readText_of_plainTokens`.
-/

namespace BellaLang

/-! ## What is taken -/

/-- The tokens that are put on the stack, reading on from a place in a text. -/
def tokensFrom (stack : Stack) (cursor : Cursor) : List Token :=
  match _next : cursor.next fun t => (acceptable stack.state).contains t with
  | .token token after =>
    match feed token stack with
    | .shifted stack => token :: tokensFrom stack after
    | .refused _ | .finished _ => []
  | .endOfText | .misplaced _ | .unknown .. => []
termination_by cursor.rest.length
decreasing_by exact Cursor.next_shorter _next

/-- The tokens that are read of a text. -/
def tokensRead (text : String) : List Token := tokensFrom [] (.start text.toList)

/-- A token that can be put on top is taken. -/
theorem tokensFrom_token {stack shifted : Stack} {cursor after : Cursor} {token : Token}
    (hnext : (cursor.next fun t => (acceptable stack.state).contains t) = .token token after)
    (hfeed : feed token stack = .shifted shifted) :
    tokensFrom stack cursor = token :: tokensFrom shifted after := by
  rw [tokensFrom.eq_def]
  split <;> rename_i hfound <;> cases hnext.symm.trans hfound
  rw [hfeed]

/-- A token that cannot be put on top is not taken. -/
theorem tokensFrom_of_not_shifted {stack : Stack} {cursor after : Cursor} {token : Token}
    (hnext : (cursor.next fun t => (acceptable stack.state).contains t) = .token token after)
    (hfeed : ∀ shifted, feed token stack ≠ .shifted shifted) : tokensFrom stack cursor = [] := by
  rw [tokensFrom.eq_def]
  split <;> rename_i hfound <;> cases hnext.symm.trans hfound
  split
  · rename_i shifted hshifted
    exact absurd hshifted (hfeed shifted)
  · rfl
  · rfl

/-- Where no token comes next, none is taken. -/
theorem tokensFrom_of_no_token {stack : Stack} {cursor : Cursor}
    (hnext : ∀ token after,
      (cursor.next fun t => (acceptable stack.state).contains t) ≠ .token token after) :
    tokensFrom stack cursor = [] := by
  rw [tokensFrom.eq_def]
  split
  · rename_i token after hfound
    exact absurd hfound (hnext token after)
  · rfl
  · rfl
  · rfl

/-- What a text is read as, the automaton makes of the tokens that are taken. -/
theorem readTokens_tokensFrom {stack : Stack} {last : Option Token} {cursor : Cursor}
    {d : Derivation} (h : readFrom stack last cursor = .ok d) :
    readTokens stack (tokensFrom stack cursor) = some d := by
  fun_induction readFrom stack last cursor with
  | case1 => cases h
  | case2 => cases h
  | case3 stack last cursor hnext finished hfeed =>
    obtain rfl : finished = d := Except.ok.inj h
    have hterminal : (endToken last).terminal = (endToken none).terminal := by cases last <;> rfl
    have hnil : tokensFrom stack cursor = [] :=
      tokensFrom_of_no_token fun _ _ ht => by cases hnext.symm.trans ht
    rw [hnil, readTokens, feed_finished_congr hterminal hfeed]
  | case4 => cases h
  | case5 => cases h
  | case6 stack last cursor token after hnext shifted hfeed ih =>
    rw [tokensFrom_token hnext hfeed, readTokens, hfeed]
    exact ih h
  | case7 => cases h
  | case8 => cases h

/-- The tokens that are read of a program are those of its derivation. -/
theorem tokensRead_of_readText {text : String} {d : Derivation} (h : readText text = .ok d) :
    tokensRead text = d.tokens :=
  (readTokens_sound .empty (readTokens_tokensFrom h)).tokens.symm

/-! ## Plain cutting -/

/-- The tokens of a text from a place on, where every terminal is accepted everywhere; nothing, if
    there is a character that no token begins with. -/
def Cursor.plainTokens? (cursor : Cursor) : Option (List Token) :=
  match _next : cursor.next everywhere with
  | .endOfText => some []
  | .token token after => after.plainTokens?.map (token :: ·)
  | .misplaced _ | .unknown .. => none
termination_by cursor.rest.length
decreasing_by exact Cursor.next_shorter _next

/-- What is found among all terminals is found wherever it is acceptable. -/
theorem Cursor.next_of_everywhere {cursor after : Cursor} {token : Token} {s : State}
    (h : cursor.next everywhere = .token token after) (hs : token.terminal ∈ acceptable s) :
    (cursor.next fun t => (acceptable s).contains t) = .token token after := by
  unfold next at h ⊢
  dsimp only at h ⊢
  split at h
  · cases h
  · rename_i c others hhere
    split at h
    · rename_i found behind hlexeme
      cases h
      obtain ⟨⟨t, n⟩, hmatch, hfound⟩ := Option.map_eq_some_iff.mp hlexeme
      obtain ⟨rfl, rfl⟩ := Prod.mk.inj hfound
      -- The first match among all terminals is acceptable, whether it is refined or not.
      have hfirst : firstMatch (fun t => (acceptable s).contains t)
          (cursor.advance (ignored cursor.rest)).rest = some (t, n) :=
        firstMatch_accepted hmatch (List.contains_iff_mem.mpr (acceptable_of_refine hs))
      rw [lexeme?, hfirst]
      dsimp only [Option.map_some]
      rw [refine_accepted (List.contains_iff_mem.mpr hs)]
    · split at h <;> cases h

/-- What the automaton makes of the tokens of plain cutting the text is read as, and these are the
    tokens that are taken. -/
theorem readFrom_of_plainTokens {cursor : Cursor} {tokens : List Token} {stack : Stack}
    {last : Option Token} {d : Derivation} (hplain : cursor.plainTokens? = some tokens)
    (hread : readTokens stack tokens = some d) :
    readFrom stack last cursor = .ok d ∧ tokensFrom stack cursor = tokens := by
  fun_induction Cursor.plainTokens? cursor generalizing tokens stack last with
  | case1 cursor hnext =>
    cases hplain
    have hhere : (cursor.next fun t => (acceptable stack.state).contains t) = .endOfText :=
      Cursor.next_eq_endOfText_iff.mpr (Cursor.next_eq_endOfText_iff.mp hnext)
    have hterminal : (endToken none).terminal = (endToken last).terminal := by cases last <;> rfl
    rw [readTokens] at hread
    split at hread
    · rename_i made hfeed
      cases hread
      exact ⟨readFrom_end hhere (feed_finished_congr hterminal hfeed),
        tokensFrom_of_no_token fun _ _ h => by cases hhere.symm.trans h⟩
    · cases hread
    · cases hread
  | case2 cursor token after hnext ih =>
    obtain ⟨others, hothers, rfl⟩ := Option.map_eq_some_iff.mp hplain
    rw [readTokens] at hread
    split at hread
    · rename_i shifted hfeed
      have hhere := Cursor.next_of_everywhere hnext (acceptable_of_feed hfeed)
      obtain ⟨hreads, htaken⟩ : readFrom shifted (some token) after = .ok d ∧
          tokensFrom shifted after = others := ih hothers hread
      rw [readFrom_token hhere hfeed, tokensFrom_token hhere hfeed, htaken]
      exact ⟨hreads, rfl⟩
    · cases hread
    · cases hread
  | case3 => cases hplain
  | case4 => cases hplain

/-- **Reading is a conservative extension of plain cutting.**  If plain cutting makes a program of a
    text, the reader takes just these tokens and accepts the text.  The tree is the one that the
    automaton makes of the tokens alone, and the only one that the grammar allows for them. -/
theorem readText_of_plainTokens (source text : String) (tokens : List Token)
    (hplain : (Cursor.start text.toList).plainTokens? = some tokens)
    (hprogram : tokens.map (·.terminal) ∈ programGrammar.language) :
    tokensRead text = tokens ∧ ∃ program : Program,
      (readTokens [] tokens).map (·.toProgram source) = some program ∧
      (∀ other : Program, ProgramPhrase source tokens other ↔ other = program) ∧
      ∀ (report : Report) (index : SourceIndex),
        report.readText index source text = (some program, report, index.register source text) := by
  obtain ⟨d, hd⟩ := (exists_isProgramOf_iff tokens).mpr hprogram
  have hread := readTokens_eq_some_iff.mpr hd
  obtain ⟨hreads, htaken⟩ : readFrom [] none (.start text.toList) = .ok d ∧
      tokensFrom [] (.start text.toList) = tokens := readFrom_of_plainTokens hplain hread
  have htree : Program.ofText source text = .ok (d.toProgram source) := by
    rw [Program.ofText, readText, hreads]
    rfl
  refine ⟨htaken, d.toProgram source, by rw [hread]; rfl, fun other => ?_, fun report index =>
    Report.readText_of_ok htree report index⟩
  rw [programPhrase_iff]
  constructor
  · rintro ⟨e, he, rfl⟩
    rw [hd.unique he]
  · rintro rfl
    exact ⟨d, hd, rfl⟩

/-- A comment right after an operand, a comparison of two characters, and a name that begins like a
    word of the language. -/
theorem readText_of_plainTokens_comment :
    let text := "print 7//2\n<=lets;"
    let tokens : List Token :=
      [⟨.printWord, "print".toList, ⟨1, 1, 0, 5⟩⟩, ⟨.numeral, ['7'], ⟨1, 7, 6, 7⟩⟩,
       ⟨.relop, "<=".toList, ⟨2, 1, 11, 13⟩⟩, ⟨.name, "lets".toList, ⟨2, 3, 13, 17⟩⟩,
       ⟨.semicolon, [';'], ⟨2, 7, 17, 18⟩⟩]
    (Cursor.start text.toList).plainTokens? = some tokens ∧
      tokens.map (·.terminal) ∈ programGrammar.language ∧ tokensRead text = tokens ∧
      ∃ program, (readTokens [] tokens).map (·.toProgram "<input>") = some program ∧
        ∀ (report : Report) (index : SourceIndex), report.readText index "<input>" text =
          (some program, report, index.register "<input>" text) := by
  intro text tokens
  have hplain : (Cursor.start text.toList).plainTokens? = some tokens := by decide +kernel
  have hread : (readTokens [] tokens).isSome = true := by decide +kernel
  have hprogram : tokens.map (·.terminal) ∈ programGrammar.language := by
    obtain ⟨d, hd⟩ := Option.isSome_iff_exists.mp hread
    exact (exists_isProgramOf_iff tokens).mp ⟨d, readTokens_eq_some_iff.mp hd⟩
  obtain ⟨htaken, program, htree, -, hreads⟩ :=
    readText_of_plainTokens "<input>" text tokens hplain hprogram
  exact ⟨hplain, hprogram, htaken, program, htree, hreads⟩

end BellaLang
