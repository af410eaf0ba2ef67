import BellaLang.Proofs.Grammar.Acceptance
import BellaLang.Proofs.Grammar.Modes
import BellaLang.Proofs.Grammar.Spelling

/-!
How a text that is read lies in its tokens.

The reader asks for one token after the other, and what it is given hangs on the state that it is
in.  Here the outcome is described without the reader (`Cut`): between the tokens there are gaps,
each token is spelled as its terminal demands and ends where nothing can go on with it, and a word
is a name only where it cannot be the word of the language that it is spelled like.  Of the states
only the modes are left in that.

  1. What comes next is a gap and a lexeme that ends (`Cursor.next_token`), so a text that is read
     is cut like that (`cut_of_readFrom`).
  2. A gap and a lexeme that ends come next (`Cursor.next_of_cut`), so a text that is cut like that
     is read, if the automaton reads its tokens (`Cut.readFrom`).

Main statement: `readText_eq_ok_iff`.
-/

namespace BellaLang

open BellaLang.Number BellaLang.Text

/-! ## A text in its tokens -/

theorem Cursor.advance_add (m n : Nat) (cursor : Cursor) :
    cursor.advance (m + n) = (cursor.advance m).advance n := by
  induction m generalizing cursor with
  | zero => rw [Nat.zero_add, advance]
  | succ m ih =>
    rw [Nat.succ_add, advance, advance]
    split
    · rename_i hnil
      cases n with
      | zero => rfl
      | succ n => rw [advance, hnil]
    · exact ih _

/-- From a place on, the text is a row of tokens with gaps between them.  The tokens end at another
    place; a mode goes along with them. -/
inductive Cut : Mode → Cursor → List Token → Cursor → Prop
  | nil (mode : Mode) (cursor : Cursor) : Cut mode cursor [] cursor
  | token {mode next : Mode} {cursor after : Cursor} {gap rest : List Char} {token : Token}
      {tokens : List Token} (hgap : IsGap gap) (hrest : cursor.rest = gap ++ (token.text ++ rest))
      (hextent : token.extent = (cursor.advance gap.length).extent token.text.length)
      (hspelled : token.lexeme.IsSpelled) (hends : token.lexeme.Ends rest)
      (hword : token.terminal = .name → ∀ word, keyword? token.text = some word →
        mode.step? word = none)
      (hstep : mode.step? token.terminal = some next)
      (htokens : Cut next (cursor.advance (gap.length + token.text.length)) tokens after) :
      Cut mode cursor (token :: tokens) after

/-- Nothing but what is ignored is left. -/
def Cursor.AtEnd (cursor : Cursor) : Prop := cursor.rest.length ≤ ignored cursor.rest

/-- At the end, and only there, nothing comes next. -/
theorem Cursor.next_eq_endOfText_iff {accepted : Terminal → Bool} {cursor : Cursor} :
    cursor.next accepted = .endOfText ↔ cursor.AtEnd := by
  have hrest := cursor.advance_rest (ignored cursor.rest)
  rw [AtEnd, ← List.drop_eq_nil_iff, ← hrest]
  unfold next
  dsimp only
  split
  · rename_i hnil
    exact ⟨fun _ => hnil, fun _ => rfl⟩
  · rename_i c others hcons
    rw [hcons]
    refine ⟨fun h => ?_, fun h => absurd h (List.cons_ne_nil c others)⟩
    split at h
    · cases h
    · split at h <;> cases h

/-! ## A text that is read is cut -/

/-- What comes next where some terminals are accepted, as a part of the text. -/
theorem Cursor.next_token {accepted : Terminal → Bool} {cursor after : Cursor} {token : Token}
    (h : cursor.next accepted = .token token after)
    (hpow : accepted .star = true → accepted .pow = true) :
    ∃ gap rest, IsGap gap ∧ cursor.rest = gap ++ (token.text ++ rest) ∧
      token.extent = (cursor.advance gap.length).extent token.text.length ∧
      after = cursor.advance (gap.length + token.text.length) ∧ token.lexeme.IsSpelled ∧
      (token.terminal ≠ .numeral → token.lexeme.Ends rest) ∧
      (token.terminal = .name → ∀ word, keyword? token.text = some word →
        accepted word = false) := by
  unfold next at h
  dsimp only at h
  split at h
  · cases h
  · rename_i c others hhere
    split at h
    · rename_i found behind hlexeme
      cases h
      obtain ⟨⟨t, n⟩, hmatch, hfound⟩ := Option.map_eq_some_iff.mp hlexeme
      have hlt : ignored cursor.rest < cursor.rest.length := by
        have hlength := congrArg List.length hhere
        rw [advance_rest, List.length_drop, List.length_cons] at hlength
        omega
      obtain ⟨gap, rest, hrest, hgap, hignored, hplace⟩ := exists_gap cursor.rest hlt
      have hhereRest : (cursor.advance gap.length).rest = rest := by
        rw [advance_rest, hrest, List.drop_left]
      rw [hignored] at hmatch hfound
      rw [hhereRest] at hmatch hfound
      obtain ⟨piece, behind, rfl, rfl, hspelled, hends⟩ := firstMatch_split hmatch hplace hpow
      obtain ⟨rfl, rfl⟩ := Prod.mk.inj hfound
      rw [List.take_left]
      obtain ⟨hspelled, hends⟩ := refine_split hspelled hends
      refine ⟨gap, behind, hgap, hrest, rfl, (cursor.advance_add _ _).symm, hspelled, hends, ?_⟩
      exact fun hname word hword => refused_of_name hname hword
    · split at h <;> cases h

theorem Lexeme.ends_numeral {lexeme : Lexeme} {rest : List Char}
    (h : lexeme.terminal = .numeral) (hends : EndsNumeral rest) : lexeme.Ends rest := by
  unfold Lexeme.Ends
  rw [h]
  exact hends

/-- After a numeral an operand has ended. -/
theorem Mode.eq_of_step?_numeral {mode next : Mode} (h : mode.step? .numeral = some next) :
    next = .operandEnd := by
  cases mode <;> cases h
  rfl

/-- Where an equals sign or an exclamation mark can come, no comparison can. -/
theorem Mode.relop_of_step? {mode next : Mode}
    (h : mode.step? .equal = some next ∨ mode.step? .bang = some next) :
    mode.step? .relop = none := by
  cases mode <;> first | rfl | exact absurd h (by rintro (h | h) <;> cases h)

/-- A character that something ignored begins with goes on with no numeral. -/
theorem endsNumeral_of_ignored {c : Char} (h : isSpace c = true ∨ c = '/') (rest : List Char) :
    EndsNumeral (c :: rest) := by
  intro d hd
  obtain rfl : c = d := Option.some.inj hd
  rcases h with hspace | rfl
  · unfold isSpace at hspace
    simp only [Bool.or_eq_true, beq_iff_eq] at hspace
    rcases hspace with (((rfl | rfl) | rfl) | rfl) | rfl <;> decide
  · decide

/-- Nor does a character that an operator or a closing mark begins with. -/
theorem endsNumeral_of_operator {t : Terminal} {text : List Char}
    (hstep : (Mode.operandEnd.step? t).isSome = true) (hspelled : Lexeme.IsSpelled ⟨t, text⟩)
    (rest : List Char) : EndsNumeral (text ++ rest) := by
  have hmarks : ∀ u ∈ scanOrder, ∀ c ∈ u.spelling.head?,
      isDigit c = false ∧ c ≠ '.' ∧ c ≠ 'e' ∧ c ≠ 'E' := forall_head_of_check (by decide)
  have hrelations : ∀ relation ∈ relations, ∀ c ∈ relation.head?,
      isDigit c = false ∧ c ≠ '.' ∧ c ≠ 'e' ∧ c ≠ 'E' := forall_head_of_check (by decide)
  have hscanned : t ∈ scanOrder := by cases t <;> first | decide | cases hstep
  have hhead : (text ++ rest).head? = text.head? := by
    obtain ⟨c, tail, rfl⟩ := List.exists_cons_of_ne_nil (text_ne_nil hscanned hspelled)
    rfl
  intro c hc
  rw [hhead] at hc
  rcases scanned_cases hscanned with rfl | rfl | rfl | hmark
  · cases hstep
  · cases hstep
  · exact hrelations text hspelled c hc
  · rw [(isSpelled_mark hmark).mp hspelled] at hc
    exact hmarks t hscanned c hc

/-- In the mode where an operand has ended, whatever comes next goes on with no numeral. -/
theorem Cut.endsNumeral {cursor after : Cursor} {tokens : List Token}
    (h : Cut .operandEnd cursor tokens after) (hend : after.AtEnd) : EndsNumeral cursor.rest := by
  cases h with
  | nil =>
    have hall : cursor.rest.length ≤ ignored cursor.rest := hend
    cases hrest : cursor.rest with
    | nil => exact nofun
    | cons c rest =>
      refine endsNumeral_of_ignored ?_ rest
      rw [hrest, List.length_cons] at hall
      by_cases hspace : isSpace c = true
      · exact .inl hspace
      · refine .inr (Decidable.byContradiction fun hslash => ?_)
        rw [ignored_cons (Bool.eq_false_iff.mpr hspace) hslash] at hall
        omega
  | @token mode next cursor after gap rest token tokens hgap hrest hextent hspelled hends hword
      hstep htokens =>
    rw [hrest]
    cases hgap with
    | nil => exact endsNumeral_of_operator (Option.isSome_of_mem hstep) hspelled rest
    | space hc hgap => exact endsNumeral_of_ignored (.inl hc) _
    | comment hbody hgap => exact endsNumeral_of_ignored (.inr rfl) _

/-- **A text that is read is cut**: the automaton reads its tokens, and there are gaps between
    them. -/
theorem cut_of_readFrom {stack : Stack} {last : Option Token} {cursor : Cursor} {d : Derivation}
    (h : readFrom stack last cursor = .ok d)
    (hpow : .star ∈ acceptable stack.state → .pow ∈ acceptable stack.state) :
    ∃ tokens after, readTokens stack tokens = some d ∧
      Cut (stateMode stack.state) cursor tokens after ∧ after.AtEnd := by
  fun_induction readFrom stack last cursor with
  | case1 => cases h
  | case2 => cases h
  | case3 stack last cursor hnext finished hfeed =>
    have hd : finished = d := Except.ok.inj h
    have hterminal : (endToken last).terminal = (endToken none).terminal := by
      cases last <;> rfl
    refine ⟨[], cursor, ?_, .nil _ _, ?_⟩
    · rw [readTokens, feed_finished_congr hterminal hfeed, hd]
    · exact Cursor.next_eq_endOfText_iff.mp hnext
  | case4 => cases h
  | case5 => cases h
  | case6 stack last cursor token after hnext shifted hfeed ih =>
    have haccepts (t : Terminal) : (acceptable stack.state).contains t = true ↔
        t ∈ acceptable stack.state := List.contains_iff_mem
    have hpowers : (acceptable stack.state).contains .star = true →
        (acceptable stack.state).contains .pow = true := by
      rw [haccepts, haccepts]
      exact hpow
    obtain ⟨gap, rest, hgap, hrest, hextent, rfl, hspelled, hends, hword⟩ :=
      Cursor.next_token hnext hpowers
    obtain ⟨tokens, after, hread, hcut, hend⟩ := ih h (pow_acceptable_of_feed hfeed)
    have hstep := mode_of_feed hfeed
    refine ⟨token :: tokens, after, by rw [readTokens, hfeed]; exact hread, ?_, hend⟩
    refine .token hgap hrest hextent hspelled ?_ ?_ hstep hcut
    · by_cases hnumeral : token.terminal = .numeral
      · rw [hnumeral] at hstep
        rw [Mode.eq_of_step?_numeral hstep] at hcut
        have hnumeralEnds := hcut.endsNumeral hend
        rw [Cursor.advance_rest, hrest, ← List.append_assoc, ← List.length_append,
          List.drop_left] at hnumeralEnds
        exact Lexeme.ends_numeral hnumeral hnumeralEnds
      · exact hends hnumeral
    · intro hname word hkeyword
      have hrefused := hword hname word hkeyword
      have hs : stack.state < 100 := lt_of_acceptable (acceptable_of_feed hfeed)
      rw [← Bool.not_eq_true, haccepts,
        keyword_acceptable_iff hs (isKeyword_of_keyword? hkeyword)] at hrefused
      exact Option.not_isSome_iff_eq_none.mp hrefused
  | case7 => cases h
  | case8 => cases h

/-! ## A text that is cut is read -/

/-- A part of the text that is cut off comes next, where its terminal is accepted and no other way
    of reading it is. -/
theorem Cursor.next_of_cut (accepted : Terminal → Bool) {cursor : Cursor} {gap rest : List Char}
    {token : Token} (hgap : IsGap gap) (hrest : cursor.rest = gap ++ (token.text ++ rest))
    (hextent : token.extent = (cursor.advance gap.length).extent token.text.length)
    (hspelled : token.lexeme.IsSpelled) (hends : token.lexeme.Ends rest)
    (haccepted : accepted token.terminal = true)
    (hname : token.terminal.isKeyword = true → accepted .name = true)
    (hword : token.terminal = .name → ∀ word, keyword? token.text = some word →
      accepted word = false)
    (hrelop : token.terminal = .equal ∨ token.terminal = .bang → accepted .relop = false) :
    cursor.next accepted = .token token (cursor.advance (gap.length + token.text.length)) := by
  obtain ⟨t, hscanned, htspelled, htends, hfound⟩ := hspelled.scanned hends
  have hplace : (cursor.advance (ignored cursor.rest)) = cursor.advance gap.length := by
    have hzero : ignored (token.text ++ rest) = 0 := ignored_of_spelled hscanned htspelled htends
    rw [hrest, hgap.ignored_append, hzero, Nat.add_zero]
  have hhere : (cursor.advance gap.length).rest = token.text ++ rest := by
    rw [advance_rest, hrest, List.drop_left]
  have htaccepted : accepted t = true := by
    rcases hfound with rfl | ⟨rfl, hkeyword⟩
    · exact haccepted
    · exact hname (isKeyword_of_keyword? hkeyword)
  have htrelop : t = .equal ∨ t = .bang → accepted .relop = false := by
    rcases hfound with rfl | ⟨rfl, -⟩
    · exact hrelop
    · exact nofun
  have hmatch : firstMatch accepted (token.text ++ rest) = some (t, token.text.length) :=
    firstMatch_of_spelled hscanned htspelled htends htaccepted htrelop
  have hrefine : refine accepted t token.text = token.terminal := by
    unfold refine
    rcases hfound with rfl | ⟨rfl, hkeyword⟩
    · by_cases hsame : token.terminal = .name
      · rw [show token.lexeme.terminal = token.terminal from rfl, if_pos hsame, hsame]
        cases hnone : keyword? token.text with
        | none => rfl
        | some word => exact if_neg (Bool.eq_false_iff.mp (hword hsame word hnone))
      · exact if_neg hsame
    · rw [if_pos rfl, show keyword? token.text = some token.terminal from hkeyword]
      exact if_pos haccepted
  have hlexeme : (cursor.advance gap.length).lexeme? accepted =
      some (token, cursor.advance (gap.length + token.text.length)) := by
    rw [lexeme?, hhere, hmatch]
    dsimp only [Option.map_some]
    rw [List.take_left, hrefine, ← hextent, ← advance_add]
  unfold next
  dsimp only
  rw [hplace, hhere, hlexeme]
  obtain ⟨c, tail, htext⟩ := List.exists_cons_of_ne_nil (text_ne_nil hscanned htspelled)
  rw [show token.text = c :: tail from htext]
  rfl

/-- **A text that is cut is read**, as what the automaton makes of its tokens. -/
theorem Cut.readFrom {mode : Mode} {cursor after : Cursor} {tokens : List Token}
    (h : Cut mode cursor tokens after) (hend : after.AtEnd) {stack : Stack}
    (hmode : stateMode stack.state = mode) (last : Option Token) {d : Derivation}
    (hread : readTokens stack tokens = some d) : BellaLang.readFrom stack last cursor = .ok d := by
  induction h generalizing stack last with
  | nil mode cursor =>
    have hterminal : (endToken none).terminal = (endToken last).terminal := by cases last <;> rfl
    rw [readTokens] at hread
    split at hread
    · rename_i made hfeed
      have hfinished := feed_finished_congr hterminal hfeed
      cases hread
      exact readFrom_end (Cursor.next_eq_endOfText_iff.mpr hend) hfinished
    · cases hread
    · cases hread
  | @token mode next cursor after gap rest token tokens hgap hrest hextent hspelled hends hword
      hstep htokens ih =>
    rw [readTokens] at hread
    split at hread
    · rename_i shifted hfeed
      have hacceptable := acceptable_of_feed hfeed
      have hnext : stateMode shifted.state = next := by
        have hmodes := mode_of_feed hfeed
        rw [hmode, hstep] at hmodes
        exact (Option.some.inj hmodes).symm
      have hrefused (t : Terminal) (ht : t ≠ .endOfText) (hnone : mode.step? t = none) :
          (acceptable stack.state).contains t = false := by
        refine Bool.eq_false_iff.mpr fun hcontains => ?_
        have hsome := step?_of_acceptable (List.contains_iff_mem.mp hcontains) ht
        rw [hmode, hnone] at hsome
        cases hsome
      have hfound := Cursor.next_of_cut (fun t => (acceptable stack.state).contains t)
        hgap hrest hextent hspelled hends
        (List.contains_iff_mem.mpr hacceptable)
        (fun hkeyword => List.contains_iff_mem.mpr (name_acceptable hacceptable hkeyword))
        (fun hname word hkeyword => hrefused word
          (by rintro rfl; cases isKeyword_of_keyword? hkeyword) (hword hname word hkeyword))
        (fun hsame => hrefused .relop (by decide) (Mode.relop_of_step? (hsame.elim
          (fun h => .inl (h ▸ hstep)) (fun h => .inr (h ▸ hstep)))))
      rw [readFrom_token hfound hfeed]
      exact ih hend hnext (some token) hread
    · cases hread
    · cases hread

/-- Every token that is cut off is spelled rightly. -/
theorem Cut.isSpelled {mode : Mode} {cursor after : Cursor} {tokens : List Token}
    (h : Cut mode cursor tokens after) : ∀ token ∈ tokens, token.lexeme.IsSpelled := by
  induction h with
  | nil => exact nofun
  | token hgap hrest hextent hspelled hends hword hstep htokens ih =>
    intro other hother
    rcases List.mem_cons.mp hother with rfl | hmem
    · exact hspelled
    · exact ih other hmem

/-- **What a text is read as**: the grammatical derivation of a program from the tokens that the
    text is cut into. -/
theorem readText_eq_ok_iff {text : String} {d : Derivation} :
    readText text = .ok d ↔ d.IsGrammatical ∧ d.symbol = .phrase .program ∧
      ∃ after : Cursor, Cut .statement (.start text.toList) d.tokens after ∧ after.AtEnd := by
  have hempty : stateMode (Stack.state []) = .statement := rfl
  constructor
  · intro h
    have hpow : Terminal.star ∈ acceptable (Stack.state []) →
        Terminal.pow ∈ acceptable (Stack.state []) := by decide
    obtain ⟨tokens, after, hread, hcut, hend⟩ := cut_of_readFrom h hpow
    obtain ⟨hgrammatical, hsymbol, rfl⟩ := readTokens_sound .empty hread
    rw [hempty] at hcut
    exact ⟨hgrammatical, hsymbol, after, hcut, hend⟩
  · rintro ⟨hgrammatical, hsymbol, after, hcut, hend⟩
    have hprogram : d.IsProgramOf d.tokens := ⟨hgrammatical, hsymbol, rfl⟩
    exact hcut.readFrom hend hempty none hprogram.readTokens_eq

/-- A text is read as a program if it has a derivation that the program is made from. -/
theorem Program.ofText_eq_ok_iff {source text : String} {program : Program} :
    Program.ofText source text = .ok program ↔
      ∃ d : Derivation, readText text = .ok d ∧ d.toProgram source = program := by
  unfold ofText
  cases readText text with
  | error fault => exact ⟨nofun, fun ⟨_, h, _⟩ => nomatch h⟩
  | ok d =>
    constructor
    · intro h
      exact ⟨d, rfl, Except.ok.inj h⟩
    · rintro ⟨_, h, rfl⟩
      rw [← Except.ok.inj h]
      rfl

/-- A text is refused for the fault that reading it comes to. -/
theorem Program.ofText_eq_error_iff {source text : String} {fault : SyntaxFault} :
    Program.ofText source text = .error fault ↔ readText text = .error fault := by
  rw [ofText]
  cases readText text with
  | error found =>
    constructor
    · intro h
      exact congrArg _ (Except.error.inj h)
    · rintro ⟨⟩
      rfl
  | ok d => constructor <;> intro h <;> cases h

theorem Program.exists_ofText {source text : String}
    (h : (Program.ofText source text).toOption.isSome = true) :
    ∃ program, Program.ofText source text = .ok program := by
  cases hresult : Program.ofText source text with
  | ok program => exact ⟨program, rfl⟩
  | error fault =>
    rw [hresult] at h
    cases h

/-- A text that is cut into the tokens of a program is read as this program. -/
theorem Cut.ofText {source text : String} {tokens : List Token} {after : Cursor}
    {program : Program} (h : Cut .statement (.start text.toList) tokens after) (hend : after.AtEnd)
    (hphrase : ProgramPhrase source tokens program) :
    Program.ofText source text = .ok program := by
  obtain ⟨d, ⟨hgrammatical, hsymbol, rfl⟩, hprogram⟩ := programPhrase_iff.mp hphrase
  exact Program.ofText_eq_ok_iff.mpr
    ⟨d, readText_eq_ok_iff.mpr ⟨hgrammatical, hsymbol, after, h, hend⟩, hprogram⟩

end BellaLang
