import BellaLang.Proofs.Grammar.Scanning
import BellaLang.Proofs.Grammar.Soundness

/-!
What can come next, as far as the tokens before say.

The automaton has a hundred states, and which terminals are acceptable hangs on all of them.  For
the cutting of a text most of that does not matter.  Nine *modes* are enough to tell where a
statement may begin, where an operand is awaited and where one has ended, and the mode after a token
depends on the mode before it and on the terminal only (`Mode.step?`).

  1. Modes go along with the grammar: each kind of phrase begins in one mode and ends in one mode,
     and so do the parts of each rule, one after the other (`Rule.modes`).
  2. Modes go along with the automaton: each state belongs to one mode, and a token that is put on
     top leads from mode to mode as it does from state to state (`mode_of_feed`).
  3. The mode of a state tells which words of the language are acceptable, and which terminals at
     most are (`keyword_acceptable_iff`, `step?_of_acceptable`).
-/

namespace BellaLang

/-! ## Modes -/

/-- What is awaited after some tokens. -/
inductive Mode where
  /-- A statement, or the end of a row of statements. -/
  | statement
  /-- The name that is declared. -/
  | declared
  /-- The name of a function that is declared, and then a parenthesis. -/
  | function
  | header
  /-- A parameter, and then a comma or the closing parenthesis. -/
  | parameter
  | parameterEnd
  /-- An equals sign. -/
  | equal
  /-- An operand, or the end of an empty row of them. -/
  | operand
  /-- An operator, or the end of an expression. -/
  | operandEnd
deriving DecidableEq, Repr

/-- The mode after a terminal, if the terminal can come at all. -/
def Mode.step? : Mode → Terminal → Option Mode
  | .statement, .name => some .equal
  | .statement, .letWord => some .declared
  | .statement, .functionWord => some .function
  | .statement, .printWord | .statement, .whileWord => some .operand
  | .statement, .rbrace => some .statement
  | .declared, .name => some .equal
  | .function, .name => some .header
  | .header, .lpar => some .parameter
  | .parameter, .name => some .parameterEnd
  | .parameter, .rpar | .parameterEnd, .rpar => some .equal
  | .parameterEnd, .comma => some .parameter
  | .equal, .equal => some .operand
  | .operand, .numeral | .operand, .name | .operand, .trueWord | .operand, .falseWord
  | .operand, .rpar | .operand, .rsqb => some .operandEnd
  | .operand, .minus | .operand, .bang | .operand, .lpar | .operand, .lsqb => some .operand
  | .operandEnd, .rpar | .operandEnd, .rsqb => some .operandEnd
  | .operandEnd, .relop | .operandEnd, .or | .operandEnd, .and | .operandEnd, .pow
  | .operandEnd, .plus | .operandEnd, .minus | .operandEnd, .star | .operandEnd, .slash
  | .operandEnd, .percent | .operandEnd, .comma | .operandEnd, .qmark | .operandEnd, .colon
  | .operandEnd, .lpar | .operandEnd, .lsqb => some .operand
  | .operandEnd, .semicolon | .operandEnd, .lbrace => some .statement
  | _, _ => none

/-- The mode that a kind of phrase begins in. -/
def Nonterminal.start : Nonterminal → Mode
  | .program | .statements | .statement => .statement
  | .params => .parameter
  | .moreParams => .parameterEnd
  | .exp | .disjunction | .conjunction | .comparison | .sum | .product | .unary | .power
  | .suffixed | .primary | .args => .operand
  | .block | .moreArgs => .operandEnd

/-- The mode that a kind of phrase ends in. -/
def Nonterminal.finish : Nonterminal → Mode
  | .program | .statements | .statement | .block => .statement
  | .params | .moreParams => .parameterEnd
  | .exp | .disjunction | .conjunction | .comparison | .sum | .product | .unary | .power
  | .suffixed | .primary | .args | .moreArgs => .operandEnd

/-- The mode after some tokens. -/
def Mode.after? (mode : Mode) (tokens : List Token) : Option Mode :=
  tokens.foldlM (fun mode token => mode.step? token.terminal) mode

theorem Mode.after?_cons (mode : Mode) (token : Token) (rest : List Token) :
    mode.after? (token :: rest) = (mode.step? token.terminal).bind (·.after? rest) := rfl

theorem Mode.after?_append (mode : Mode) (u v : List Token) :
    mode.after? (u ++ v) = (mode.after? u).bind (·.after? v) := List.foldlM_append

/-! ## Modes and rules -/

/-- The mode after a symbol, where a phrase has to begin in its own mode. -/
def Mode.over? (mode : Mode) : GrammarSymbol → Option Mode
  | .token t => mode.step? t
  | .phrase n => if mode = n.start then some n.finish else none

/-- The mode of a rule that has been read up to some point. -/
def Item.mode? (item : Item) : Option Mode :=
  (item.rule.rhs.take item.read).foldlM Mode.over? item.rule.lhs.start

/-- The parts of a rule lead from where its phrase begins to where it ends. -/
theorem Rule.modes (r : Rule) : r.rhs.foldlM Mode.over? r.lhs.start = some r.lhs.finish := by
  cases r <;> rfl

/-- Rows of tokens lead on one after the other, as the symbols do that they derive from. -/
theorem Mode.after?_flatMap {parts : List Derivation}
    (h : ∀ d ∈ parts, ∀ {mode after : Mode}, mode.over? d.symbol = some after →
      mode.after? d.tokens = some after)
    {mode after : Mode}
    (hmodes : (parts.map Derivation.symbol).foldlM Mode.over? mode = some after) :
    mode.after? (parts.flatMap Derivation.tokens) = some after := by
  induction parts generalizing mode with
  | nil => exact hmodes
  | cons d others ih =>
    rw [List.map_cons, List.foldlM_cons] at hmodes
    obtain ⟨between, hd, hothers⟩ := Option.bind_eq_some_iff.mp hmodes
    rw [List.flatMap_cons, after?_append, h d List.mem_cons_self hd]
    exact ih (fun e he => h e (List.mem_cons_of_mem d he)) hothers

/-- The tokens of a grammatical derivation lead on as its symbol does. -/
theorem Derivation.IsGrammatical.mode {d : Derivation} (h : d.IsGrammatical) {mode after : Mode}
    (hover : mode.over? d.symbol = some after) : mode.after? d.tokens = some after := by
  induction h generalizing mode after with
  | leaf token =>
    rw [tokens_leaf, Mode.after?_cons]
    exact Option.bind_eq_some_iff.mpr ⟨after, hover, rfl⟩
  | ofRule rule children hsymbols hchildren ih =>
    obtain ⟨rfl, hafter⟩ := Option.ite_none_right_eq_some.mp hover
    rw [tokens_ofRule]
    exact Mode.after?_flatMap (fun d hd => ih d hd) (by rw [hsymbols, rule.modes, hafter])

/-! ## Modes and states -/

/-- The mode of a state: that of the rules under way in it. -/
def stateMode (s : State) : Mode :=
  ((underWay s).head?.bind Item.mode?).getD .statement

/-- Does every terminal that can come next in a state lead on in its mode, and to the mode of the
    state it leads to? -/
def stepsInMode (s : State) : Bool :=
  (stateRow s).shifts.all fun (t, target) => (stateMode s).step? t == some (stateMode target)

/-- Does every phrase that leads on from a state begin in the mode of the state, and end in the
    mode of the state it leads to? -/
def goesInMode (s : State) : Bool :=
  (stateRow s).gotos.all fun (n, target) => stateMode s == n.start && stateMode target == n.finish

/-- Is a rule complete only in the mode that its phrase ends in, and does everything that can follow
    it lead on in that mode? -/
def closesInMode (s : State) : Bool :=
  match (stateRow s).complete with
  | some r => stateMode s == r.lhs.finish &&
      r.lhs.follow.all fun t => t == .endOfText || ((stateMode s).step? t).isSome
  | none => true

/-- Are the words of the language acceptable in the state that lead on in its mode? -/
def wordsInMode (s : State) : Bool :=
  [Terminal.letWord, .functionWord, .printWord, .whileWord, .trueWord, .falseWord].all fun t =>
    (acceptable s).contains t == ((stateMode s).step? t).isSome

theorem rows_step : ∀ s < 100, stepsInMode s = true := by decide +kernel

theorem rows_go : ∀ s < 100, goesInMode s = true := by decide +kernel

theorem rows_close : ∀ s < 100, closesInMode s = true := by decide +kernel

theorem rows_words : ∀ s < 100, wordsInMode s = true := by decide +kernel

/-- Where a multiplication can come, a power can come too. -/
theorem rows_pow : ∀ s < 100, ∀ entry ∈ (stateRow s).shifts,
    Terminal.star ∈ acceptable entry.2 → Terminal.pow ∈ acceptable entry.2 := by decide +kernel

/-- Beyond the table nothing is acceptable. -/
theorem lt_of_acceptable {s : State} {t : Terminal} (h : t ∈ acceptable s) : s < 100 := by
  refine Nat.lt_of_not_le fun hs => ?_
  rw [acceptable, stateRow_of_le hs] at h
  exact absurd h List.not_mem_nil

theorem mode_of_shift {s target : State} {t : Terminal}
    (h : (stateRow s).shifts.lookup t = some target) :
    (stateMode s).step? t = some (stateMode target) := by
  have hmem := mem_of_lookup h
  rcases Nat.lt_or_ge s 100 with hs | hs
  · exact beq_iff_eq.mp (List.all_eq_true.mp (rows_step s hs) (t, target) hmem)
  · rw [stateRow_of_le hs] at hmem
    exact absurd hmem List.not_mem_nil

theorem mode_of_goto {s target : State} {n : Nonterminal} (h : goto? s n = some target) :
    stateMode target = n.finish := by
  have hmem := mem_of_lookup h
  rcases Nat.lt_or_ge s 100 with hs | hs
  · have hmodes := List.all_eq_true.mp (rows_go s hs) (n, target) hmem
    exact beq_iff_eq.mp (Bool.and_eq_true_iff.mp hmodes).2
  · rw [stateRow_of_le hs] at hmem
    exact absurd hmem List.not_mem_nil

theorem mode_of_complete {s : State} {r : Rule} (h : (stateRow s).complete = some r) :
    stateMode s = r.lhs.finish ∧
      ∀ t ∈ r.lhs.follow, t ≠ .endOfText → ((stateMode s).step? t).isSome = true := by
  rcases Nat.lt_or_ge s 100 with hs | hs
  · have hrow := rows_close s hs
    unfold closesInMode at hrow
    rw [h] at hrow
    obtain ⟨hmode, hfollow⟩ := Bool.and_eq_true_iff.mp hrow
    refine ⟨beq_iff_eq.mp hmode, fun t ht hend => ?_⟩
    refine (Bool.or_eq_true_iff.mp (List.all_eq_true.mp hfollow t ht)).resolve_left fun heq => ?_
    exact hend (beq_iff_eq.mp heq)
  · rw [stateRow_of_le hs] at h
    cases h

/-- What is acceptable in a state leads on in its mode, the end of the text apart. -/
theorem step?_of_acceptable {s : State} {t : Terminal} (h : t ∈ acceptable s)
    (hend : t ≠ .endOfText) : ((stateMode s).step? t).isSome = true := by
  rcases List.mem_append.mp h with hshift | hfollow
  · obtain ⟨⟨u, target⟩, hmem, rfl⟩ := List.mem_map.mp hshift
    have hmode := List.all_eq_true.mp (rows_step s (lt_of_acceptable h)) _ hmem
    rw [beq_iff_eq.mp hmode]
    rfl
  · cases hcomplete : (stateRow s).complete with
    | none =>
      rw [hcomplete] at hfollow
      exact absurd hfollow List.not_mem_nil
    | some r =>
      rw [hcomplete] at hfollow
      exact (mode_of_complete hcomplete).2 t hfollow hend

/-- A word of the language is acceptable in a state of the table exactly if it leads on in the mode
    of the state. -/
theorem keyword_acceptable_iff {s : State} (hs : s < 100) {t : Terminal}
    (ht : t.isKeyword = true) : t ∈ acceptable s ↔ ((stateMode s).step? t).isSome = true := by
  have hmem : t ∈ [Terminal.letWord, .functionWord, .printWord, .whileWord, .trueWord,
      .falseWord] := by
    cases t <;> first | decide | cases ht
  have hrow := beq_iff_eq.mp (List.all_eq_true.mp (rows_words s hs) t hmem)
  rw [← hrow, List.contains_iff_mem]

/-! ## Modes and the stack -/

/-- A token that is put on top is shifted in some state of the same mode: closing rules before
    leaves the mode as it is. -/
theorem exists_shift_of_feed {token : Token} {stack shifted : Stack}
    (h : feed token stack = .shifted shifted) :
    ∃ s, (stateRow s).shifts.lookup token.terminal = some shifted.state ∧
      stateMode s = stateMode stack.state := by
  fun_induction feed token stack with
  | case1 => cases h
  | case2 stack target hmove =>
    obtain rfl := Fed.shifted.inj h
    unfold move? at hmove
    split at hmove
    · rename_i found hshift
      obtain rfl := Move.shift.inj (Option.some.inj hmove)
      exact ⟨stack.state, hshift, rfl⟩
    · split at hmove
      · split at hmove <;> cases hmove
      · cases hmove
  | case3 => cases h
  | case4 => cases h
  | case5 stack rule hmove hprogram closed hclose hweight ih =>
    obtain ⟨s, hshift, hmode⟩ := ih h
    obtain ⟨target, hgoto, rfl⟩ := Option.map_eq_some_iff.mp hclose
    have hcomplete := complete_of_live (live_of_move? hmove)
    exact ⟨s, hshift, (hmode.trans (mode_of_goto hgoto)).trans (mode_of_complete hcomplete).1.symm⟩
  | case6 => cases h

/-- **A token that is put on top leads from mode to mode**, as its terminal does. -/
theorem mode_of_feed {token : Token} {stack shifted : Stack}
    (h : feed token stack = .shifted shifted) :
    (stateMode stack.state).step? token.terminal = some (stateMode shifted.state) := by
  obtain ⟨s, hshift, hmode⟩ := exists_shift_of_feed h
  rw [← hmode]
  exact mode_of_shift hshift

/-- After a token that has been put on top, a power can come wherever a multiplication can. -/
theorem pow_acceptable_of_feed {token : Token} {stack shifted : Stack}
    (h : feed token stack = .shifted shifted) (hstar : .star ∈ acceptable shifted.state) :
    .pow ∈ acceptable shifted.state := by
  obtain ⟨s, hshift, -⟩ := exists_shift_of_feed h
  have hmem := mem_of_lookup hshift
  have hs : s < 100 := lt_of_acceptable (List.mem_append_left _ (List.mem_map_of_mem hmem))
  exact rows_pow s hs _ hmem hstar

end BellaLang
