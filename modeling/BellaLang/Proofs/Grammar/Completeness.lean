import BellaLang.Proofs.Grammar.Run

/-!
The automaton reads every program of the grammar, and each in one way only.

A grammatical derivation says what the automaton has to do: put its tokens on the stack, and close
its rules from the leaves to the root.  That it does just this is an induction on the derivation.

  1. Before a phrase, the state lets each of its rules begin; reading the parts of a rule one after
     the other keeps the rule live (`reads_row`).
  2. After the last part the next terminal can follow the phrase, so the rule is closed, and the
     phrase takes the place of its parts (`IsGrammatical.reads`).

Since the automaton never has a choice, two grammatical derivations of the same tokens are the same
(`IsProgramOf.unique`).
-/

namespace BellaLang

/-! ## What every rule observes -/

/-- The start of the grammar is no part of anything. -/
theorem Rule.program_not_mem_rhs (r : Rule) : .phrase .program ∉ r.rhs := by cases r <;> decide

/-- Only a program can be made from nothing. -/
theorem Rule.rhs_ne_nil {r : Rule} (h : r.lhs ≠ .program) : r.rhs ≠ [] := by
  cases r <;> first | exact List.cons_ne_nil _ _ | exact absurd rfl h

/-- A phrase that is made of a single part ranks above it. -/
theorem Rule.rank_lt {r : Rule} {symbol : GrammarSymbol} (h : r.rhs = [symbol]) :
    symbol.rank < r.lhs.rank := by
  cases r <;> cases h <;> decide

theorem Nonterminal.rank_pos (n : Nonterminal) : 0 < n.rank := by cases n <;> decide

theorem GrammarSymbol.rank_le (symbol : GrammarSymbol) : symbol.rank ≤ 11 := by
  cases symbol with
  | token t => exact Nat.zero_le _
  | phrase n => cases n <;> decide

/-! ## First tokens -/

/-- A grammatical derivation, unless it is a whole program, has a first token, and that is one its
    symbol can begin with. -/
theorem Derivation.IsGrammatical.exists_first {d : Derivation} (h : d.IsGrammatical)
    (hd : d.symbol ≠ .phrase .program) :
    ∃ token rest, d.tokens = token :: rest ∧ token.terminal ∈ d.symbol.first := by
  induction h with
  | leaf token => exact ⟨token, [], rfl, List.mem_singleton_self _⟩
  | ofRule rule children hsymbols hchildren ih =>
    have hlhs : rule.lhs ≠ .program := fun h => hd (congrArg GrammarSymbol.phrase h)
    cases children with
    | nil => exact absurd hsymbols.symm (Rule.rhs_ne_nil hlhs)
    | cons child others =>
      have hhead : rule.rhs[0]? = some child.symbol := by rw [← hsymbols]; rfl
      have hchild : child.symbol ≠ .phrase .program := by
        intro h
        exact rule.program_not_mem_rhs (h ▸ List.mem_of_getElem? hhead)
      obtain ⟨token, rest, htokens, hfirst⟩ := ih child List.mem_cons_self hchild
      refine ⟨token, rest ++ others.flatMap Derivation.tokens, ?_, first_of_rule rule hhead hfirst⟩
      rw [tokens_ofRule, List.flatMap_cons, htokens, List.cons_append]

/-! ## Reading a derivation -/

/-- Where the symbol of the derivation leads on, and what comes next can follow it, the automaton
    reads the tokens of the derivation and puts the derivation on top. -/
def Derivation.Reads (d : Derivation) : Prop :=
  ∀ (stack : Stack) (target : State) (rest : List Token),
    successor? stack.state d.symbol = some target →
    (∀ n, d.symbol = .phrase n → upcoming rest ∈ n.follow) →
    readTokens stack (d.tokens ++ rest) = readTokens (⟨target, d⟩ :: stack) rest

/-- Reading the parts of a rule one after the other.  The rule has been read up to `front`, and
    stays live in every state on the way; the induction is on the parts still to come. -/
theorem reads_row (r : Rule) {parts : List Derivation}
    (hgrammatical : ∀ d ∈ parts, d.IsGrammatical) (hreads : ∀ d ∈ parts, d.Reads)
    (front : List GrammarSymbol) (hrhs : r.rhs = front ++ parts.map Derivation.symbol)
    (stack : Stack) (hlive : live stack.state ⟨r, front.length⟩ = true) (rest : List Token)
    (hfollow : upcoming rest ∈ r.lhs.follow) :
    ∃ entries : Stack, entries.reverse.map (·.derivation) = parts ∧
      live (Stack.state (entries ++ stack)) ⟨r, r.rhs.length⟩ = true ∧
      readTokens stack (parts.flatMap Derivation.tokens ++ rest) =
        readTokens (entries ++ stack) rest := by
  induction parts generalizing front stack with
  | nil =>
    have hlength : r.rhs.length = front.length := by rw [hrhs, List.map_nil, List.append_nil]
    exact ⟨[], rfl, by rw [hlength]; exact hlive, rfl⟩
  | cons d others ih =>
    have hhere : r.rhs[front.length]? = some d.symbol := by
      rw [hrhs, List.getElem?_append_right (Nat.le_refl _), Nat.sub_self]
      rfl
    have hnext : r.rhs[front.length + 1]? = (others.map Derivation.symbol)[0]? := by
      rw [hrhs, List.getElem?_append_right (Nat.le_succ _), Nat.succ_sub (Nat.le_refl _),
        Nat.sub_self]
      rfl
    obtain ⟨target, htarget, hlive⟩ := advance hlive hhere
    have hahead : ∀ n, d.symbol = .phrase n →
        upcoming (others.flatMap Derivation.tokens ++ rest) ∈ n.follow := by
      intro n hn
      rw [hn] at hhere
      cases others with
      | nil => exact follow_of_last hhere hnext hfollow
      | cons second _ =>
        have hsecond : second.symbol ≠ .phrase .program := by
          intro h
          exact r.program_not_mem_rhs (h ▸ List.mem_of_getElem? hnext)
        obtain ⟨token, tail, htokens, hfirst⟩ :=
          (hgrammatical second (by simp)).exists_first hsecond
        rw [List.flatMap_cons, htokens]
        exact follow_of_between hhere hnext hfirst
    obtain ⟨entries, hentries, hlast, hrun⟩ := ih
      (fun e he => hgrammatical e (List.mem_cons_of_mem d he))
      (fun e he => hreads e (List.mem_cons_of_mem d he)) (front ++ [d.symbol])
      (by rw [hrhs, List.map_cons, List.append_assoc]; rfl) (⟨target, d⟩ :: stack)
      (by rw [List.length_append]; exact hlive)
    refine ⟨entries ++ [⟨target, d⟩], ?_, ?_, ?_⟩
    · rw [List.reverse_append, List.map_append, hentries]
      rfl
    · rw [List.append_assoc]
      exact hlast
    · rw [List.flatMap_cons, List.append_assoc,
        hreads d List.mem_cons_self stack target _ htarget hahead, hrun, List.append_assoc]
      rfl

/-! ## Closing a rule -/

theorem Stack.parts_append {entries : Stack} {r : Rule} (h : entries.length = r.rhs.length)
    (stack : Stack) : Stack.parts (entries ++ stack) r = entries.reverse.map (·.derivation) := by
  rw [parts, ← h, List.take_left]

/-- Closing a rule puts the phrase in the place of its parts. -/
theorem Stack.close?_append {entries stack : Stack} {r : Rule} {target : State}
    (h : entries.length = r.rhs.length) (hgoto : goto? stack.state r.lhs = some target) :
    Stack.close? (entries ++ stack) r =
      some (⟨target, .ofRule r (entries.reverse.map (·.derivation))⟩ :: stack) := by
  rw [close?, parts_append h, ← h, List.drop_left, hgoto]
  rfl

/-- The stack gets lighter, if a phrase takes the place of several entries, or of a single one that
    it ranks above. -/
theorem Stack.weight_replace_lt {entries : Stack} {r : Rule}
    (h : 2 ≤ entries.length ∨
      ∃ top, entries = [top] ∧ top.derivation.symbol.rank < r.lhs.rank)
    (stack : Stack) (target : State) (children : List Derivation) :
    Stack.weight (⟨target, .ofRule r children⟩ :: stack) < Stack.weight (entries ++ stack) := by
  have hrank := Nonterminal.rank_pos r.lhs
  have hle : r.lhs.rank ≤ 11 := GrammarSymbol.rank_le (.phrase r.lhs)
  have hsymbol : (Derivation.ofRule r children).symbol.rank = r.lhs.rank := rfl
  rcases h with hlength | ⟨top, rfl, hlt⟩
  · match entries, hlength with
    | top :: second :: others, _ =>
      show 16 * (stack.length + 1) + (15 - _) <
        16 * ((second :: (others ++ stack)).length + 1) + (15 - _)
      rw [hsymbol, List.length_cons, List.length_append]
      omega
  · show 16 * (stack.length + 1) + (15 - _) < 16 * (stack.length + 1) + (15 - _)
    rw [hsymbol]
    omega

/-- Closing a rule makes the stack lighter, as the reader demands: either it gets shorter, or a
    single part is replaced by a phrase that ranks above it. -/
theorem Stack.weight_close_lt {entries stack : Stack} {r : Rule} {target : State}
    {children : List Derivation} (hr : r.lhs ≠ .program)
    (hsymbols : (entries.reverse.map fun e => e.derivation.symbol) = r.rhs) :
    Stack.weight (⟨target, .ofRule r children⟩ :: stack) < Stack.weight (entries ++ stack) := by
  refine Stack.weight_replace_lt ?_ stack target children
  match entries with
  | [] => exact absurd hsymbols.symm (Rule.rhs_ne_nil hr)
  | [top] => exact .inr ⟨top, rfl, Rule.rank_lt hsymbols.symm⟩
  | top :: second :: others => exact .inl (by simp)

/-! ## Every grammatical derivation is read -/

theorem Derivation.IsGrammatical.reads {d : Derivation} (h : d.IsGrammatical)
    (hd : d.symbol ≠ .phrase .program) : d.Reads := by
  induction h with
  | leaf token =>
    intro stack target rest htarget _
    have hshift : (stateRow stack.state).shifts.lookup token.terminal = some target := htarget
    exact readTokens_shift rest (by rw [move?, hshift])
  | ofRule rule children hsymbols hchildren ih =>
    intro stack target rest htarget hfollow
    have hlhs : rule.lhs ≠ .program := fun h => hd (congrArg GrammarSymbol.phrase h)
    have hgoto : goto? stack.state rule.lhs = some target := htarget
    have hbegins : begins stack.state rule = true := by
      rw [begins, hgoto]
      rfl
    have hnext : upcoming rest ∈ rule.lhs.follow := hfollow rule.lhs rfl
    obtain ⟨entries, hentries, hlast, hrun⟩ := reads_row rule hchildren
      (fun child hchild => ih child hchild fun h =>
        rule.program_not_mem_rhs (hsymbols ▸ h ▸ List.mem_map_of_mem hchild))
      [] hsymbols.symm stack (live_begin hbegins) rest hnext
    have hspelled : (entries.reverse.map fun e => e.derivation.symbol) = rule.rhs := by
      rw [← hsymbols, ← hentries, List.map_map]
      rfl
    have hlength : entries.length = rule.rhs.length := by
      rw [← hspelled, List.length_map, List.length_reverse]
    rw [tokens_ofRule, hrun, readTokens_reduce rest (move?_of_live hlast hnext) hlhs
      (Stack.close?_append hlength hgoto) (Stack.weight_close_lt hlhs hspelled), hentries]

/-- **Completeness.**  The automaton makes every grammatical derivation of its tokens. -/
theorem Derivation.IsProgramOf.readTokens_eq {d : Derivation} {tokens : List Token}
    (h : d.IsProgramOf tokens) : readTokens [] tokens = some d := by
  obtain ⟨hgrammatical, hsymbol, htokens⟩ := h
  obtain ⟨rule, children, rfl, hlhs, hsymbols, hchildren⟩ := hgrammatical.exists_rule hsymbol
  have hbegins : begins (Stack.state []) rule = true := by
    rw [begins, hlhs]
    rfl
  have hend : upcoming [] ∈ rule.lhs.follow := by
    rw [hlhs]
    exact List.mem_singleton_self _
  obtain ⟨entries, hentries, hlast, hrun⟩ := reads_row rule hchildren
    (fun child hchild => (hchildren child hchild).reads fun h =>
      rule.program_not_mem_rhs (hsymbols ▸ h ▸ List.mem_map_of_mem hchild))
    [] hsymbols.symm [] (live_begin hbegins) [] hend
  have hlength : entries.length = rule.rhs.length := by
    rw [← hsymbols, ← hentries, List.length_map, List.length_map, List.length_reverse]
  rw [← htokens, tokens_ofRule, ← List.append_nil (children.flatMap _), hrun,
    readTokens_finish (move?_of_live hlast hend) hlhs, Stack.parts_append hlength, hentries]

/-- **Unambiguity.**  No row of tokens has two grammatical derivations. -/
theorem Derivation.IsProgramOf.unique {d other : Derivation} {tokens : List Token}
    (h : d.IsProgramOf tokens) (hother : other.IsProgramOf tokens) : d = other :=
  Option.some.inj (h.readTokens_eq.symm.trans hother.readTokens_eq)

end BellaLang
