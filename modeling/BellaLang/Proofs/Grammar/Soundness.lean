import BellaLang.Proofs.Grammar.Run

/-!
What the automaton makes is a grammatical derivation of exactly the tokens it was fed.

The invariant of the reader is about its whole stack: it is a *path*, each entry a grammatical
derivation whose symbol leads from the state below to its own state (`Stack.IsPath`).  From the
state on top the last symbols on a path can be told: of a rule that has been read up to some point,
just the symbols read so far (`IsPath.spells`).  So a rule is closed over its own right-hand side,
and the program is complete only where nothing is left below it.

Each move keeps the invariant and no token is lost or moved (`feed_sound`), hence a whole run does
(`readTokens_sound`).
-/

namespace BellaLang

/-! ## Paths -/

/-- Every entry is grammatical, and its symbol leads from the state below to its own state. -/
inductive Stack.IsPath : Stack → Prop
  | empty : IsPath []
  | push {entry : Entry} {below : Stack}
      (hstate : successor? (Stack.state below) entry.derivation.symbol = some entry.state)
      (hgrammatical : entry.derivation.IsGrammatical) (hbelow : IsPath below) :
      IsPath (entry :: below)

/-- The tokens that have been read, in order. -/
def Stack.tokens (stack : Stack) : List Token :=
  stack.reverse.flatMap fun entry => entry.derivation.tokens

theorem Stack.tokens_cons (entry : Entry) (below : Stack) :
    Stack.tokens (entry :: below) = Stack.tokens below ++ entry.derivation.tokens := by
  rw [tokens, tokens, List.reverse_cons, List.flatMap_append, List.flatMap_singleton]

/-- The tokens of a stack are those of its lower part and then those above. -/
theorem Stack.tokens_take_drop (stack : Stack) (k : Nat) :
    Stack.tokens stack = Stack.tokens (stack.drop k) ++
      ((stack.take k).reverse.map (·.derivation)).flatMap Derivation.tokens := by
  unfold tokens
  rw [List.flatMap_map, ← List.flatMap_append, ← List.reverse_append, List.take_append_drop]

namespace Stack.IsPath

/-- Only the empty stack is in the first state. -/
theorem eq_nil {stack : Stack} (h : stack.IsPath) (hzero : stack.state = 0) : stack = [] := by
  cases h with
  | empty => rfl
  | push hstate hgrammatical hbelow => exact absurd hzero (retreat hstate).1

/-- A rule under way in the state on top has been read up to some point. -/
theorem read_ne_zero {stack : Stack} (h : stack.IsPath) {item : Item}
    (hitem : item ∈ underWay stack.state) : item.read ≠ 0 := by
  cases h with
  | empty => exact absurd hitem List.not_mem_nil
  | push hstate hgrammatical hbelow =>
    obtain ⟨k, hk, -⟩ := (retreat hstate).2 item hitem
    rw [hk]
    exact Nat.succ_ne_zero k

theorem drop {stack : Stack} (h : stack.IsPath) (k : Nat) : Stack.IsPath (stack.drop k) := by
  induction h generalizing k with
  | empty => rw [List.drop_nil]; exact .empty
  | push hstate hgrammatical hbelow ih =>
    cases k with
    | zero => exact .push hstate hgrammatical hbelow
    | succ k => exact ih k

theorem grammatical_of_mem {stack : Stack} (h : stack.IsPath) {entry : Entry}
    (hentry : entry ∈ stack) : entry.derivation.IsGrammatical := by
  induction h with
  | empty => exact absurd hentry List.not_mem_nil
  | push hstate hgrammatical hbelow ih =>
    rcases List.mem_cons.mp hentry with rfl | hentry
    · exact hgrammatical
    · exact ih hentry

/-- **What lies on top.**  If a rule has been read up to some point, the symbols on top are those of
    the rule up to that point, and below them the rule could begin. -/
theorem spells {stack : Stack} (h : stack.IsPath) {r : Rule} {k : Nat}
    (hlive : live stack.state ⟨r, k⟩ = true) :
    ((stack.take k).reverse.map fun entry => entry.derivation.symbol) = r.rhs.take k ∧
      begins (Stack.state (stack.drop k)) r = true := by
  induction k generalizing stack with
  | zero =>
    refine ⟨rfl, ?_⟩
    rcases mem_or_begins_of_live hlive with hmem | ⟨-, hbegins⟩
    · exact absurd rfl (h.read_ne_zero hmem)
    · exact hbegins
  | succ k ih =>
    have hmem : (⟨r, k + 1⟩ : Item) ∈ underWay stack.state := by
      rcases mem_or_begins_of_live hlive with hmem | ⟨hread, -⟩
      · exact hmem
      · exact absurd hread (Nat.succ_ne_zero k)
    cases h with
    | empty => exact absurd hmem List.not_mem_nil
    | @push entry below hstate hgrammatical hbelow =>
      obtain ⟨j, hj, hsymbol, hlive⟩ := (retreat hstate).2 _ hmem
      obtain rfl : k = j := Nat.succ.inj hj
      obtain ⟨hspelled, hbegins⟩ := ih hbelow hlive
      refine ⟨?_, hbegins⟩
      rw [List.take_succ_cons, List.reverse_cons, List.map_append, hspelled, List.take_add_one,
        hsymbol]
      rfl

end Stack.IsPath

/-! ## Closing a rule on a path -/

/-- A program begins in the first state only. -/
theorem goto?_program (s : State) : goto? s .program = none := by
  rcases Nat.lt_or_ge s 100 with hs | hs
  · have hrows : ∀ s < 100, goto? s .program = none := by decide +kernel
    exact hrows s hs
  · rw [goto?, stateRow_of_le hs]
    rfl

/-- A rule is closed only where it has been read to its end. -/
theorem live_of_move? {s : State} {t : Terminal} {r : Rule} (h : move? s t = some (.reduce r)) :
    live s ⟨r, r.rhs.length⟩ = true := by
  unfold move? at h
  split at h
  · cases h
  · split at h
    · rename_i rule hcomplete
      split at h
      · cases h
        exact (live_of_complete hcomplete).1
      · cases h
    · cases h

/-- The phrase made by closing a rule on a path is grammatical. -/
theorem Stack.IsPath.grammatical_ofRule {stack : Stack} (h : stack.IsPath) {r : Rule}
    (hlive : live stack.state ⟨r, r.rhs.length⟩ = true) :
    (Derivation.ofRule r (stack.parts r)).IsGrammatical := by
  refine .ofRule r _ ?_ ?_
  · obtain ⟨hspelled, -⟩ := h.spells hlive
    rw [List.take_length] at hspelled
    rw [← hspelled, parts, List.map_map]
    rfl
  · intro child hchild
    obtain ⟨entry, hentry, rfl⟩ := List.mem_map.mp hchild
    exact h.grammatical_of_mem (List.mem_of_mem_take (List.mem_reverse.mp hentry))

/-- Closing a rule on a path makes a path with the same tokens. -/
theorem Stack.IsPath.close {stack closed : Stack} (h : stack.IsPath) {r : Rule}
    (hlive : live stack.state ⟨r, r.rhs.length⟩ = true) (hclose : stack.close? r = some closed) :
    closed.IsPath ∧ closed.tokens = stack.tokens := by
  unfold Stack.close? at hclose
  obtain ⟨target, hgoto, rfl⟩ := Option.map_eq_some_iff.mp hclose
  refine ⟨.push hgoto (h.grammatical_ofRule hlive) (h.drop _), ?_⟩
  rw [Stack.tokens_cons, Derivation.tokens_ofRule, Stack.parts, ← stack.tokens_take_drop]

/-- Where the rule of a program is closed, there is nothing below it. -/
theorem Stack.IsPath.finish {stack : Stack} (h : stack.IsPath) {r : Rule}
    (hlive : live stack.state ⟨r, r.rhs.length⟩ = true) (hr : r.lhs = .program) :
    (Derivation.ofRule r (stack.parts r)).IsProgramOf stack.tokens := by
  have hzero : Stack.state (stack.drop r.rhs.length) = 0 := by
    obtain ⟨-, hbegins⟩ := h.spells hlive
    rw [begins, hr, goto?_program] at hbegins
    exact beq_iff_eq.mp (Bool.and_eq_true_iff.mp hbegins).1
  refine ⟨h.grammatical_ofRule hlive, congrArg GrammarSymbol.phrase hr, ?_⟩
  rw [stack.tokens_take_drop r.rhs.length, (h.drop _).eq_nil hzero, Derivation.tokens_ofRule]
  rfl

/-! ## Runs -/

/-- What may become of a token on a stack. -/
def Fed.IsSound (token : Token) (stack : Stack) : Fed → Prop
  | .shifted after => after.IsPath ∧ after.tokens = stack.tokens ++ [token]
  | .finished derivation => derivation.IsProgramOf stack.tokens
  | .refused _ => True

/-- Feeding a token keeps the stack a path and loses no token, or completes the program. -/
theorem feed_sound {token : Token} {stack : Stack} (h : stack.IsPath) :
    (feed token stack).IsSound token stack := by
  fun_induction feed token stack with
  | case1 stack hmove => trivial
  | case2 stack target hmove =>
    refine ⟨.push ?_ (.leaf token) h, Stack.tokens_cons _ _⟩
    unfold move? at hmove
    split at hmove
    · rename_i found hshift
      cases hmove
      exact hshift
    · split at hmove
      · split at hmove <;> cases hmove
      · cases hmove
  | case3 stack rule hmove hprogram => exact h.finish (live_of_move? hmove) hprogram
  | case4 stack rule hmove hprogram hclose => trivial
  | case5 stack rule hmove hprogram closed hclose hweight ih =>
    obtain ⟨hpath, htokens⟩ := h.close (live_of_move? hmove) hclose
    have hsound := ih hpath
    revert hsound
    cases feed token closed with
    | shifted after => exact fun hsound => ⟨hsound.1, by rw [hsound.2, htokens]⟩
    | finished derivation =>
      intro hsound
      have hprogram : derivation.IsProgramOf closed.tokens := hsound
      rw [htokens] at hprogram
      exact hprogram
    | refused s => exact fun _ => trivial
  | case6 stack rule hmove hprogram closed hclose hweight => trivial

/-- **Soundness.**  A derivation that the automaton makes from a path and a row of tokens is a
    grammatical derivation of a program, and its tokens are those on the path and then the row. -/
theorem readTokens_sound {stack : Stack} (h : stack.IsPath) {tokens : List Token}
    {derivation : Derivation} (hread : readTokens stack tokens = some derivation) :
    derivation.IsProgramOf (stack.tokens ++ tokens) := by
  induction tokens generalizing stack with
  | nil =>
    have hsound : (feed (endToken none) stack).IsSound (endToken none) stack := feed_sound h
    rw [readTokens] at hread
    cases hfeed : feed (endToken none) stack with
    | finished made =>
      rw [hfeed] at hread hsound
      rw [List.append_nil, ← Option.some.inj hread]
      exact hsound
    | shifted after => rw [hfeed] at hread; cases hread
    | refused s => rw [hfeed] at hread; cases hread
  | cons token rest ih =>
    have hsound : (feed token stack).IsSound token stack := feed_sound h
    rw [readTokens] at hread
    cases hfeed : feed token stack with
    | shifted after =>
      rw [hfeed] at hread hsound
      obtain ⟨hpath, htokens⟩ := hsound
      have hrest := ih hpath hread
      rw [htokens, List.append_assoc] at hrest
      exact hrest
    | finished made => rw [hfeed] at hread; cases hread
    | refused s => rw [hfeed] at hread; cases hread

end BellaLang
