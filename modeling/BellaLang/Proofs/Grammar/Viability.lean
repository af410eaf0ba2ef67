import BellaLang.Proofs.Grammar.Completeness
import BellaLang.Proofs.Grammar.Soundness

/-!
Whatever the automaton has read can be completed to a program.

The stack of the reader is a path, and on a path some rule is under way in the state on top.  What
is still to be read of that rule can be filled in, since there are phrases of every kind
(`exists_phrase`); then the rule is closed.  Going on like this ends in a program, if the rule is
chosen such that the stack gets lighter (`Item.lightens`).

  1. A check over the rows of the table: wherever a state is entered there is such a rule under way
     (`exists_lightens`).
  2. Filling in the rule keeps the stack a path, with the same tokens and some more
     (`IsPath.exists_lighter`).

Main statement: `Stack.IsPath.viable`.
-/

namespace BellaLang

/-! ## There are phrases of every kind -/

/-- A rule that makes such a phrase from as little as can be. -/
def Nonterminal.plainRule : Nonterminal → Rule
  | .program => .emptyProgram
  | .statements => .firstStatement
  | .statement => .print
  | .params => .oneParam
  | .moreParams => .secondParam
  | .block => .emptyBlock
  | .exp => .disjunctionAlone
  | .disjunction => .conjunctionAlone
  | .conjunction => .comparisonAlone
  | .comparison => .sumAlone
  | .sum => .productAlone
  | .product => .unaryAlone
  | .unary => .powerAlone
  | .power => .suffixedAlone
  | .suffixed => .primaryAlone
  | .primary => .name
  | .args => .oneArg
  | .moreArgs => .secondArg

/-- How many plain rules there are one inside the other. -/
def Nonterminal.depth : Nonterminal → Nat
  | .program | .params | .moreParams | .block | .primary => 0
  | .suffixed => 1
  | .power => 2
  | .unary => 3
  | .product => 4
  | .sum => 5
  | .comparison => 6
  | .conjunction => 7
  | .disjunction => 8
  | .exp => 9
  | .statement | .args | .moreArgs => 10
  | .statements => 11

theorem Nonterminal.plainRule_lhs (n : Nonterminal) : n.plainRule.lhs = n := by cases n <;> rfl

theorem Nonterminal.depth_lt {n m : Nonterminal} (h : .phrase m ∈ n.plainRule.rhs) :
    m.depth < n.depth := by
  revert m
  cases n <;> simp [plainRule, Rule.rhs, depth]

/-- There are derivations from a row of symbols, if there are some from its kinds of phrases. -/
theorem exists_row (symbols : List GrammarSymbol)
    (h : ∀ n, .phrase n ∈ symbols → ∃ d : Derivation, d.IsGrammatical ∧ d.symbol = .phrase n) :
    ∃ row : List Derivation, (∀ d ∈ row, d.IsGrammatical) ∧
      row.map Derivation.symbol = symbols := by
  induction symbols with
  | nil => exact ⟨[], fun d hd => absurd hd List.not_mem_nil, rfl⟩
  | cons symbol rest ih =>
    obtain ⟨d, hd, hsymbol⟩ : ∃ d : Derivation, d.IsGrammatical ∧ d.symbol = symbol := by
      cases symbol with
      | token t => exact ⟨.leaf ⟨t, [], ⟨1, 1, 0, 0⟩⟩, .leaf _, rfl⟩
      | phrase n => exact h n List.mem_cons_self
    obtain ⟨row, hrow, hsymbols⟩ := ih fun n hn => h n (List.mem_cons_of_mem symbol hn)
    exact ⟨d :: row, List.forall_mem_cons.mpr ⟨hd, hrow⟩, by rw [List.map_cons, hsymbol, hsymbols]⟩

/-- There is a derivation from every kind of phrase: the plain one. -/
theorem exists_phrase (n : Nonterminal) :
    ∃ d : Derivation, d.IsGrammatical ∧ d.symbol = .phrase n := by
  induction hdepth : n.depth using Nat.strongRecOn generalizing n with
  | ind depth ih =>
    obtain ⟨row, hrow, hsymbols⟩ := exists_row n.plainRule.rhs fun m hm =>
      ih m.depth (hdepth ▸ Nonterminal.depth_lt hm) m rfl
    exact ⟨.ofRule n.plainRule row, .ofRule _ row hsymbols hrow,
      congrArg GrammarSymbol.phrase n.plainRule_lhs⟩

/-! ## A rule to go on with -/

/-- If the phrase of this rule takes the place of what has been read of it, there is nothing left
    to do or the stack gets lighter. -/
def Item.lightens (item : Item) : Bool :=
  item.rule.lhs == .program || decide (2 ≤ item.read) ||
    item.rule.rhs.head?.any fun symbol => decide (symbol.rank < item.rule.lhs.rank)

/-- Some rule to go on with is under way in every state that this one leads to. -/
def leadsOn (s : State) : Bool :=
  ((stateRow s).shifts.all fun (_, target) => (underWay target).any Item.lightens) &&
    (stateRow s).gotos.all fun (_, target) => (underWay target).any Item.lightens

theorem rows_leadOn : ∀ s < 100, leadsOn s = true := by decide +kernel

/-- Wherever a state is entered, there is a rule to go on with. -/
theorem exists_lightens {s target : State} {symbol : GrammarSymbol}
    (h : successor? s symbol = some target) :
    ∃ item ∈ underWay target, item.lightens = true := by
  rw [← List.any_eq_true]
  rcases Nat.lt_or_ge s 100 with hs | hs
  · obtain ⟨hshifts, hgotos⟩ := Bool.and_eq_true_iff.mp (rows_leadOn s hs)
    cases symbol with
    | token t => exact List.all_eq_true.mp hshifts (t, target) (mem_of_lookup h)
    | phrase n => exact List.all_eq_true.mp hgotos (n, target) (mem_of_lookup h)
  · cases symbol <;> simp [successor?, goto?, stateRow_of_le hs] at h

/-- The stack gets lighter, if the phrase of a rule to go on with takes the place of what has been
    read of it. -/
theorem Item.weight_lt {item : Item} (h : item.lightens = true) (hlhs : item.rule.lhs ≠ .program)
    {entries : Stack} (hread : entries.length = item.read) (hpos : item.read ≠ 0)
    (hsymbols : (entries.reverse.map fun entry => entry.derivation.symbol) =
      item.rule.rhs.take item.read) (below : Stack) (target : State)
    (children : List Derivation) :
    Stack.weight (⟨target, .ofRule item.rule children⟩ :: below) <
      Stack.weight (entries ++ below) := by
  refine Stack.weight_replace_lt ?_ below target children
  rcases Nat.lt_or_ge item.read 2 with hlt | hle
  · have hone : item.read = 1 := by omega
    obtain ⟨top, rfl⟩ := List.length_eq_one_iff.mp (hread.trans hone)
    have hhead := congrArg List.head? hsymbols
    rw [List.head?_take, if_neg hpos] at hhead
    unfold lightens at h
    rw [beq_eq_false_iff_ne.mpr hlhs, hone, ← hhead] at h
    exact .inr ⟨top, rfl, by simpa using h⟩
  · exact .inl (by rw [hread]; exact hle)

/-! ## Completing a path -/

/-- From a path that is not empty, some tokens lead to a program or to a lighter path. -/
theorem Stack.IsPath.exists_lighter {stack : Stack} (h : stack.IsPath) (hne : stack ≠ []) :
    ∃ more : List Token, (∃ d : Derivation, d.IsProgramOf (stack.tokens ++ more)) ∨
      ∃ lighter : Stack, lighter.IsPath ∧ lighter.weight < stack.weight ∧
        lighter.tokens = stack.tokens ++ more := by
  obtain ⟨item, hitem, hlightens⟩ : ∃ item ∈ underWay stack.state, item.lightens = true := by
    cases h with
    | empty => exact absurd rfl hne
    | push hstate _ _ => exact exists_lightens hstate
  obtain ⟨hspelled, hbegins⟩ := h.spells (live_of_mem hitem)
  have hread : (stack.take item.read).length = item.read := by
    have hlength := congrArg List.length hspelled
    rw [List.length_map, List.length_reverse, List.length_take, List.length_take] at hlength
    have hle : item.read ≤ item.rule.rhs.length := by
      cases h with
      | empty => exact absurd rfl hne
      | push hstate _ _ =>
        obtain ⟨k, hk, hsymbol, -⟩ := (retreat hstate).2 item hitem
        rw [hk]
        exact (List.getElem?_eq_some_iff.mp hsymbol).1
    rw [List.length_take]
    omega
  -- What is still to be read of the rule is filled in.
  obtain ⟨row, hrow, hsymbols⟩ := exists_row (item.rule.rhs.drop item.read)
    fun n _ => exists_phrase n
  have hgrammatical : (Derivation.ofRule item.rule
      ((stack.take item.read).reverse.map (·.derivation) ++ row)).IsGrammatical := by
    refine .ofRule _ _ ?_ fun child hchild => ?_
    · rw [List.map_append, List.map_map, hsymbols]
      exact (congrArg (· ++ _) hspelled).trans (List.take_append_drop _ _)
    · rcases List.mem_append.mp hchild with hchild | hchild
      · obtain ⟨entry, hentry, rfl⟩ := List.mem_map.mp hchild
        exact h.grammatical_of_mem (List.mem_of_mem_take (List.mem_reverse.mp hentry))
      · exact hrow child hchild
  have htokens : Stack.tokens (stack.drop item.read) ++ (Derivation.ofRule item.rule
      ((stack.take item.read).reverse.map (·.derivation) ++ row)).tokens =
      stack.tokens ++ row.flatMap Derivation.tokens := by
    rw [Derivation.tokens_ofRule, List.flatMap_append, ← List.append_assoc,
      ← stack.tokens_take_drop]
  refine ⟨row.flatMap Derivation.tokens, ?_⟩
  by_cases hlhs : item.rule.lhs = .program
  · left
    have hzero : Stack.state (stack.drop item.read) = 0 := by
      rw [begins, hlhs, goto?_program] at hbegins
      exact beq_iff_eq.mp (Bool.and_eq_true_iff.mp hbegins).1
    rw [(h.drop _).eq_nil hzero] at htokens
    exact ⟨_, hgrammatical, congrArg GrammarSymbol.phrase hlhs, htokens⟩
  · right
    obtain ⟨target, hgoto⟩ : ∃ target,
        goto? (Stack.state (stack.drop item.read)) item.rule.lhs = some target := by
      rw [begins, beq_eq_false_iff_ne.mpr hlhs, Bool.and_false, Bool.or_false] at hbegins
      exact Option.isSome_iff_exists.mp hbegins
    refine ⟨⟨target, .ofRule item.rule _⟩ :: stack.drop item.read,
      .push hgoto hgrammatical (h.drop _), ?_, (Stack.tokens_cons _ _).trans htokens⟩
    · have hweight := Item.weight_lt hlightens hlhs hread (h.read_ne_zero hitem) hspelled
        (stack.drop item.read) target ((stack.take item.read).reverse.map (·.derivation) ++ row)
      rw [List.take_append_drop] at hweight
      exact hweight

/-- **Viability.**  Whatever the automaton has read are the first tokens of a program. -/
theorem Stack.IsPath.viable {stack : Stack} (h : stack.IsPath) :
    ∃ (more : List Token) (d : Derivation), d.IsProgramOf (stack.tokens ++ more) := by
  induction hweight : stack.weight using Nat.strongRecOn generalizing stack with
  | ind weight ih =>
    by_cases hne : stack = []
    · rw [hne]
      exact ⟨[], .ofRule .emptyProgram [], .ofRule _ [] rfl nofun, rfl, rfl⟩
    · obtain ⟨more, ⟨d, hd⟩ | ⟨lighter, hpath, hlighter, htokens⟩⟩ := h.exists_lighter hne
      · exact ⟨more, d, hd⟩
      · obtain ⟨others, d, hd⟩ := ih lighter.weight (hweight ▸ hlighter) hpath rfl
        rw [htokens, List.append_assoc] at hd
        exact ⟨more ++ others, d, hd⟩

end BellaLang
