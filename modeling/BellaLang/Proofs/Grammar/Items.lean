import BellaLang.Grammar.Automaton

/-!
What the states of the automaton stand for, and why the table is right.

A state stands for the rules that may be under way, each read up to some point.  Here these points
are data (`underWayRows`), and four checks compare them with the table of moves, row by row:

  1. *closed*: whatever can be read next of a rule under way can be read in the table, and leads to
     a state where that rule is under way one symbol further on (`advance`, `complete_of_live`);
  2. *grounded*: a state is entered only over the last symbol read of every rule under way in it,
     from a state where that symbol was still to be read (`retreat`);
  3. *decided*: where a rule is complete it has been read to its end, and no terminal that can
     follow it can be read instead (`live_of_complete`);
  4. the sets of terminals that can begin and follow phrases are closed under the rules
     (`first_of_rule`, `follow_of_between`, `follow_of_last`).

Each check is one evaluation over the hundred rows.  What the reader does to its stack is argued
from these statements alone, never from the rows.
-/

namespace BellaLang

/-! ## Rules and points in them -/

/-- All the rules. -/
def Rule.all : List Rule :=
  [.emptyProgram, .program, .firstStatement, .nextStatement, .declaration,
   .functionWithoutParams, .function, .assignment, .print, .loop, .oneParam, .severalParams,
   .secondParam, .nextParam, .emptyBlock, .block, .conditional, .disjunctionAlone, .or,
   .conjunctionAlone, .and, .comparisonAlone, .compare, .sumAlone, .add, .subtract,
   .productAlone, .multiply, .divide, .remainder, .unaryAlone, .negate, .not, .powerAlone,
   .power, .suffixedAlone, .subscript, .primaryAlone, .numeral, .trueLiteral, .falseLiteral,
   .callWithoutArgs, .call, .name, .emptyArray, .array, .parenthesised, .oneArg, .severalArgs,
   .secondArg, .nextArg]

theorem Rule.mem_all (r : Rule) : r ∈ Rule.all := by cases r <;> decide

/-- A rule that has been read up to some point. -/
structure Item where
  rule : Rule
  read : Nat
deriving DecidableEq, Repr

/-- For each state the rules under way in it, without those that are just to begin. -/
def underWayRows : Array (List Item) := #[
  [], [⟨.assignment, 1⟩], [⟨.declaration, 1⟩], [⟨.functionWithoutParams, 1⟩, ⟨.function, 1⟩],
  [⟨.print, 1⟩], [⟨.loop, 1⟩], [⟨.program, 1⟩, ⟨.nextStatement, 1⟩], [⟨.firstStatement, 1⟩],
  [⟨.assignment, 2⟩], [⟨.declaration, 2⟩], [⟨.functionWithoutParams, 2⟩, ⟨.function, 2⟩],
  [⟨.numeral, 1⟩], [⟨.callWithoutArgs, 1⟩, ⟨.call, 1⟩, ⟨.name, 1⟩], [⟨.trueLiteral, 1⟩],
  [⟨.falseLiteral, 1⟩], [⟨.negate, 1⟩], [⟨.not, 1⟩], [⟨.parenthesised, 1⟩],
  [⟨.emptyArray, 1⟩, ⟨.array, 1⟩], [⟨.print, 2⟩],
  [⟨.conditional, 1⟩, ⟨.disjunctionAlone, 1⟩, ⟨.or, 1⟩], [⟨.conjunctionAlone, 1⟩, ⟨.and, 1⟩],
  [⟨.comparisonAlone, 1⟩], [⟨.compare, 1⟩, ⟨.sumAlone, 1⟩, ⟨.add, 1⟩, ⟨.subtract, 1⟩],
  [⟨.productAlone, 1⟩, ⟨.multiply, 1⟩, ⟨.divide, 1⟩, ⟨.remainder, 1⟩], [⟨.unaryAlone, 1⟩],
  [⟨.powerAlone, 1⟩], [⟨.power, 1⟩, ⟨.suffixedAlone, 1⟩, ⟨.subscript, 1⟩], [⟨.primaryAlone, 1⟩],
  [⟨.loop, 2⟩], [⟨.nextStatement, 2⟩], [⟨.assignment, 3⟩], [⟨.declaration, 3⟩],
  [⟨.functionWithoutParams, 3⟩, ⟨.function, 3⟩], [⟨.callWithoutArgs, 2⟩, ⟨.call, 2⟩],
  [⟨.negate, 2⟩], [⟨.not, 2⟩], [⟨.parenthesised, 2⟩], [⟨.emptyArray, 2⟩],
  [⟨.oneArg, 1⟩, ⟨.severalArgs, 1⟩], [⟨.array, 2⟩], [⟨.print, 3⟩], [⟨.or, 2⟩],
  [⟨.conditional, 2⟩], [⟨.and, 2⟩], [⟨.compare, 2⟩], [⟨.add, 2⟩], [⟨.subtract, 2⟩],
  [⟨.multiply, 2⟩], [⟨.divide, 2⟩], [⟨.remainder, 2⟩], [⟨.power, 2⟩], [⟨.subscript, 2⟩],
  [⟨.emptyBlock, 1⟩, ⟨.block, 1⟩], [⟨.loop, 3⟩], [⟨.assignment, 4⟩], [⟨.declaration, 4⟩],
  [⟨.oneParam, 1⟩, ⟨.severalParams, 1⟩], [⟨.functionWithoutParams, 4⟩], [⟨.function, 4⟩],
  [⟨.callWithoutArgs, 3⟩], [⟨.call, 3⟩], [⟨.parenthesised, 3⟩], [⟨.secondArg, 1⟩],
  [⟨.severalArgs, 2⟩, ⟨.nextArg, 1⟩], [⟨.array, 3⟩], [⟨.or, 3⟩, ⟨.and, 1⟩],
  [⟨.conditional, 3⟩, ⟨.or, 1⟩], [⟨.and, 3⟩], [⟨.compare, 3⟩, ⟨.add, 1⟩, ⟨.subtract, 1⟩],
  [⟨.add, 3⟩, ⟨.multiply, 1⟩, ⟨.divide, 1⟩, ⟨.remainder, 1⟩],
  [⟨.subtract, 3⟩, ⟨.multiply, 1⟩, ⟨.divide, 1⟩, ⟨.remainder, 1⟩], [⟨.multiply, 3⟩],
  [⟨.divide, 3⟩], [⟨.remainder, 3⟩], [⟨.power, 3⟩], [⟨.subscript, 3⟩], [⟨.emptyBlock, 2⟩],
  [⟨.nextStatement, 1⟩, ⟨.block, 2⟩], [⟨.declaration, 5⟩], [⟨.secondParam, 1⟩],
  [⟨.severalParams, 2⟩, ⟨.nextParam, 1⟩], [⟨.functionWithoutParams, 5⟩], [⟨.function, 5⟩],
  [⟨.call, 4⟩], [⟨.secondArg, 2⟩], [⟨.nextArg, 2⟩], [⟨.conditional, 4⟩], [⟨.subscript, 4⟩],
  [⟨.block, 3⟩], [⟨.secondParam, 2⟩], [⟨.nextParam, 2⟩], [⟨.functionWithoutParams, 6⟩],
  [⟨.function, 6⟩], [⟨.nextArg, 3⟩], [⟨.conditional, 5⟩], [⟨.nextParam, 3⟩],
  [⟨.functionWithoutParams, 7⟩], [⟨.function, 7⟩], [⟨.function, 8⟩]]

/-- The rules under way in a state, without those that are just to begin. -/
def underWay (s : State) : List Item := underWayRows[s]?.getD []

/-- Can the rule begin in this state?  It can where the phrase it makes leads somewhere; a program
    can begin in the first state. -/
def begins (s : State) (r : Rule) : Bool :=
  (goto? s r.lhs).isSome || (s == 0 && r.lhs == .program)

/-- Is the rule under way in this state, read up to this point, or just to begin? -/
def live (s : State) (item : Item) : Bool :=
  (underWay s).contains item || (item.read == 0 && begins s item.rule)

/-- Where a symbol leads. -/
def successor? (s : State) : GrammarSymbol → Option State
  | .token t => (stateRow s).shifts.lookup t
  | .phrase n => goto? s n

/-! ## The checks -/

/-- Does the next symbol of a live rule lead on in it, or is the rule complete? -/
def advances (s : State) (item : Item) : Bool :=
  match item.rule.rhs[item.read]? with
  | some symbol =>
    match successor? s symbol with
    | some target => (underWay target).contains ⟨item.rule, item.read + 1⟩
    | none => false
  | none => (stateRow s).complete == some item.rule

/-- Every live rule of the state goes on. -/
def isClosed (s : State) : Bool :=
  (Rule.all.all fun r => !begins s r || advances s ⟨r, 0⟩) && (underWay s).all (advances s)

/-- Have all rules under way in `target` just read this symbol, coming from `s`? -/
def comesFrom (s : State) (symbol : GrammarSymbol) (target : State) : Bool :=
  target != 0 && (underWay target).all fun item =>
    item.read != 0 && item.rule.rhs[item.read - 1]? == some symbol &&
      live s ⟨item.rule, item.read - 1⟩

/-- Every state that this one leads to comes from it. -/
def isGrounded (s : State) : Bool :=
  ((stateRow s).shifts.all fun (t, target) => comesFrom s (.token t) target) &&
    (stateRow s).gotos.all fun (n, target) => comesFrom s (.phrase n) target

/-- A complete rule has been read to its end, and what can follow it cannot be read. -/
def isDecided (s : State) : Bool :=
  match (stateRow s).complete with
  | some r =>
    live s ⟨r, r.rhs.length⟩ && r.lhs.follow.all fun t => ((stateRow s).shifts.lookup t).isNone
  | none => true

theorem rows_closed : ∀ s < 100, isClosed s = true := by decide +kernel

theorem rows_grounded : ∀ s < 100, isGrounded s = true := by decide +kernel

theorem rows_decided : ∀ s < 100, isDecided s = true := by decide +kernel

/-! ## What the checks say -/

/-- Beyond the table there is nothing. -/
theorem stateRow_of_le {s : State} (h : 100 ≤ s) : stateRow s = ⟨[], [], none⟩ := by
  have hsize : stateRows.size ≤ s := h
  rw [stateRow, Array.getElem?_eq_none hsize, Option.getD_none]

theorem underWay_of_le {s : State} (h : 100 ≤ s) : underWay s = [] := by
  have hsize : underWayRows.size ≤ s := h
  rw [underWay, Array.getElem?_eq_none hsize, Option.getD_none]

theorem live_of_mem {s : State} {item : Item} (h : item ∈ underWay s) : live s item = true := by
  rw [live, List.contains_iff_mem.mpr h, Bool.true_or]

theorem live_begin {s : State} {r : Rule} (h : begins s r = true) : live s ⟨r, 0⟩ = true := by
  rw [live, h]
  exact Bool.or_true _

/-- A live rule is among those under way, or it is just to begin. -/
theorem mem_or_begins_of_live {s : State} {item : Item} (h : live s item = true) :
    item ∈ underWay s ∨ item.read = 0 ∧ begins s item.rule = true := by
  rcases Bool.or_eq_true_iff.mp h with h | h
  · exact Or.inl (List.contains_iff_mem.mp h)
  · obtain ⟨hread, hbegins⟩ := Bool.and_eq_true_iff.mp h
    exact Or.inr ⟨beq_iff_eq.mp hread, hbegins⟩

theorem advances_of_live {s : State} {item : Item} (h : live s item = true) :
    advances s item = true := by
  rcases Nat.lt_or_ge s 100 with hs | hs
  · obtain ⟨hbegin, hunder⟩ := Bool.and_eq_true_iff.mp (rows_closed s hs)
    rcases mem_or_begins_of_live h with hmem | ⟨hread, hbegins⟩
    · exact List.all_eq_true.mp hunder item hmem
    · have hrule := List.all_eq_true.mp hbegin item.rule item.rule.mem_all
      rw [hbegins, Bool.not_true, Bool.false_or] at hrule
      rw [← hread] at hrule
      exact hrule
  · rcases mem_or_begins_of_live h with hmem | ⟨-, hbegins⟩
    · rw [underWay_of_le hs] at hmem
      exact absurd hmem List.not_mem_nil
    · have hzero : (s == 0) = false := by
        refine beq_eq_false_iff_ne.mpr fun h0 => ?_
        rw [h0] at hs
        exact absurd hs (by decide)
      rw [begins, goto?, stateRow_of_le hs, hzero] at hbegins
      exact absurd hbegins Bool.false_ne_true

/-- What is still to be read of a live rule can be read, and the rule stays live. -/
theorem advance {s : State} {r : Rule} {k : Nat} {symbol : GrammarSymbol}
    (h : live s ⟨r, k⟩ = true) (hsymbol : r.rhs[k]? = some symbol) :
    ∃ target, successor? s symbol = some target ∧ live target ⟨r, k + 1⟩ = true := by
  have hadv := advances_of_live h
  unfold advances at hadv
  rw [hsymbol] at hadv
  dsimp only at hadv
  cases hnext : successor? s symbol with
  | none =>
    rw [hnext] at hadv
    exact absurd hadv Bool.false_ne_true
  | some target =>
    rw [hnext] at hadv
    exact ⟨target, rfl, live_of_mem (List.contains_iff_mem.mp hadv)⟩

/-- A live rule that has been read to its end is the complete one. -/
theorem complete_of_live {s : State} {r : Rule} (h : live s ⟨r, r.rhs.length⟩ = true) :
    (stateRow s).complete = some r := by
  have hadv := advances_of_live h
  unfold advances at hadv
  rw [List.getElem?_eq_none (Nat.le_refl _)] at hadv
  exact beq_iff_eq.mp hadv

/-- What a look-up finds is an entry. -/
theorem mem_of_lookup {α β : Type} [BEq α] [LawfulBEq α] {entries : List (α × β)} {key : α}
    {value : β} (h : entries.lookup key = some value) : (key, value) ∈ entries := by
  obtain ⟨front, back, hentries, -⟩ := List.lookup_eq_some_iff.mp h
  rw [hentries]
  exact List.mem_append_right front List.mem_cons_self

/-- A state is entered over the last symbol read of each rule under way in it, from a state where
    that symbol was still to be read. -/
theorem retreat {s target : State} {symbol : GrammarSymbol}
    (h : successor? s symbol = some target) :
    target ≠ 0 ∧ ∀ item ∈ underWay target, ∃ k, item.read = k + 1 ∧
      item.rule.rhs[k]? = some symbol ∧ live s ⟨item.rule, k⟩ = true := by
  have hcomes : comesFrom s symbol target = true := by
    rcases Nat.lt_or_ge s 100 with hs | hs
    · obtain ⟨hshifts, hgotos⟩ := Bool.and_eq_true_iff.mp (rows_grounded s hs)
      cases symbol with
      | token t => exact List.all_eq_true.mp hshifts (t, target) (mem_of_lookup h)
      | phrase n => exact List.all_eq_true.mp hgotos (n, target) (mem_of_lookup h)
    · cases symbol <;> simp [successor?, goto?, stateRow_of_le hs] at h
  obtain ⟨hzero, hall⟩ := Bool.and_eq_true_iff.mp hcomes
  refine ⟨bne_iff_ne.mp hzero, fun item hitem => ?_⟩
  obtain ⟨hread, hlive⟩ := Bool.and_eq_true_iff.mp (List.all_eq_true.mp hall item hitem)
  obtain ⟨hread, hsymbol⟩ := Bool.and_eq_true_iff.mp hread
  obtain ⟨k, hk⟩ := Nat.exists_eq_succ_of_ne_zero (bne_iff_ne.mp hread)
  rw [hk, Nat.succ_sub_one] at hsymbol hlive
  exact ⟨k, hk, beq_iff_eq.mp hsymbol, hlive⟩

/-- The complete rule of a state has been read to its end. -/
theorem live_of_complete {s : State} {r : Rule} (h : (stateRow s).complete = some r) :
    live s ⟨r, r.rhs.length⟩ = true ∧
      ∀ t ∈ r.lhs.follow, (stateRow s).shifts.lookup t = none := by
  rcases Nat.lt_or_ge s 100 with hs | hs
  · have hrow := rows_decided s hs
    unfold isDecided at hrow
    rw [h] at hrow
    obtain ⟨hlive, hfollow⟩ := Bool.and_eq_true_iff.mp hrow
    exact ⟨hlive, fun t ht => Option.isNone_iff_eq_none.mp (List.all_eq_true.mp hfollow t ht)⟩
  · rw [stateRow_of_le hs] at h
    cases h

/-- The complete rule of a state is closed on every terminal that can follow it. -/
theorem move?_of_live {s : State} {r : Rule} {t : Terminal}
    (h : live s ⟨r, r.rhs.length⟩ = true) (ht : t ∈ r.lhs.follow) :
    move? s t = some (.reduce r) := by
  have hcomplete := complete_of_live h
  unfold move?
  rw [(live_of_complete hcomplete).2 t ht, hcomplete]
  exact if_pos ht

/-! ## What phrases begin with and what follows them -/

/-- The terminals that an expression begins with. -/
def operandFirst : List Terminal :=
  [.numeral, .name, .trueWord, .falseWord, .minus, .bang, .lpar, .lsqb]

/-- The terminals that a kind of phrase can begin with. -/
def Nonterminal.first : Nonterminal → List Terminal
  | .program | .statements | .statement =>
    [.name, .letWord, .functionWord, .printWord, .whileWord]
  | .params => [.name]
  | .moreParams | .moreArgs => [.comma]
  | .block => [.lbrace]
  | .suffixed | .primary | .power => [.numeral, .name, .trueWord, .falseWord, .lpar, .lsqb]
  | .exp | .disjunction | .conjunction | .comparison | .sum | .product | .unary | .args =>
    operandFirst

/-- The terminals that a symbol can begin with. -/
def GrammarSymbol.first : GrammarSymbol → List Terminal
  | .token t => [t]
  | .phrase n => n.first

/-- The sets of first terminals are closed under the rules. -/
theorem first_of_rule (r : Rule) {symbol : GrammarSymbol} (h : r.rhs[0]? = some symbol) :
    symbol.first ⊆ r.lhs.first := by
  cases r <;> cases h <;> decide

/-- What a phrase can be followed by, in a rule, is among what follows it. -/
def followsWithin (r : Rule) (k : Nat) : Bool :=
  match r.rhs[k]?, r.rhs[k + 1]? with
  | some (.phrase n), some symbol => symbol.first.all fun t => n.follow.contains t
  | some (.phrase n), none => r.lhs.follow.all fun t => n.follow.contains t
  | _, _ => true

theorem followsWithin_all (r : Rule) : ∀ k < r.rhs.length, followsWithin r k = true := by
  cases r <;> decide

theorem follow_of_between {r : Rule} {k : Nat} {n : Nonterminal} {symbol : GrammarSymbol}
    (hn : r.rhs[k]? = some (.phrase n)) (hsymbol : r.rhs[k + 1]? = some symbol) :
    symbol.first ⊆ n.follow := by
  have h := followsWithin_all r k (List.getElem?_eq_some_iff.mp hn).1
  unfold followsWithin at h
  rw [hn, hsymbol] at h
  exact fun t ht => List.contains_iff_mem.mp (List.all_eq_true.mp h t ht)

theorem follow_of_last {r : Rule} {k : Nat} {n : Nonterminal}
    (hn : r.rhs[k]? = some (.phrase n)) (hlast : r.rhs[k + 1]? = none) :
    r.lhs.follow ⊆ n.follow := by
  have h := followsWithin_all r k (List.getElem?_eq_some_iff.mp hn).1
  unfold followsWithin at h
  rw [hn, hlast] at h
  exact fun t ht => List.contains_iff_mem.mp (List.all_eq_true.mp h t ht)

end BellaLang
