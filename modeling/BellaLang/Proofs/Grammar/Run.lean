import BellaLang.Grammar.Reading
import BellaLang.Proofs.Grammar.Items

/-!
Reading a row of tokens.

The reader of texts cuts a text and feeds the automaton at the same time.  Here the automaton is
driven alone, by a row of tokens and then by the end of the text (`readTokens`).  It makes the same
of two rows with the same terminals (`feed_alike`), whatever the tokens in them are.

A derivation is *grammatical* if every phrase in it is made by its rule from parts that derive from
the right-hand side.  Nothing is said about states or stacks in that, so it is what the automaton is
compared with.
-/

namespace BellaLang

/-! ## The automaton on a row of tokens -/

/-- Feed tokens to the automaton, and then the end of the text. -/
def readTokens (stack : Stack) : List Token → Option Derivation
  | [] =>
    match feed (endToken none) stack with
    | .finished derivation => some derivation
    | .shifted _ | .refused _ => none
  | token :: rest =>
    match feed token stack with
    | .shifted stack => readTokens stack rest
    | .finished _ | .refused _ => none

/-- The terminal that a row of tokens shows to the automaton first. -/
def upcoming : List Token → Terminal
  | [] => .endOfText
  | token :: _ => token.terminal

/-- A token that can be put on top is put on top. -/
theorem readTokens_shift {stack : Stack} {token : Token} {target : State} (rest : List Token)
    (h : move? stack.state token.terminal = some (.shift target)) :
    readTokens stack (token :: rest) = readTokens (⟨target, .leaf token⟩ :: stack) rest := by
  rw [readTokens, feed, h]

/-- A rule that is to be closed before a token is closed by feeding it. -/
theorem feed_reduce {stack closed : Stack} {token : Token} {r : Rule}
    (h : move? stack.state token.terminal = some (.reduce r)) (hr : r.lhs ≠ .program)
    (hclose : stack.close? r = some closed) (hweight : closed.weight < stack.weight) :
    feed token stack = feed token closed := by
  rw [feed, h]
  dsimp only
  rw [if_neg hr, hclose]
  exact if_pos hweight

theorem readTokens_reduce {stack closed : Stack} {r : Rule} (tokens : List Token)
    (h : move? stack.state (upcoming tokens) = some (.reduce r)) (hr : r.lhs ≠ .program)
    (hclose : stack.close? r = some closed) (hweight : closed.weight < stack.weight) :
    readTokens stack tokens = readTokens closed tokens := by
  cases tokens with
  | nil => rw [readTokens, readTokens, feed_reduce h hr hclose hweight]
  | cons token rest => rw [readTokens, readTokens, feed_reduce h hr hclose hweight]

/-- At the end of the text a program is finished by closing its rule. -/
theorem readTokens_finish {stack : Stack} {r : Rule}
    (h : move? stack.state .endOfText = some (.reduce r)) (hr : r.lhs = .program) :
    readTokens stack [] = some (.ofRule r (stack.parts r)) := by
  have hend : move? stack.state (endToken none).terminal = some (.reduce r) := h
  rw [readTokens, feed, hend]
  dsimp only
  rw [if_pos hr]

/-! ## Texts and rows of tokens -/

/-- The same has become of two tokens. -/
inductive Fed.Alike : Fed → Fed → Prop
  | shifted (stack other : Stack) : Alike (.shifted stack) (.shifted other)
  | finished (derivation : Derivation) : Alike (.finished derivation) (.finished derivation)
  | refused (state : State) : Alike (.refused state) (.refused state)

/-- What becomes of a token hangs on its terminal alone. -/
theorem feed_alike {token other : Token} (hterminal : token.terminal = other.terminal)
    (stack : Stack) : (feed token stack).Alike (feed other stack) := by
  fun_induction feed token stack with
  | case1 stack hmove =>
    rw [feed, ← hterminal, hmove]
    exact .refused _
  | case2 stack target hmove =>
    rw [feed, ← hterminal, hmove]
    exact .shifted _ _
  | case3 stack rule hmove hprogram =>
    rw [feed, ← hterminal, hmove]
    dsimp only
    rw [if_pos hprogram]
    exact .finished _
  | case4 stack rule hmove hprogram hclose =>
    rw [feed, ← hterminal, hmove]
    dsimp only
    rw [if_neg hprogram, hclose]
    exact .refused _
  | case5 stack rule hmove hprogram closed hclose hweight ih =>
    rw [feed_reduce (hterminal ▸ hmove) hprogram hclose hweight]
    exact ih
  | case6 stack rule hmove hprogram closed hclose hweight =>
    rw [feed, ← hterminal, hmove]
    dsimp only
    rw [if_neg hprogram, hclose]
    dsimp only
    rw [if_neg hweight]
    exact .refused _

/-- Whether a program is complete hangs on the terminal of the token alone. -/
theorem feed_finished_congr {token other : Token} {stack : Stack} {derivation : Derivation}
    (hterminal : token.terminal = other.terminal)
    (h : feed token stack = .finished derivation) : feed other stack = .finished derivation := by
  have halike := feed_alike hterminal stack
  rw [h] at halike
  generalize feed other stack = fed at halike ⊢
  cases halike
  rfl

/-- So does whether a token is put on top. -/
theorem feed_shifted_congr {token other : Token} {stack shifted : Stack}
    (hterminal : token.terminal = other.terminal) (h : feed token stack = .shifted shifted) :
    ∃ after, feed other stack = .shifted after := by
  have halike := feed_alike hterminal stack
  rw [h] at halike
  generalize feed other stack = fed at halike ⊢
  cases halike
  exact ⟨_, rfl⟩

/-! ## Grammatical derivations -/

/-- Every phrase is made by its rule, from parts that derive from its right-hand side. -/
inductive Derivation.IsGrammatical : Derivation → Prop
  | leaf (token : Token) : IsGrammatical (.leaf token)
  | ofRule (rule : Rule) (children : List Derivation)
      (hsymbols : children.map Derivation.symbol = rule.rhs)
      (hchildren : ∀ child ∈ children, child.IsGrammatical) :
      IsGrammatical (.ofRule rule children)

attribute [simp] Derivation.IsGrammatical.leaf

/-- The derivation derives the tokens from the start of the grammar. -/
structure Derivation.IsProgramOf (d : Derivation) (tokens : List Token) : Prop where
  grammatical : d.IsGrammatical
  symbol : d.symbol = .phrase .program
  tokens : d.tokens = tokens

theorem Derivation.allTokens_eq_flatMap (ds : List Derivation) :
    Derivation.allTokens ds = ds.flatMap Derivation.tokens := by
  induction ds with
  | nil => rfl
  | cons d rest ih => rw [Derivation.allTokens, ih, List.flatMap_cons]

@[simp] theorem Derivation.symbol_leaf (token : Token) :
    (Derivation.leaf token).symbol = .token token.terminal := rfl

@[simp] theorem Derivation.tokens_leaf (token : Token) : (Derivation.leaf token).tokens = [token] :=
  rfl

theorem Derivation.tokens_ofRule (rule : Rule) (children : List Derivation) :
    (Derivation.ofRule rule children).tokens = children.flatMap Derivation.tokens := by
  rw [ofRule, tokens, allTokens_eq_flatMap]

/-- A part that derives from a terminal is a token of that terminal. -/
theorem Derivation.exists_leaf {d : Derivation} {t : Terminal} (h : d.symbol = .token t) :
    ∃ token, d = .leaf token ∧ token.terminal = t := by
  cases d with
  | leaf token => exact ⟨token, rfl, GrammarSymbol.token.inj h⟩
  | node rule extent children => cases h

/-- A grammatical part that derives from a phrase is made by a rule for it. -/
theorem Derivation.IsGrammatical.exists_rule {d : Derivation} {n : Nonterminal}
    (h : d.IsGrammatical) (hsymbol : d.symbol = .phrase n) :
    ∃ rule children, d = .ofRule rule children ∧ rule.lhs = n ∧
      children.map Derivation.symbol = rule.rhs ∧ ∀ child ∈ children, child.IsGrammatical := by
  cases h with
  | leaf token => cases hsymbol
  | ofRule rule children hsymbols hchildren =>
    exact ⟨rule, children, rfl, GrammarSymbol.phrase.inj hsymbol, hsymbols, hchildren⟩

end BellaLang
