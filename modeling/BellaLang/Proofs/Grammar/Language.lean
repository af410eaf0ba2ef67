import BellaLang.Proofs.Grammar.Run
import Mathlib.Computability.ContextFreeGrammar

/-!
The rules as a context-free grammar.

A derivation is a tree; a context-free grammar rewrites rows of symbols, one rule at a time, from
the start symbol down to terminals.  A row of tokens has a grammatical derivation exactly if its
terminals can be reached by rewriting (`exists_isProgramOf_iff`):

  1. from the tree to the rewriting, by induction on the tree: the parts of a rule are rewritten
     side by side (`derives_row`);
  2. from the rewriting to the tree, from its last step backwards: each step folds the parts of one
     rule in a row of trees into one (`exists_fold`).
-/

namespace BellaLang

/-! ## The grammar -/

/-- A symbol of the rules, as a symbol of a context-free grammar. -/
def GrammarSymbol.toSymbol : GrammarSymbol → Symbol Terminal Nonterminal
  | .token t => .terminal t
  | .phrase n => .nonterminal n

theorem GrammarSymbol.toSymbol_injective : Function.Injective GrammarSymbol.toSymbol := by
  intro a b h
  cases a <;> cases b <;> cases h <;> rfl

/-- A rule, as a rule of a context-free grammar. -/
def Rule.production (r : Rule) : ContextFreeRule Terminal Nonterminal :=
  ⟨r.lhs, r.rhs.map GrammarSymbol.toSymbol⟩

/-- The grammar of programs. -/
abbrev programGrammar : ContextFreeGrammar Terminal where
  NT := Nonterminal
  initial := .program
  rules := (Rule.all.map Rule.production).toFinset

theorem programGrammar_mem_rules {p : ContextFreeRule Terminal Nonterminal} :
    p ∈ programGrammar.rules ↔ ∃ r : Rule, r.production = p := by
  show p ∈ (Rule.all.map Rule.production).toFinset ↔ _
  rw [List.mem_toFinset, List.mem_map]
  exact ⟨fun ⟨r, _, hr⟩ => ⟨r, hr⟩, fun ⟨r, hr⟩ => ⟨r, r.mem_all, hr⟩⟩

/-- The terminals of a row of tokens, as a row of symbols. -/
def terminalRow (tokens : List Token) : List (Symbol Terminal Nonterminal) :=
  tokens.map fun token => .terminal token.terminal

theorem terminalRow_append (u v : List Token) :
    terminalRow (u ++ v) = terminalRow u ++ terminalRow v := List.map_append

/-! ## From trees to rewriting -/

/-- Rows of symbols are rewritten side by side. -/
theorem derives_row {parts : List Derivation}
    (h : ∀ d ∈ parts, programGrammar.Derives [d.symbol.toSymbol] (terminalRow d.tokens)) :
    programGrammar.Derives (parts.map fun d => d.symbol.toSymbol)
      (terminalRow (parts.flatMap Derivation.tokens)) := by
  induction parts with
  | nil => exact ContextFreeGrammar.Derives.refl []
  | cons d others ih =>
    have hfirst := h d List.mem_cons_self
    have hothers := ih fun e he => h e (List.mem_cons_of_mem d he)
    rw [List.map_cons, List.flatMap_cons, terminalRow_append]
    exact (hfirst.append_right _).trans (hothers.append_left _)

/-- A grammatical derivation is a rewriting of its symbol to its tokens. -/
theorem Derivation.IsGrammatical.derives {d : Derivation} (h : d.IsGrammatical) :
    programGrammar.Derives [d.symbol.toSymbol] (terminalRow d.tokens) := by
  induction h with
  | leaf token => exact ContextFreeGrammar.Derives.refl _
  | ofRule rule children hsymbols hchildren ih =>
    have hstep : programGrammar.Produces [.nonterminal rule.lhs]
        (rule.rhs.map GrammarSymbol.toSymbol) :=
      ⟨rule.production, programGrammar_mem_rules.mpr ⟨rule, rfl⟩,
        ContextFreeRule.Rewrites.input_output (r := rule.production)⟩
    have hparts := derives_row ih
    rw [← Derivation.tokens_ofRule] at hparts
    refine hstep.trans_derives ?_
    rw [← hsymbols, List.map_map]
    exact hparts

/-! ## From rewriting to trees -/

/-- One step of rewriting, backwards: the parts of the rule are folded into one tree. -/
theorem exists_fold {before after : List (Symbol Terminal Nonterminal)}
    (hstep : programGrammar.Produces before after) {trees : List Derivation}
    (hsymbols : (trees.map fun d => d.symbol.toSymbol) = after)
    (hgrammatical : ∀ d ∈ trees, d.IsGrammatical) :
    ∃ folded : List Derivation, (folded.map fun d => d.symbol.toSymbol) = before ∧
      folded.flatMap Derivation.tokens = trees.flatMap Derivation.tokens ∧
      ∀ d ∈ folded, d.IsGrammatical := by
  obtain ⟨p, hp, hrewrites⟩ := hstep
  obtain ⟨rule, rfl⟩ := programGrammar_mem_rules.mp hp
  obtain ⟨front, back, hbefore, hafter⟩ := hrewrites.exists_parts
  rw [hafter] at hsymbols
  obtain ⟨upper, last, rfl, hupper, hlast⟩ := List.map_eq_append_iff.mp hsymbols
  obtain ⟨first, children, rfl, hfirst, hchildren⟩ := List.map_eq_append_iff.mp hupper
  have hrhs : children.map Derivation.symbol = rule.rhs := by
    refine List.map_injective_iff.mpr GrammarSymbol.toSymbol_injective ?_
    rw [List.map_map]
    exact hchildren
  refine ⟨first ++ [.ofRule rule children] ++ last, ?_, ?_, ?_⟩
  · rw [hbefore, List.map_append, List.map_append, hfirst, hlast]
    rfl
  · rw [List.flatMap_append, List.flatMap_append, List.flatMap_append, List.flatMap_append,
      List.flatMap_singleton, Derivation.tokens_ofRule]
  · intro d hd
    rcases List.mem_append.mp hd with hd | hd
    · rcases List.mem_append.mp hd with hd | hd
      · exact hgrammatical d (List.mem_append_left _ (List.mem_append_left _ hd))
      · obtain rfl := List.mem_singleton.mp hd
        exact .ofRule rule children hrhs fun child hchild =>
          hgrammatical child (List.mem_append_left _ (List.mem_append_right _ hchild))
    · exact hgrammatical d (List.mem_append_right _ hd)

/-- Whatever is rewritten to the terminals of a row of tokens, there are trees for it. -/
theorem exists_trees {symbols : List (Symbol Terminal Nonterminal)} {tokens : List Token}
    (h : programGrammar.Derives symbols (terminalRow tokens)) :
    ∃ trees : List Derivation, (trees.map fun d => d.symbol.toSymbol) = symbols ∧
      trees.flatMap Derivation.tokens = tokens ∧ ∀ d ∈ trees, d.IsGrammatical := by
  induction h using Relation.ReflTransGen.head_induction_on with
  | refl =>
    refine ⟨tokens.map Derivation.leaf, ?_, ?_, ?_⟩
    · rw [List.map_map]
      rfl
    · rw [List.flatMap_map]
      exact List.flatMap_singleton' tokens
    · intro d hd
      obtain ⟨token, -, rfl⟩ := List.mem_map.mp hd
      exact .leaf token
  | head hstep _ ih =>
    obtain ⟨trees, hsymbols, htokens, hgrammatical⟩ := ih
    obtain ⟨folded, hfolded, hsame, hall⟩ := exists_fold hstep hsymbols hgrammatical
    exact ⟨folded, hfolded, hsame.trans htokens, hall⟩

/-- **Trees and rewriting.**  A row of tokens has a grammatical derivation exactly if its terminals
    are a word of the grammar. -/
theorem exists_isProgramOf_iff (tokens : List Token) :
    (∃ d : Derivation, d.IsProgramOf tokens) ↔
      tokens.map (·.terminal) ∈ programGrammar.language := by
  have hrow : (tokens.map (·.terminal)).map Symbol.terminal = terminalRow tokens := by
    rw [List.map_map]
    rfl
  rw [ContextFreeGrammar.mem_language_iff, hrow]
  constructor
  · rintro ⟨d, hgrammatical, hsymbol, htokens⟩
    have h := hgrammatical.derives
    rw [hsymbol, htokens] at h
    exact h
  · intro h
    obtain ⟨trees, hsymbols, htokens, hgrammatical⟩ := exists_trees h
    obtain ⟨d, others, rfl, hd, hothers⟩ := List.map_eq_cons_iff.mp hsymbols
    obtain rfl : others = [] := List.map_eq_nil_iff.mp hothers
    refine ⟨d, hgrammatical d List.mem_cons_self, ?_, ?_⟩
    · exact GrammarSymbol.toSymbol_injective hd
    · rw [List.flatMap_singleton] at htokens
      exact htokens

end BellaLang
