import BellaLang.Grammar.Rule
import BellaLang.Grammar.Token

/-!
Derivations: how a row of tokens is built up by the rules of the grammar.

A derivation is a single token, or a rule with a derivation for every symbol of its right-hand side.
Each node knows its extent, from the start of its first token to the end of its last one; a node
without tokens has none.
-/

namespace BellaLang

/-! ## Derivations -/

/-- A token, or a rule and what it is made from. -/
inductive Derivation where
  | leaf (token : Token)
  | node (rule : Rule) (extent : Option Extent) (children : List Derivation)

instance : Inhabited Derivation := ⟨.node .emptyProgram none []⟩

/-- The symbol that a derivation derives from. -/
def Derivation.symbol : Derivation → GrammarSymbol
  | .leaf token => .token token.terminal
  | .node rule _ _ => .phrase rule.lhs

/-- Where the tokens of a derivation stand. -/
def Derivation.extent? : Derivation → Option Extent
  | .leaf token => some token.extent
  | .node _ extent _ => extent

/-- From the first extent to the last. -/
def joinExtents : List (Option Extent) → Option Extent
  | [] => none
  | none :: rest => joinExtents rest
  | some first :: rest => some (first.through (rest.foldl (fun last e => e.getD last) first))

/-- The derivation by a rule from derivations of its parts. -/
def Derivation.ofRule (rule : Rule) (children : List Derivation) : Derivation :=
  .node rule (joinExtents (children.map Derivation.extent?)) children

mutual

/-- The tokens of a derivation, in order. -/
def Derivation.tokens : Derivation → List Token
  | .leaf token => [token]
  | .node _ _ children => Derivation.allTokens children

/-- The tokens of several derivations, in order. -/
def Derivation.allTokens : List Derivation → List Token
  | [] => []
  | d :: rest => d.tokens ++ Derivation.allTokens rest

end

end BellaLang
