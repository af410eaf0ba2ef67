/-!
The symbols of the grammar.

Terminals are what a text is cut into: numerals, names, the six words that have a meaning of their
own where the grammar allows for them, operators and punctuation, and the end of the text.
Nonterminals are the kinds of phrases that the grammar builds from them.
-/

namespace BellaLang

/-! ## Terminals -/

/-- What a text is cut into. -/
inductive Terminal where
  | numeral
  | name
  | letWord
  | functionWord
  | printWord
  | whileWord
  | trueWord
  | falseWord
  /-- Any of the six operators that compare. -/
  | relop
  | or
  | and
  | pow
  | plus
  | minus
  | star
  | slash
  | percent
  | bang
  | equal
  | semicolon
  | lpar
  | rpar
  | comma
  | lbrace
  | rbrace
  | qmark
  | colon
  | lsqb
  | rsqb
  | endOfText
deriving DecidableEq, Repr

/-- The terminals that are words of the language. -/
def Terminal.isKeyword : Terminal → Bool
  | .letWord | .functionWord | .printWord | .whileWord | .trueWord | .falseWord => true
  | _ => false

/-- The name by which messages call a terminal. -/
def Terminal.label : Terminal → String
  | .numeral => "NUMERAL"
  | .name => "NAME"
  | .letWord => "LET"
  | .functionWord => "FUNCTION"
  | .printWord => "PRINT"
  | .whileWord => "WHILE"
  | .trueWord => "TRUE"
  | .falseWord => "FALSE"
  | .relop => "RELOP"
  | .or => "OR"
  | .and => "AND"
  | .pow => "POW"
  | .plus => "PLUS"
  | .minus => "MINUS"
  | .star => "STAR"
  | .slash => "SLASH"
  | .percent => "PERCENT"
  | .bang => "BANG"
  | .equal => "EQUAL"
  | .semicolon => "SEMICOLON"
  | .lpar => "LPAR"
  | .rpar => "RPAR"
  | .comma => "COMMA"
  | .lbrace => "LBRACE"
  | .rbrace => "RBRACE"
  | .qmark => "QMARK"
  | .colon => "COLON"
  | .lsqb => "LSQB"
  | .rsqb => "RSQB"
  | .endOfText => "$END"

/-! ## Nonterminals -/

/-- The kinds of phrases. -/
inductive Nonterminal where
  | program
  | statements
  | statement
  | params
  | moreParams
  | block
  | exp
  | disjunction
  | conjunction
  | comparison
  | sum
  | product
  | unary
  | power
  | suffixed
  | primary
  | args
  | moreArgs
deriving DecidableEq, Repr

/-- What the right-hand sides of rules are made of: tokens and phrases. -/
inductive GrammarSymbol where
  | token (terminal : Terminal)
  | phrase (nonterminal : Nonterminal)
deriving DecidableEq, Repr

end BellaLang
