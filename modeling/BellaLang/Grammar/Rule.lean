import BellaLang.Grammar.Symbol

/-!
The grammar, rule by rule.

A program is a row of statements, perhaps none.  Expressions come in ten levels of precedence, from
the conditional down to literals, names, calls, arrays and parentheses; each level leads to the next
one by a rule of its own whose name ends in `Alone`.  Rows of statements, of parameters and of
arguments grow to the right, so the rules for them recur on the left.

With every kind of phrase goes the set of terminals that can follow it in a program.  The grammar is
such that a phrase may be closed exactly when the next terminal is one of these.
-/

namespace BellaLang

/-! ## Rules -/

/-- The rules of the grammar. -/
inductive Rule where
  | emptyProgram
  | program
  | firstStatement
  | nextStatement
  | declaration
  | functionWithoutParams
  | function
  | assignment
  | print
  | loop
  | oneParam
  | severalParams
  | secondParam
  | nextParam
  | emptyBlock
  | block
  | conditional
  | disjunctionAlone
  | or
  | conjunctionAlone
  | and
  | comparisonAlone
  | compare
  | sumAlone
  | add
  | subtract
  | productAlone
  | multiply
  | divide
  | remainder
  | unaryAlone
  | negate
  | not
  | powerAlone
  | power
  | suffixedAlone
  | subscript
  | primaryAlone
  | numeral
  | trueLiteral
  | falseLiteral
  | callWithoutArgs
  | call
  | name
  | emptyArray
  | array
  | parenthesised
  | oneArg
  | severalArgs
  | secondArg
  | nextArg
deriving DecidableEq, Repr

/-- The kind of phrase that a rule makes. -/
def Rule.lhs : Rule → Nonterminal
  | .emptyProgram => .program
  | .program => .program
  | .firstStatement => .statements
  | .nextStatement => .statements
  | .declaration => .statement
  | .functionWithoutParams => .statement
  | .function => .statement
  | .assignment => .statement
  | .print => .statement
  | .loop => .statement
  | .oneParam => .params
  | .severalParams => .params
  | .secondParam => .moreParams
  | .nextParam => .moreParams
  | .emptyBlock => .block
  | .block => .block
  | .conditional => .exp
  | .disjunctionAlone => .exp
  | .or => .disjunction
  | .conjunctionAlone => .disjunction
  | .and => .conjunction
  | .comparisonAlone => .conjunction
  | .compare => .comparison
  | .sumAlone => .comparison
  | .add => .sum
  | .subtract => .sum
  | .productAlone => .sum
  | .multiply => .product
  | .divide => .product
  | .remainder => .product
  | .unaryAlone => .product
  | .negate => .unary
  | .not => .unary
  | .powerAlone => .unary
  | .power => .power
  | .suffixedAlone => .power
  | .subscript => .suffixed
  | .primaryAlone => .suffixed
  | .numeral => .primary
  | .trueLiteral => .primary
  | .falseLiteral => .primary
  | .callWithoutArgs => .primary
  | .call => .primary
  | .name => .primary
  | .emptyArray => .primary
  | .array => .primary
  | .parenthesised => .primary
  | .oneArg => .args
  | .severalArgs => .args
  | .secondArg => .moreArgs
  | .nextArg => .moreArgs

/-- What a rule makes it from. -/
def Rule.rhs : Rule → List GrammarSymbol
  | .emptyProgram => []
  | .program => [.phrase .statements]
  | .firstStatement => [.phrase .statement]
  | .nextStatement => [.phrase .statements, .phrase .statement]
  | .declaration => [.token .letWord, .token .name, .token .equal, .phrase .exp, .token .semicolon]
  | .functionWithoutParams =>
    [.token .functionWord, .token .name, .token .lpar, .token .rpar, .token .equal, .phrase .exp,
     .token .semicolon]
  | .function =>
    [.token .functionWord, .token .name, .token .lpar, .phrase .params, .token .rpar,
     .token .equal, .phrase .exp, .token .semicolon]
  | .assignment => [.token .name, .token .equal, .phrase .exp, .token .semicolon]
  | .print => [.token .printWord, .phrase .exp, .token .semicolon]
  | .loop => [.token .whileWord, .phrase .exp, .phrase .block]
  | .oneParam => [.token .name]
  | .severalParams => [.token .name, .phrase .moreParams]
  | .secondParam => [.token .comma, .token .name]
  | .nextParam => [.phrase .moreParams, .token .comma, .token .name]
  | .emptyBlock => [.token .lbrace, .token .rbrace]
  | .block => [.token .lbrace, .phrase .statements, .token .rbrace]
  | .conditional =>
    [.phrase .disjunction, .token .qmark, .phrase .disjunction, .token .colon, .phrase .exp]
  | .disjunctionAlone => [.phrase .disjunction]
  | .or => [.phrase .disjunction, .token .or, .phrase .conjunction]
  | .conjunctionAlone => [.phrase .conjunction]
  | .and => [.phrase .conjunction, .token .and, .phrase .comparison]
  | .comparisonAlone => [.phrase .comparison]
  | .compare => [.phrase .sum, .token .relop, .phrase .sum]
  | .sumAlone => [.phrase .sum]
  | .add => [.phrase .sum, .token .plus, .phrase .product]
  | .subtract => [.phrase .sum, .token .minus, .phrase .product]
  | .productAlone => [.phrase .product]
  | .multiply => [.phrase .product, .token .star, .phrase .unary]
  | .divide => [.phrase .product, .token .slash, .phrase .unary]
  | .remainder => [.phrase .product, .token .percent, .phrase .unary]
  | .unaryAlone => [.phrase .unary]
  | .negate => [.token .minus, .phrase .unary]
  | .not => [.token .bang, .phrase .unary]
  | .powerAlone => [.phrase .power]
  | .power => [.phrase .suffixed, .token .pow, .phrase .unary]
  | .suffixedAlone => [.phrase .suffixed]
  | .subscript => [.phrase .suffixed, .token .lsqb, .phrase .exp, .token .rsqb]
  | .primaryAlone => [.phrase .primary]
  | .numeral => [.token .numeral]
  | .trueLiteral => [.token .trueWord]
  | .falseLiteral => [.token .falseWord]
  | .callWithoutArgs => [.token .name, .token .lpar, .token .rpar]
  | .call => [.token .name, .token .lpar, .phrase .args, .token .rpar]
  | .name => [.token .name]
  | .emptyArray => [.token .lsqb, .token .rsqb]
  | .array => [.token .lsqb, .phrase .args, .token .rsqb]
  | .parenthesised => [.token .lpar, .phrase .exp, .token .rpar]
  | .oneArg => [.phrase .exp]
  | .severalArgs => [.phrase .exp, .phrase .moreArgs]
  | .secondArg => [.token .comma, .phrase .exp]
  | .nextArg => [.phrase .moreArgs, .token .comma, .phrase .exp]

/-! ## What can follow -/

/-- The terminals that can follow a kind of phrase. -/
def Nonterminal.follow : Nonterminal → List Terminal
  | .program => [.endOfText]
  | .statements | .statement | .block =>
    [.name, .letWord, .functionWord, .printWord, .whileWord, .rbrace, .endOfText]
  | .params => [.rpar]
  | .moreParams => [.rpar, .comma]
  | .exp => [.semicolon, .rpar, .comma, .lbrace, .rsqb]
  | .disjunction => [.or, .semicolon, .rpar, .comma, .lbrace, .qmark, .colon, .rsqb]
  | .conjunction | .comparison =>
    [.and, .or, .semicolon, .rpar, .comma, .lbrace, .qmark, .colon, .rsqb]
  | .sum =>
    [.relop, .and, .or, .plus, .minus, .semicolon, .rpar, .comma, .lbrace, .qmark, .colon, .rsqb]
  | .product | .unary | .power =>
    [.relop, .and, .or, .plus, .minus, .star, .slash, .percent, .semicolon, .rpar, .comma,
     .lbrace, .qmark, .colon, .rsqb]
  | .suffixed | .primary =>
    [.relop, .and, .or, .pow, .plus, .minus, .star, .slash, .percent, .semicolon, .rpar, .comma,
     .lbrace, .qmark, .colon, .lsqb, .rsqb]
  | .args => [.rpar, .rsqb]
  | .moreArgs => [.rpar, .comma, .rsqb]

end BellaLang
