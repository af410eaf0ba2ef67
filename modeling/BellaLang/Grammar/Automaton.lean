import BellaLang.Grammar.Rule

/-!
The automaton that reads the grammar.

A state stands for all the rules that may be under way, each read up to some point; above every row
of the table they are listed, with a mark at that point.  From a state one goes on over a token or
over a phrase.  Where a rule has been read to its end, it may be closed, and it is closed exactly on
the terminals that can follow the phrase it makes.  No state has two rules to close, and no state
both closes a rule and goes on over the same terminal, so there is never a choice.
-/

namespace BellaLang

/-! ## States and moves -/

/-- States are known by their places in the table. -/
abbrev State := Nat

/-- What can happen in a state. -/
structure StateRow where
  /-- Where each token leads. -/
  shifts : List (Terminal × State)
  /-- Where each phrase leads. -/
  gotos : List (Nonterminal × State)
  /-- The rule that has been read to its end. -/
  complete : Option Rule

/-- What to do with the next token. -/
inductive Move where
  | shift (target : State)
  | reduce (rule : Rule)
deriving DecidableEq, Repr

/-! ## The table -/

/-- Where the tokens lead that an operand can begin with. -/
def operandShifts : List (Terminal × State) :=
  [(.numeral, 11), (.name, 12), (.trueWord, 13), (.falseWord, 14), (.minus, 15), (.bang, 16),
   (.lpar, 17), (.lsqb, 18)]

/-- The rows of all states; the first one is the start. -/
def stateRows : Array StateRow := #[
  -- 0: the start
  ⟨[(.name, 1), (.letWord, 2), (.functionWord, 3), (.printWord, 4), (.whileWord, 5)],
   [(.statements, 6), (.statement, 7)], some .emptyProgram⟩,
  -- 1: statement = name _ equal exp semicolon
  ⟨[(.equal, 8)], [], none⟩,
  -- 2: statement = letWord _ name equal exp semicolon
  ⟨[(.name, 9)], [], none⟩,
  -- 3: statement = functionWord _ name lpar rpar equal exp semicolon
  --   | statement = functionWord _ name lpar params rpar equal exp semicolon
  ⟨[(.name, 10)], [], none⟩,
  -- 4: statement = printWord _ exp semicolon
  ⟨operandShifts,
   [(.exp, 19), (.disjunction, 20), (.conjunction, 21), (.comparison, 22), (.sum, 23),
    (.product, 24), (.unary, 25), (.power, 26), (.suffixed, 27), (.primary, 28)], none⟩,
  -- 5: statement = whileWord _ exp block
  ⟨operandShifts,
   [(.exp, 29), (.disjunction, 20), (.conjunction, 21), (.comparison, 22), (.sum, 23),
    (.product, 24), (.unary, 25), (.power, 26), (.suffixed, 27), (.primary, 28)], none⟩,
  -- 6: program = statements _ | statements = statements _ statement
  ⟨[(.name, 1), (.letWord, 2), (.functionWord, 3), (.printWord, 4), (.whileWord, 5)],
   [(.statement, 30)], some .program⟩,
  -- 7: statements = statement _
  ⟨[], [], some .firstStatement⟩,
  -- 8: statement = name equal _ exp semicolon
  ⟨operandShifts,
   [(.exp, 31), (.disjunction, 20), (.conjunction, 21), (.comparison, 22), (.sum, 23),
    (.product, 24), (.unary, 25), (.power, 26), (.suffixed, 27), (.primary, 28)], none⟩,
  -- 9: statement = letWord name _ equal exp semicolon
  ⟨[(.equal, 32)], [], none⟩,
  -- 10: statement = functionWord name _ lpar rpar equal exp semicolon
  --   | statement = functionWord name _ lpar params rpar equal exp semicolon
  ⟨[(.lpar, 33)], [], none⟩,
  -- 11: primary = numeral _
  ⟨[], [], some .numeral⟩,
  -- 12: primary = name _ lpar rpar | primary = name _ lpar args rpar | primary = name _
  ⟨[(.lpar, 34)], [], some .name⟩,
  -- 13: primary = trueWord _
  ⟨[], [], some .trueLiteral⟩,
  -- 14: primary = falseWord _
  ⟨[], [], some .falseLiteral⟩,
  -- 15: unary = minus _ unary
  ⟨operandShifts, [(.unary, 35), (.power, 26), (.suffixed, 27), (.primary, 28)], none⟩,
  -- 16: unary = bang _ unary
  ⟨operandShifts, [(.unary, 36), (.power, 26), (.suffixed, 27), (.primary, 28)], none⟩,
  -- 17: primary = lpar _ exp rpar
  ⟨operandShifts,
   [(.exp, 37), (.disjunction, 20), (.conjunction, 21), (.comparison, 22), (.sum, 23),
    (.product, 24), (.unary, 25), (.power, 26), (.suffixed, 27), (.primary, 28)], none⟩,
  -- 18: primary = lsqb _ rsqb | primary = lsqb _ args rsqb
  ⟨[(.numeral, 11), (.name, 12), (.trueWord, 13), (.falseWord, 14), (.minus, 15), (.bang, 16),
    (.lpar, 17), (.lsqb, 18), (.rsqb, 38)],
   [(.exp, 39), (.disjunction, 20), (.conjunction, 21), (.comparison, 22), (.sum, 23),
    (.product, 24), (.unary, 25), (.power, 26), (.suffixed, 27), (.primary, 28),
    (.args, 40)], none⟩,
  -- 19: statement = printWord exp _ semicolon
  ⟨[(.semicolon, 41)], [], none⟩,
  -- 20: exp = disjunction _ qmark disjunction colon exp | exp = disjunction _
  --   | disjunction = disjunction _ or conjunction
  ⟨[(.or, 42), (.qmark, 43)], [], some .disjunctionAlone⟩,
  -- 21: disjunction = conjunction _ | conjunction = conjunction _ and comparison
  ⟨[(.and, 44)], [], some .conjunctionAlone⟩,
  -- 22: conjunction = comparison _
  ⟨[], [], some .comparisonAlone⟩,
  -- 23: comparison = sum _ relop sum | comparison = sum _ | sum = sum _ plus product
  --   | sum = sum _ minus product
  ⟨[(.relop, 45), (.plus, 46), (.minus, 47)], [], some .sumAlone⟩,
  -- 24: sum = product _ | product = product _ star unary | product = product _ slash unary
  --   | product = product _ percent unary
  ⟨[(.star, 48), (.slash, 49), (.percent, 50)], [], some .productAlone⟩,
  -- 25: product = unary _
  ⟨[], [], some .unaryAlone⟩,
  -- 26: unary = power _
  ⟨[], [], some .powerAlone⟩,
  -- 27: power = suffixed _ pow unary | power = suffixed _ | suffixed = suffixed _ lsqb exp rsqb
  ⟨[(.pow, 51), (.lsqb, 52)], [], some .suffixedAlone⟩,
  -- 28: suffixed = primary _
  ⟨[], [], some .primaryAlone⟩,
  -- 29: statement = whileWord exp _ block
  ⟨[(.lbrace, 53)], [(.block, 54)], none⟩,
  -- 30: statements = statements statement _
  ⟨[], [], some .nextStatement⟩,
  -- 31: statement = name equal exp _ semicolon
  ⟨[(.semicolon, 55)], [], none⟩,
  -- 32: statement = letWord name equal _ exp semicolon
  ⟨operandShifts,
   [(.exp, 56), (.disjunction, 20), (.conjunction, 21), (.comparison, 22), (.sum, 23),
    (.product, 24), (.unary, 25), (.power, 26), (.suffixed, 27), (.primary, 28)], none⟩,
  -- 33: statement = functionWord name lpar _ rpar equal exp semicolon
  --   | statement = functionWord name lpar _ params rpar equal exp semicolon
  ⟨[(.name, 57), (.rpar, 58)], [(.params, 59)], none⟩,
  -- 34: primary = name lpar _ rpar | primary = name lpar _ args rpar
  ⟨[(.numeral, 11), (.name, 12), (.trueWord, 13), (.falseWord, 14), (.minus, 15), (.bang, 16),
    (.lpar, 17), (.rpar, 60), (.lsqb, 18)],
   [(.exp, 39), (.disjunction, 20), (.conjunction, 21), (.comparison, 22), (.sum, 23),
    (.product, 24), (.unary, 25), (.power, 26), (.suffixed, 27), (.primary, 28),
    (.args, 61)], none⟩,
  -- 35: unary = minus unary _
  ⟨[], [], some .negate⟩,
  -- 36: unary = bang unary _
  ⟨[], [], some .not⟩,
  -- 37: primary = lpar exp _ rpar
  ⟨[(.rpar, 62)], [], none⟩,
  -- 38: primary = lsqb rsqb _
  ⟨[], [], some .emptyArray⟩,
  -- 39: args = exp _ | args = exp _ moreArgs
  ⟨[(.comma, 63)], [(.moreArgs, 64)], some .oneArg⟩,
  -- 40: primary = lsqb args _ rsqb
  ⟨[(.rsqb, 65)], [], none⟩,
  -- 41: statement = printWord exp semicolon _
  ⟨[], [], some .print⟩,
  -- 42: disjunction = disjunction or _ conjunction
  ⟨operandShifts,
   [(.conjunction, 66), (.comparison, 22), (.sum, 23), (.product, 24), (.unary, 25),
    (.power, 26), (.suffixed, 27), (.primary, 28)], none⟩,
  -- 43: exp = disjunction qmark _ disjunction colon exp
  ⟨operandShifts,
   [(.disjunction, 67), (.conjunction, 21), (.comparison, 22), (.sum, 23), (.product, 24),
    (.unary, 25), (.power, 26), (.suffixed, 27), (.primary, 28)], none⟩,
  -- 44: conjunction = conjunction and _ comparison
  ⟨operandShifts,
   [(.comparison, 68), (.sum, 23), (.product, 24), (.unary, 25), (.power, 26), (.suffixed, 27),
    (.primary, 28)], none⟩,
  -- 45: comparison = sum relop _ sum
  ⟨operandShifts,
   [(.sum, 69), (.product, 24), (.unary, 25), (.power, 26), (.suffixed, 27),
    (.primary, 28)], none⟩,
  -- 46: sum = sum plus _ product
  ⟨operandShifts,
   [(.product, 70), (.unary, 25), (.power, 26), (.suffixed, 27), (.primary, 28)], none⟩,
  -- 47: sum = sum minus _ product
  ⟨operandShifts,
   [(.product, 71), (.unary, 25), (.power, 26), (.suffixed, 27), (.primary, 28)], none⟩,
  -- 48: product = product star _ unary
  ⟨operandShifts, [(.unary, 72), (.power, 26), (.suffixed, 27), (.primary, 28)], none⟩,
  -- 49: product = product slash _ unary
  ⟨operandShifts, [(.unary, 73), (.power, 26), (.suffixed, 27), (.primary, 28)], none⟩,
  -- 50: product = product percent _ unary
  ⟨operandShifts, [(.unary, 74), (.power, 26), (.suffixed, 27), (.primary, 28)], none⟩,
  -- 51: power = suffixed pow _ unary
  ⟨operandShifts, [(.unary, 75), (.power, 26), (.suffixed, 27), (.primary, 28)], none⟩,
  -- 52: suffixed = suffixed lsqb _ exp rsqb
  ⟨operandShifts,
   [(.exp, 76), (.disjunction, 20), (.conjunction, 21), (.comparison, 22), (.sum, 23),
    (.product, 24), (.unary, 25), (.power, 26), (.suffixed, 27), (.primary, 28)], none⟩,
  -- 53: block = lbrace _ rbrace | block = lbrace _ statements rbrace
  ⟨[(.name, 1), (.letWord, 2), (.functionWord, 3), (.printWord, 4), (.whileWord, 5),
    (.rbrace, 77)],
   [(.statements, 78), (.statement, 7)], none⟩,
  -- 54: statement = whileWord exp block _
  ⟨[], [], some .loop⟩,
  -- 55: statement = name equal exp semicolon _
  ⟨[], [], some .assignment⟩,
  -- 56: statement = letWord name equal exp _ semicolon
  ⟨[(.semicolon, 79)], [], none⟩,
  -- 57: params = name _ | params = name _ moreParams
  ⟨[(.comma, 80)], [(.moreParams, 81)], some .oneParam⟩,
  -- 58: statement = functionWord name lpar rpar _ equal exp semicolon
  ⟨[(.equal, 82)], [], none⟩,
  -- 59: statement = functionWord name lpar params _ rpar equal exp semicolon
  ⟨[(.rpar, 83)], [], none⟩,
  -- 60: primary = name lpar rpar _
  ⟨[], [], some .callWithoutArgs⟩,
  -- 61: primary = name lpar args _ rpar
  ⟨[(.rpar, 84)], [], none⟩,
  -- 62: primary = lpar exp rpar _
  ⟨[], [], some .parenthesised⟩,
  -- 63: moreArgs = comma _ exp
  ⟨operandShifts,
   [(.exp, 85), (.disjunction, 20), (.conjunction, 21), (.comparison, 22), (.sum, 23),
    (.product, 24), (.unary, 25), (.power, 26), (.suffixed, 27), (.primary, 28)], none⟩,
  -- 64: args = exp moreArgs _ | moreArgs = moreArgs _ comma exp
  ⟨[(.comma, 86)], [], some .severalArgs⟩,
  -- 65: primary = lsqb args rsqb _
  ⟨[], [], some .array⟩,
  -- 66: disjunction = disjunction or conjunction _ | conjunction = conjunction _ and comparison
  ⟨[(.and, 44)], [], some .or⟩,
  -- 67: exp = disjunction qmark disjunction _ colon exp
  --   | disjunction = disjunction _ or conjunction
  ⟨[(.or, 42), (.colon, 87)], [], none⟩,
  -- 68: conjunction = conjunction and comparison _
  ⟨[], [], some .and⟩,
  -- 69: comparison = sum relop sum _ | sum = sum _ plus product | sum = sum _ minus product
  ⟨[(.plus, 46), (.minus, 47)], [], some .compare⟩,
  -- 70: sum = sum plus product _ | product = product _ star unary
  --   | product = product _ slash unary | product = product _ percent unary
  ⟨[(.star, 48), (.slash, 49), (.percent, 50)], [], some .add⟩,
  -- 71: sum = sum minus product _ | product = product _ star unary
  --   | product = product _ slash unary | product = product _ percent unary
  ⟨[(.star, 48), (.slash, 49), (.percent, 50)], [], some .subtract⟩,
  -- 72: product = product star unary _
  ⟨[], [], some .multiply⟩,
  -- 73: product = product slash unary _
  ⟨[], [], some .divide⟩,
  -- 74: product = product percent unary _
  ⟨[], [], some .remainder⟩,
  -- 75: power = suffixed pow unary _
  ⟨[], [], some .power⟩,
  -- 76: suffixed = suffixed lsqb exp _ rsqb
  ⟨[(.rsqb, 88)], [], none⟩,
  -- 77: block = lbrace rbrace _
  ⟨[], [], some .emptyBlock⟩,
  -- 78: statements = statements _ statement | block = lbrace statements _ rbrace
  ⟨[(.name, 1), (.letWord, 2), (.functionWord, 3), (.printWord, 4), (.whileWord, 5),
    (.rbrace, 89)],
   [(.statement, 30)], none⟩,
  -- 79: statement = letWord name equal exp semicolon _
  ⟨[], [], some .declaration⟩,
  -- 80: moreParams = comma _ name
  ⟨[(.name, 90)], [], none⟩,
  -- 81: params = name moreParams _ | moreParams = moreParams _ comma name
  ⟨[(.comma, 91)], [], some .severalParams⟩,
  -- 82: statement = functionWord name lpar rpar equal _ exp semicolon
  ⟨operandShifts,
   [(.exp, 92), (.disjunction, 20), (.conjunction, 21), (.comparison, 22), (.sum, 23),
    (.product, 24), (.unary, 25), (.power, 26), (.suffixed, 27), (.primary, 28)], none⟩,
  -- 83: statement = functionWord name lpar params rpar _ equal exp semicolon
  ⟨[(.equal, 93)], [], none⟩,
  -- 84: primary = name lpar args rpar _
  ⟨[], [], some .call⟩,
  -- 85: moreArgs = comma exp _
  ⟨[], [], some .secondArg⟩,
  -- 86: moreArgs = moreArgs comma _ exp
  ⟨operandShifts,
   [(.exp, 94), (.disjunction, 20), (.conjunction, 21), (.comparison, 22), (.sum, 23),
    (.product, 24), (.unary, 25), (.power, 26), (.suffixed, 27), (.primary, 28)], none⟩,
  -- 87: exp = disjunction qmark disjunction colon _ exp
  ⟨operandShifts,
   [(.exp, 95), (.disjunction, 20), (.conjunction, 21), (.comparison, 22), (.sum, 23),
    (.product, 24), (.unary, 25), (.power, 26), (.suffixed, 27), (.primary, 28)], none⟩,
  -- 88: suffixed = suffixed lsqb exp rsqb _
  ⟨[], [], some .subscript⟩,
  -- 89: block = lbrace statements rbrace _
  ⟨[], [], some .block⟩,
  -- 90: moreParams = comma name _
  ⟨[], [], some .secondParam⟩,
  -- 91: moreParams = moreParams comma _ name
  ⟨[(.name, 96)], [], none⟩,
  -- 92: statement = functionWord name lpar rpar equal exp _ semicolon
  ⟨[(.semicolon, 97)], [], none⟩,
  -- 93: statement = functionWord name lpar params rpar equal _ exp semicolon
  ⟨operandShifts,
   [(.exp, 98), (.disjunction, 20), (.conjunction, 21), (.comparison, 22), (.sum, 23),
    (.product, 24), (.unary, 25), (.power, 26), (.suffixed, 27), (.primary, 28)], none⟩,
  -- 94: moreArgs = moreArgs comma exp _
  ⟨[], [], some .nextArg⟩,
  -- 95: exp = disjunction qmark disjunction colon exp _
  ⟨[], [], some .conditional⟩,
  -- 96: moreParams = moreParams comma name _
  ⟨[], [], some .nextParam⟩,
  -- 97: statement = functionWord name lpar rpar equal exp semicolon _
  ⟨[], [], some .functionWithoutParams⟩,
  -- 98: statement = functionWord name lpar params rpar equal exp _ semicolon
  ⟨[(.semicolon, 99)], [], none⟩,
  -- 99: statement = functionWord name lpar params rpar equal exp semicolon _
  ⟨[], [], some .function⟩
]

/-! ## Moving -/

/-- The row of a state. -/
def stateRow (state : State) : StateRow := stateRows[state]?.getD ⟨[], [], none⟩

/-- What to do in a state when a terminal comes next, if it can come next. -/
def move? (state : State) (terminal : Terminal) : Option Move :=
  match (stateRow state).shifts.lookup terminal with
  | some target => some (.shift target)
  | none =>
    match (stateRow state).complete with
    | some rule => if terminal ∈ rule.lhs.follow then some (.reduce rule) else none
    | none => none

/-- Where a phrase leads. -/
def goto? (state : State) (phrase : Nonterminal) : Option State :=
  (stateRow state).gotos.lookup phrase

/-- The terminals that can come next in a state. -/
def acceptable (state : State) : List Terminal :=
  (stateRow state).shifts.map (·.1) ++
    match (stateRow state).complete with
    | some rule => rule.lhs.follow
    | none => []

end BellaLang
