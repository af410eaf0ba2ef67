import BellaLang.Grammar.Automaton
import BellaLang.Grammar.Derivation

/-!
Reading a text: from its characters to a derivation, or to what is wrong with it.

The reader keeps a stack of phrases and tokens, each with the state that the automaton was in after
it.  A token is fed to the automaton: it closes rules, and so shortens the stack, until the token
can be put on top.  The end of the text is fed in the same way, and closes everything.

The cutting of the text goes hand in hand with this, since the state on top says which terminals are
acceptable.  A text is refused at the first token that cannot come next, or at the first character
that no token begins with.
-/

namespace BellaLang

/-! ## The stack -/

/-- A phrase or a token that has been read, and the state after it. -/
structure Entry where
  state : State
  derivation : Derivation

/-- What has been read, the last first. -/
abbrev Stack := List Entry

/-- The state on top. -/
def Stack.state : Stack → State
  | [] => 0
  | entry :: _ => entry.state

/-- Kinds of phrases are ranked so that a phrase made of a single other one ranks above it. -/
def Nonterminal.rank : Nonterminal → Nat
  | .statement | .params | .moreParams | .block | .moreArgs | .primary => 1
  | .statements | .suffixed => 2
  | .program | .power => 3
  | .unary => 4
  | .product => 5
  | .sum => 6
  | .comparison => 7
  | .conjunction => 8
  | .disjunction => 9
  | .exp => 10
  | .args => 11

/-- The rank of a symbol; tokens rank lowest. -/
def GrammarSymbol.rank : GrammarSymbol → Nat
  | .token _ => 0
  | .phrase n => n.rank

/-- Every closing of a rule makes the stack lighter: it gets shorter, or its top ranks higher. -/
def Stack.weight : Stack → Nat
  | [] => 0
  | entry :: rest => 16 * (rest.length + 1) + (15 - entry.derivation.symbol.rank)

/-- The parts of a rule on top of the stack, in order. -/
def Stack.parts (stack : Stack) (rule : Rule) : List Derivation :=
  (stack.take rule.rhs.length).reverse.map (·.derivation)

/-- Close a rule: its parts come off the stack, and the phrase goes onto it. -/
def Stack.close? (stack : Stack) (rule : Rule) : Option Stack :=
  let below : Stack := stack.drop rule.rhs.length
  (goto? below.state rule.lhs).map fun state =>
    ⟨state, .ofRule rule (stack.parts rule)⟩ :: below

/-! ## Feeding tokens -/

/-- What becomes of a token. -/
inductive Fed where
  /-- It has been read. -/
  | shifted (stack : Stack)
  /-- The program is complete. -/
  | finished (derivation : Derivation)
  /-- It cannot come next in this state. -/
  | refused (state : State)

/-- Feed a token to the automaton. -/
def feed (token : Token) (stack : Stack) : Fed :=
  match move? stack.state token.terminal with
  | none => .refused stack.state
  | some (.shift target) => .shifted (⟨target, .leaf token⟩ :: stack)
  | some (.reduce rule) =>
    if rule.lhs = .program then .finished (.ofRule rule (stack.parts rule))
    else match stack.close? rule with
      | none => .refused stack.state
      | some closed =>
        if closed.weight < stack.weight then feed token closed else .refused stack.state
termination_by stack.weight

/-! ## What can be wrong with a text -/

/-- Why a text is not a program. -/
inductive SyntaxFault where
  /-- A token that cannot come next, and the terminals that could have. -/
  | unexpected (token : Token) (expected : List Terminal)
  /-- A character that no token begins with. -/
  | unknown (c : Char) (extent : Extent)
  /-- The text stops too early. -/
  | unfinished

/-- The end of a text, as a token: it has no length and stands where the last token starts. -/
def endToken (last : Option Token) : Token :=
  match last with
  | none => ⟨.endOfText, [], ⟨1, 1, 0, 0⟩⟩
  | some token => ⟨.endOfText, [], { token.extent with stop := token.extent.start }⟩

/-- The terminals that are named when a token is misplaced: the acceptable ones, though not the end
    of the text, and no words of the language where a name would do. -/
def wanted (state : State) : List Terminal :=
  let all := acceptable state
  all.filter fun t => t ≠ .endOfText ∧ ¬(t.isKeyword ∧ .name ∈ all)

/-! ## Reading -/

/-- Read on from a place in a text. -/
def readFrom (stack : Stack) (last : Option Token) (cursor : Cursor) :
    Except SyntaxFault Derivation :=
  match _next : cursor.next fun t => (acceptable stack.state).contains t with
  | .misplaced token => .error (.unexpected token (wanted stack.state))
  | .unknown c extent => .error (.unknown c extent)
  | .endOfText =>
    match feed (endToken last) stack with
    | .finished derivation => .ok derivation
    | .refused state => .error (.unexpected (endToken last) (acceptable state))
    | .shifted stack => .error (.unexpected (endToken last) (acceptable stack.state))
  | .token token after =>
    match feed token stack with
    | .shifted stack => readFrom stack (some token) after
    | .refused state => .error (.unexpected token (acceptable state))
    | .finished _ => .error (.unexpected token [.endOfText])
termination_by cursor.rest.length
decreasing_by exact Cursor.next_shorter _next

/-- The derivation of a whole text. -/
def readText (text : String) : Except SyntaxFault Derivation :=
  readFrom [] none (.start text.toList)

end BellaLang
