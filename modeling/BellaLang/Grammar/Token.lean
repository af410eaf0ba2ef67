import BellaLang.Grammar.Symbol
import BellaLang.Number.Numeral
import BellaLang.Syntax.Span

/-!
Cutting a text into tokens.

A cursor stands somewhere in a text.  It first skips what is ignored, white space and comments, and
then takes a lexeme: the first of the terminals, in a fixed order, that matches there.  What comes
next depends on what the reader of the tokens can use, so it says which terminals it accepts, and
only those are tried.  A word is a keyword only where that keyword is accepted; elsewhere it is a
name like any other.

Where nothing that is accepted matches, all terminals are tried, to tell a token that stands in the
wrong place from a character that no token begins with.
-/

namespace BellaLang

/-! ## Tokens and cursors -/

/-- A piece of a text, and what it is. -/
structure Token where
  terminal : Terminal
  text : List Char
  extent : Extent
deriving DecidableEq, Repr

/-- A place in a text: what is left of it, and where that starts. -/
structure Cursor where
  rest : List Char
  line : Nat
  column : Nat
  offset : Nat
deriving DecidableEq, Repr

/-- The start of a text. -/
def Cursor.start (text : List Char) : Cursor := ⟨text, 1, 1, 0⟩

/-- The place after one character. -/
def Cursor.past (cursor : Cursor) (c : Char) (rest : List Char) : Cursor :=
  if c = '\n' then ⟨rest, cursor.line + 1, 1, cursor.offset + 1⟩
  else ⟨rest, cursor.line, cursor.column + 1, cursor.offset + 1⟩

/-- The place `n` characters on. -/
def Cursor.advance : Nat → Cursor → Cursor
  | 0, cursor => cursor
  | n + 1, cursor =>
    match cursor.rest with
    | [] => cursor
    | c :: rest => advance n (cursor.past c rest)

/-- Advancing takes characters off the front and changes nothing else about the text. -/
theorem Cursor.advance_rest (n : Nat) (cursor : Cursor) :
    (cursor.advance n).rest = cursor.rest.drop n := by
  induction n generalizing cursor with
  | zero => simp [advance]
  | succ n ih =>
    rw [advance]
    split
    · rename_i h; simp [h]
    · rename_i c rest h
      rw [ih, h]
      unfold past
      split <;> simp

/-- The extent of the next `n` characters. -/
def Cursor.extent (cursor : Cursor) (n : Nat) : Extent :=
  ⟨cursor.line, cursor.column, cursor.offset, cursor.offset + n⟩

/-! ## What is ignored -/

/-- Is this character white space between tokens? -/
def isSpace (c : Char) : Bool :=
  c == ' ' || c == '\t' || c == '\n' || c == '\r' || c == '\x0c'

mutual

/-- How many characters at the front of a text are ignored: white space, and comments. -/
def ignored : List Char → Nat
  | [] => 0
  | c :: rest =>
    if isSpace c then 1 + ignored rest
    else match c, rest with
      | '/', '/' :: after => 2 + ignoredComment after
      | _, _ => 0

/-- The same inside a comment, which goes on to the end of its line. -/
def ignoredComment : List Char → Nat
  | [] => 0
  | c :: rest => if c = '\n' then 1 + ignored rest else 1 + ignoredComment rest

end

/-! ## Lexemes -/

/-- The words of the language. -/
def keyword? (word : List Char) : Option Terminal :=
  match String.ofList word with
  | "let" => some .letWord
  | "function" => some .functionWord
  | "print" => some .printWord
  | "while" => some .whileWord
  | "true" => some .trueWord
  | "false" => some .falseWord
  | _ => none

/-- The spelling of a terminal that has only one. -/
def Terminal.spelling : Terminal → List Char
  | .or => ['|', '|']
  | .and => ['&', '&']
  | .pow => ['*', '*']
  | .plus => ['+']
  | .minus => ['-']
  | .star => ['*']
  | .slash => ['/']
  | .percent => ['%']
  | .bang => ['!']
  | .equal => ['=']
  | .semicolon => [';']
  | .lpar => ['(']
  | .rpar => [')']
  | .comma => [',']
  | .lbrace => ['\x7b']
  | .rbrace => ['\x7d']
  | .qmark => ['?']
  | .colon => [':']
  | .lsqb => ['[']
  | .rsqb => [']']
  | .numeral | .name | .letWord | .functionWord | .printWord | .whileWord | .trueWord
  | .falseWord | .relop | .endOfText => []

/-- The length of the comparison at the front of a text. -/
def relopLength : List Char → Nat
  | '<' :: '=' :: _ | '=' :: '=' :: _ | '!' :: '=' :: _ | '>' :: '=' :: _ => 2
  | '<' :: _ | '>' :: _ => 1
  | _ => 0

/-- The length of the name at the front of a text. -/
def nameLength : List Char → Nat
  | [] => 0
  | c :: rest => if Text.beginsName c then 1 + (rest.takeWhile Text.isWordChar).length else 0

/-- How many characters at the front of a text are a terminal; none, if it does not match there.
    Keywords are left to `name`. -/
def Terminal.matchLength (terminal : Terminal) (text : List Char) : Nat :=
  match terminal with
  | .numeral =>
    match Number.readNumeral text with
    | some (found, _) => found.size
    | none => 0
  | .name => nameLength text
  | .relop => relopLength text
  | other => if other.spelling.isPrefixOf text then other.spelling.length else 0

/-- The terminals in the order in which they are tried. -/
def scanOrder : List Terminal :=
  [.numeral, .name, .relop, .and, .or, .pow, .plus, .minus, .star, .slash, .percent, .bang, .equal,
   .semicolon, .lpar, .rpar, .comma, .lbrace, .rbrace, .qmark, .colon, .lsqb, .rsqb]

/-- The first accepted terminal that matches, with its length. -/
def firstMatch (accepted : Terminal → Bool) (text : List Char) : Option (Terminal × Nat) :=
  scanOrder.findSome? fun t =>
    if accepted t ∧ 0 < t.matchLength text then some (t, t.matchLength text) else none

/-- What a matched piece is: a name that is spelled like an accepted keyword is that keyword. -/
def refine (accepted : Terminal → Bool) (terminal : Terminal) (piece : List Char) : Terminal :=
  if terminal = .name then
    match keyword? piece with
    | some word => if accepted word then word else .name
    | none => .name
  else terminal

/-- The lexeme at a place, and the place after it. -/
def Cursor.lexeme? (accepted : Terminal → Bool) (cursor : Cursor) : Option (Token × Cursor) :=
  (firstMatch accepted cursor.rest).map fun (terminal, n) =>
    let piece := cursor.rest.take n
    (⟨refine accepted terminal piece, piece, cursor.extent n⟩, cursor.advance n)

/-! ## The next token -/

/-- What comes next in a text. -/
inductive Scanned where
  /-- An accepted token, and the place after it. -/
  | token (token : Token) (after : Cursor)
  /-- Nothing. -/
  | endOfText
  /-- A token that is not accepted here. -/
  | misplaced (token : Token)
  /-- A character that no token begins with. -/
  | unknown (c : Char) (extent : Extent)

/-- What comes next, where some terminals are accepted. -/
def Cursor.next (accepted : Terminal → Bool) (cursor : Cursor) : Scanned :=
  let here := cursor.advance (ignored cursor.rest)
  match here.rest with
  | [] => .endOfText
  | c :: _ =>
    match here.lexeme? accepted with
    | some (token, after) => .token token after
    | none =>
      match here.lexeme? fun _ => true with
      | some (token, _) => .misplaced token
      | none => .unknown c (here.extent 1)

/-! ## Tokens take up room -/

/-- What matches has at least one character. -/
theorem firstMatch_pos {accepted : Terminal → Bool} {text : List Char} {t : Terminal} {n : Nat}
    (h : firstMatch accepted text = some (t, n)) : 0 < n := by
  obtain ⟨u, _, hu⟩ := List.exists_of_findSome?_eq_some h
  split at hu
  · rename_i hacc
    cases hu
    exact hacc.2
  · cases hu

/-- After a token, less of the text is left than before it. -/
theorem Cursor.next_shorter {accepted : Terminal → Bool} {cursor after : Cursor} {token : Token}
    (h : cursor.next accepted = .token token after) : after.rest.length < cursor.rest.length := by
  unfold next at h
  simp only at h
  split at h
  · cases h
  · rename_i c rest hrest
    split at h
    · rename_i t a hlex
      cases h
      simp only [lexeme?, Option.map_eq_some_iff, Prod.exists, Prod.mk.injEq] at hlex
      obtain ⟨t, n, hmatch, _, rfl⟩ := hlex
      have hpos := firstMatch_pos hmatch
      have hlen : ((cursor.advance (ignored cursor.rest)).rest).length ≤ cursor.rest.length := by
        rw [advance_rest, List.length_drop]; omega
      rw [advance_rest, List.length_drop]
      rw [hrest] at hlen ⊢
      simp only [List.length_cons] at hlen ⊢
      omega
    · split at h <;> cases h

end BellaLang
