import BellaLang.Text.Alphabet

/-!
The rows of a text, and where in them an offset lies.

A row ends after a carriage return, a line feed, or the two together, and keeps its line break.  So
the rows joined give the text back, every text has a last row without a break (it may be empty),
and an offset is found by walking down the rows and taking off their lengths.
-/

namespace BellaLang.Text

/-! ## Rows -/

/-- The rows of a text, each with its line break. -/
def rows : List Char → List (List Char)
  | [] => [[]]
  | '\r' :: '\n' :: rest => ['\r', '\n'] :: rows rest
  | c :: rest =>
    if c = '\n' ∨ c = '\r' then [c] :: rows rest
    else match rows rest with
      | [] => [[c]]
      | row :: others => (c :: row) :: others

example : rows "a\r\nb\rc\n".toList = [['a', '\r', '\n'], ['b', '\r'], ['c', '\n'], []] := by
  decide +kernel

/-! ## Finding an offset -/

/-- A place in a text: the number of its row, counted from one, how many characters of the row
    come before it, and the row. -/
structure Place where
  row : Nat
  column : Nat
  content : List Char
deriving DecidableEq, Repr

/-- Walk down from row number `row`; an offset past the end lies on the last row. -/
def placeFrom (row offset : Nat) : List (List Char) → Place
  | [] => ⟨row, offset, []⟩
  | [content] => ⟨row, offset, content⟩
  | content :: rest =>
    if offset < content.length then ⟨row, offset, content⟩
    else placeFrom (row + 1) (offset - content.length) rest

/-- The place of an offset in a text. -/
def place (text : List Char) (offset : Nat) : Place := placeFrom 1 offset (rows text)

/-! ## Showing a place -/

/-- A number in `width` columns, after at least one blank when it is not negative. -/
def padNumber (width : Nat) (n : Int) : List Char :=
  let digits := (toString n).toList
  let signed := if n < 0 then digits else ' ' :: digits
  List.replicate (width - signed.length) ' ' ++ signed

/-- The row of a place behind its number, and below it a line that points at `width` characters
    from the place on, and tells why.  Tabs stay tabs, so the two lines stay aligned; at least one
    character is pointed at, and none past the row's own line break. -/
def excerpt (text : List Char) (start width : Nat) (caption : String) : String :=
  let spot := place text start
  let margin := padNumber 6 spot.row ++ [' ', '|']
  let below := (margin ++ spot.content.take spot.column).map fun c => if c = '\t' then '\t' else ' '
  let carets := List.replicate (max 1 (min width (spot.content.length - spot.column))) '^'
  String.ofList (margin ++ trimEnd spot.content ++ '\n' :: below ++ carets ++ [' ']) ++ caption

end BellaLang.Text
