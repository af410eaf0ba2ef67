import BellaLang.Number.Shortest

/-!
How numbers are written.

Two notations are in use, and both lay out the same shortest digits.  The canonical one is what
programs print: whole numbers have no point, and an exponent appears only past 21 digits or below
a millionth.  The other one is for showing a literal in a syntax tree: a whole number keeps `.0`,
the exponent appears from 10^16 on and below a ten-thousandth and has two digits at least, and the
sign of zero is shown.

A layout works on the digits and the position of the point relative to them: the number is
`0.digits * 10 ^ point`.
-/

namespace BellaLang.Number

/-! ## Digits and point -/

/-- The digits of a decimal, the first one first. -/
def Decimal.digitChars (d : Decimal) : List Char := Nat.toDigits 10 d.digits

/-- Where the point stands relative to the digits: the decimal is `0.digits * 10 ^ point`. -/
def Decimal.point (d : Decimal) : Int := d.digitChars.length + d.scale

/-! ## Layouts -/

/-- What a notation decides. -/
structure Notation where
  /-- Positions of the point from `least` to `greatest` are written without an exponent. -/
  least : Int
  greatest : Int
  /-- What follows a whole number. -/
  wholeEnd : List Char
  /-- The least number of digits of an exponent. -/
  exponentWidth : Nat
  /-- Is the sign of a zero shown? -/
  signedZero : Bool
  nan : List Char
  infinity : List Char

/-- A number without its sign, from its digits and its point. -/
def Notation.layOut (style : Notation) (digits : List Char) (point : Int) : List Char :=
  let size : Int := digits.length
  if style.least ≤ point ∧ point ≤ style.greatest then
    if size ≤ point then digits ++ List.replicate (point - size).toNat '0' ++ style.wholeEnd
    else if 0 < point then digits.take point.toNat ++ '.' :: digits.drop point.toNat
    else '0' :: '.' :: List.replicate (-point).toNat '0' ++ digits
  else
    let mantissa := match digits with
      | first :: second :: more => first :: '.' :: second :: more
      | short => short
    let exponent := point - 1
    let places := Nat.toDigits 10 exponent.natAbs
    mantissa ++ 'e' :: (if 0 ≤ exponent then '+' else '-') ::
      (List.replicate (style.exponentWidth - places.length) '0' ++ places)

/-- The text of a number in a notation. -/
def Notation.write (style : Notation) (x : Float) : List Char :=
  if x.isNaN then style.nan
  else if x == 0 then
    (if style.signedZero && isNegative x then ['-'] else []) ++ '0' :: style.wholeEnd
  else
    (if isNegative x then ['-'] else []) ++
      if isFinite x then
        let d := shortest x
        style.layOut d.digitChars d.point
      else style.infinity

/-! ## The two notations -/

/-- The canonical notation, in which programs print. -/
def canonical : Notation where
  least := -5
  greatest := 21
  wholeEnd := []
  exponentWidth := 1
  signedZero := false
  nan := ['N', 'a', 'N']
  infinity := ['I', 'n', 'f', 'i', 'n', 'i', 't', 'y']

/-- The notation of literals in a syntax tree. -/
def literal : Notation where
  least := -3
  greatest := 16
  wholeEnd := ['.', '0']
  exponentWidth := 2
  signedZero := true
  nan := ['n', 'a', 'n']
  infinity := ['i', 'n', 'f']

/-- The canonical text of a number, as `print` shows it. -/
def canonicalText (x : Float) : String := String.ofList (canonical.write x)

/-- The text of a number as a literal. -/
def literalText (x : Float) : String := String.ofList (literal.write x)

example : canonical.write 1e21 = "1e+21".toList ∧ canonical.write 123456 = "123456".toList := by
  decide +kernel
example : canonical.write (-1.5e-7) = "-1.5e-7".toList ∧ canonical.write (-0.0) = ['0'] := by
  decide +kernel
example : literal.write 1e16 = "1e+16".toList ∧ literal.write (-0.0) = "-0.0".toList := by
  decide +kernel

end BellaLang.Number
