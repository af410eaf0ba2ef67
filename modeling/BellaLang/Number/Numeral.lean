import BellaLang.Number.Magnitude
import BellaLang.Text.Alphabet

/-!
Reading numerals.

A numeral is one or more decimal digits, then perhaps a point with one or more digits, then
perhaps an exponent: `e` or `E`, perhaps a sign, and one or more digits.  The digits may be of any
script.  Reading takes the longest numeral at the front of a text; a point or an `e` that no digit
follows is left where it is.  The value is the double nearest to the decimal.
-/

namespace BellaLang.Number

open BellaLang.Text

/-! ## Digits -/

/-- The digits at the front of a text, and the rest. -/
def takeDigits : List Char → List Nat × List Char
  | [] => ([], [])
  | c :: rest =>
    match digitValue? c with
    | none => ([], c :: rest)
    | some d => ((d :: (takeDigits rest).1), (takeDigits rest).2)

/-- The number that a row of digits stands for. -/
def digitsValue (digits : List Nat) : Nat := digits.foldl (fun n d => 10 * n + d) 0

/-! ## Values -/

/-- The double nearest to `digits * 10 ^ scale`.  Decimals that are far out of range are settled
    by their size alone. -/
def nearest (digits : Nat) (scale : Int) : Float :=
  let size : Int := (Nat.toDigits 10 digits).length + scale
  if digits = 0 ∨ size < -400 then 0
  else if 400 < size then Float.ofBits 0x7ff0000000000000
  else Float.ofScientific digits (decide (scale < 0)) scale.natAbs

/-- A numeral that has been read, and how many characters it took. -/
structure Numeral where
  whole : List Nat
  fraction : List Nat
  exponent : Int
  size : Nat
deriving DecidableEq, Repr

/-- The number that a numeral stands for. -/
def Numeral.value (n : Numeral) : Float :=
  nearest (digitsValue (n.whole ++ n.fraction)) (n.exponent - n.fraction.length)

/-! ## Reading -/

/-- The digits after a point, if both are there, and the rest. -/
def readFraction : List Char → List Nat × List Char
  | '.' :: rest =>
    match takeDigits rest with
    | ([], _) => ([], '.' :: rest)
    | found => found
  | text => ([], text)

/-- The sign of an exponent, how many characters it took, and the rest. -/
def readSign : List Char → Bool × Nat × List Char
  | '+' :: rest => (false, 1, rest)
  | '-' :: rest => (true, 1, rest)
  | text => (false, 0, text)

/-- An exponent, if one is there, how many characters it took, and the rest. -/
def readExponent : List Char → Int × Nat × List Char
  | [] => (0, 0, [])
  | c :: rest =>
    if c = 'e' ∨ c = 'E' then
      let (negative, signSize, unsigned) := readSign rest
      match takeDigits unsigned with
      | ([], _) => (0, 0, c :: rest)
      | (digits, after) =>
        let size : Int := digitsValue digits
        (if negative then -size else size, 1 + signSize + digits.length, after)
    else (0, 0, c :: rest)

/-- The longest numeral at the front of a text, and the rest. -/
def readNumeral (text : List Char) : Option (Numeral × List Char) :=
  match takeDigits text with
  | ([], _) => none
  | (whole, afterWhole) =>
    let (fraction, afterFraction) := readFraction afterWhole
    let (exponent, exponentSize, rest) := readExponent afterFraction
    let pointSize := if fraction.isEmpty then 0 else 1
    let size := whole.length + pointSize + fraction.length + exponentSize
    some (⟨whole, fraction, exponent, size⟩, rest)

/-- The number that a text stands for which is a numeral from end to end; anything else is zero. -/
def numeralValue (text : List Char) : Float :=
  match readNumeral text with
  | some (n, []) => n.value
  | _ => 0

example : readNumeral "12.5e-3x".toList = some (⟨[1, 2], [5], -3, 7⟩, ['x']) := by decide +kernel
example : readNumeral "7.e".toList = some (⟨[7], [], 0, 1⟩, ['.', 'e']) := by decide +kernel

/-! ## Whole texts -/

/-- The number that a whole text writes, with a minus sign if it has one; the names of the numbers
    that have no digits are known too. -/
def ofText? (text : String) : Option Float :=
  match text with
  | "NaN" => some (Float.ofBits 0x7ff8000000000000)
  | "Infinity" => some (Float.ofBits 0x7ff0000000000000)
  | "-Infinity" => some (Float.ofBits 0xfff0000000000000)
  | _ =>
    let (negative, unsigned) := match text.toList with
      | '-' :: rest => (true, rest)
      | rest => (false, rest)
    match readNumeral unsigned with
    | some (n, []) => some (if negative then -n.value else n.value)
    | _ => none

end BellaLang.Number
