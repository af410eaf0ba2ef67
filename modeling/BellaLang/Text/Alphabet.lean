import BellaLang.Text.CodeRanges

/-!
The classes of characters that program texts and messages are made of.

Four questions are asked of a character: may it stand in a name, is it a decimal digit (and which
one), is it blank, does it print as itself?  Each is settled by hand for the first 128 code points
and by a table for the rest, so a name may be `π`, a numeral may be written in any script's digits,
and a message escapes exactly what a reader could not see.
-/

namespace BellaLang.Text

/-! ## Names and numerals -/

/-- The digit that an ASCII character stands for. -/
def asciiDigit? (c : Char) : Option Nat :=
  if 48 ≤ c.toNat ∧ c.toNat ≤ 57 then some (c.toNat - 48) else none

/-- The digit that a character stands for, in whatever script it is written. -/
def digitValue? (c : Char) : Option Nat :=
  if c.toNat < 128 then asciiDigit? c
  else (digitZeros.find? fun least => least ≤ c.toNat ∧ c.toNat ≤ least + 9).map (c.toNat - ·)

/-- Is this a decimal digit of some script? -/
def isDigit (c : Char) : Bool := (digitValue? c).isSome

/-- May this character stand in a name?  Letters, numbers of every kind and the underscore may. -/
def isWordChar (c : Char) : Bool :=
  if c.toNat < 128 then c.isAlphanum || c == '_' else lettersAndNumbers.holds c.toNat

/-- May a name begin with this character?  Anything that may stand in it, decimal digits apart. -/
def beginsName (c : Char) : Bool := isWordChar c && !isDigit c

/-! ## Blanks and visible characters -/

/-- Is this character blank?  White space in the widest sense: the separators of files, groups,
    records and units count, and so do the line and paragraph separators. -/
def isBlank (c : Char) : Bool :=
  let n := c.toNat
  (9 ≤ n && n ≤ 13) || (28 ≤ n && n ≤ 32) || n == 0x85 || n == 0xa0 || n == 0x1680 ||
  (0x2000 ≤ n && n ≤ 0x200a) || n == 0x2028 || n == 0x2029 || n == 0x202f || n == 0x205f ||
  n == 0x3000

/-- Does this character print as itself?  Among the blanks only the space does. -/
def isPrintable (c : Char) : Bool :=
  if c.toNat < 128 then 32 ≤ c.toNat && c.toNat < 127 else !unprintables.holds c.toNat

example : isWordChar 'π' = true ∧ isWordChar '²' = true ∧ isWordChar '\u0301' = false := by
  decide +kernel
example : digitValue? '٣' = some 3 ∧ digitValue? '²' = none := by decide +kernel
example : isPrintable 'é' = true ∧ isPrintable '\u2028' = false := by decide +kernel

/-! ## Trimming -/

/-- The text without the blanks at its end. -/
def trimEnd (text : List Char) : List Char := (text.reverse.dropWhile isBlank).reverse

end BellaLang.Text
