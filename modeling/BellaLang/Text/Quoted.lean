import BellaLang.Text.Alphabet

/-!
A piece of text put between quotes, the way messages show one.

The quotes are single, unless the text holds a single quote and no double one.  Inside, the chosen
quote and the backslash are preceded by a backslash, the line feed, the carriage return and the tab
have letters of their own, and every other character that does not print as itself is written as
its code point in lower-case hexadecimal, in the shortest of three widths.
-/

namespace BellaLang.Text

/-! ## Hexadecimal -/

/-- The `width` lowest hexadecimal digits of `n`, the highest first. -/
def hexDigits : Nat → Nat → List Char
  | 0, _ => []
  | width + 1, n => hexDigits width (n / 16) ++ [Nat.digitChar (n % 16)]

/-- A code point behind a backslash: `x` and two digits, `u` and four, or `U` and eight. -/
def escapedCode (n : Nat) : List Char :=
  if n < 0x100 then '\\' :: 'x' :: hexDigits 2 n
  else if n < 0x10000 then '\\' :: 'u' :: hexDigits 4 n
  else '\\' :: 'U' :: hexDigits 8 n

/-! ## Quoting -/

/-- The quote that surrounds a text. -/
def quoteFor (text : List Char) : Char :=
  if text.contains '\'' && !text.contains '\"' then '\"' else '\''

/-- One character as it stands between two `quote`s. -/
def quotedChar (quote c : Char) : List Char :=
  if c == quote || c == '\\' then ['\\', c]
  else if c == '\n' then ['\\', 'n']
  else if c == '\r' then ['\\', 'r']
  else if c == '\t' then ['\\', 't']
  else if isPrintable c then [c]
  else escapedCode c.toNat

/-- A text between quotes. -/
def quoted (text : String) : String :=
  let quote := quoteFor text.toList
  String.ofList (quote :: text.toList.flatMap (quotedChar quote) ++ [quote])

example : quoted "it's" = "\"it's\"" := by decide +kernel
example : quoted "a\u2028\x00" = "'a\\u2028\\x00'" := by decide +kernel

end BellaLang.Text
