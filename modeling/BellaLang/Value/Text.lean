import BellaLang.Number.Notation
import BellaLang.Syntax.Text
import BellaLang.Value.Basic

/-!
The texts of values.

What `print` shows is the canonical text of numbers, the words `true` and `false`, the texts of an
array's elements separated by commas (so nested arrays run together), and functions by name.  The
text of an array takes the host one level of its stack for each array in the array, so how deep
arrays nest decides whether a value can be shown at all.  The other text, for people who debug,
tells the kinds apart and shows how arrays nest.
-/

namespace BellaLang

open BellaLang.Number

/-! ## Functions -/

/-- The text of a native function. -/
def Native.text (f : Native) : String := "<built-in " ++ f.name ++ ">"

/-- The text of a user function. -/
def UserFunction.text (f : UserFunction) : String :=
  "<function " ++ f.name ++ "(" ++ namesText f.params ++ ")>"

/-! ## What is printed -/

mutual

/-- The text of a value, as it is printed. -/
def Value.text : Value → String
  | .number x => canonicalText x
  | .boolean b => if b then "true" else "false"
  | .array elements => ",".intercalate (Value.texts elements)
  | .native f => f.text
  | .user f => f.text

/-- The texts of several values. -/
def Value.texts : List Value → List String
  | [] => []
  | v :: rest => v.text :: Value.texts rest

end

mutual

/-- How deep arrays nest in a value. -/
def Value.depth : Value → Nat
  | .number _ | .boolean _ | .native _ | .user _ => 0
  | .array elements => Value.greatestDepth elements + 1

/-- The greatest depth of several values. -/
def Value.greatestDepth : List Value → Nat
  | [] => 0
  | v :: rest => max v.depth (Value.greatestDepth rest)

end

example : (Value.array [.boolean true, .array [.array []]]).depth = 3 := rfl

/-! ## What is shown for debugging -/

mutual

/-- The text of a value with its structure. -/
def Value.debugText : Value → String
  | .number x => "Number(" ++ literalText x ++ ")"
  | .boolean b => if b then "Boolean(True)" else "Boolean(False)"
  | .array elements => "Array([" ++ ", ".intercalate (Value.debugTexts elements) ++ "])"
  | .native f => f.text
  | .user f => f.text

/-- The debugging texts of several values. -/
def Value.debugTexts : List Value → List String
  | [] => []
  | v :: rest => v.debugText :: Value.debugTexts rest

end

end BellaLang
