import BellaLang.Text.Alphabet

/-!
From the bytes of a file to its text.

Files are UTF-8, and strictly so: no overlong form, no surrogate, nothing past the last code
point.  The decoder reads one byte at a time and remembers the character it is in the middle of:
how many bytes are still owed, and the range that the next one must lie in.  The first byte that
no valid text could go on with stops it, and the fault tells which bytes are to blame and why.

Line breaks are then made uniform: a carriage return, alone or with the line feed after it, becomes
one line feed.  A byte order mark is an ordinary character.
-/

namespace BellaLang.Text

/-! ## Faults -/

/-- Why bytes are not a character. -/
inductive EncodingReason where
  | badStart
  | badContinuation
  | truncated
deriving DecidableEq, Repr

/-- The bytes that are no character, and where in the file the first of them stands. -/
structure EncodingFault where
  position : Nat
  bytes : List UInt8
  reason : EncodingReason
deriving DecidableEq, Repr

/-- The wording of the reason. -/
def EncodingReason.message : EncodingReason → String
  | .badStart => "invalid start byte"
  | .badContinuation => "invalid continuation byte"
  | .truncated => "unexpected end of data"

/-- What is said about a fault: one byte is shown, several are given by their positions. -/
def EncodingFault.message (fault : EncodingFault) : String :=
  let subject := match fault.bytes with
    | [b] =>
      "byte 0x" ++ String.ofList (hexPair b.toNat) ++ " in position " ++ toString fault.position
    | bytes => "bytes in position " ++ toString fault.position ++ "-" ++
        toString (fault.position + bytes.length - 1)
  "'utf-8' codec can't decode " ++ subject ++ ": " ++ fault.reason.message
where
  /-- The two hexadecimal digits of a byte. -/
  hexPair (n : Nat) : List Char := [Nat.digitChar (n / 16), Nat.digitChar (n % 16)]

/-! ## Decoding -/

/-- A character in the making: `owed` bytes are missing, the next must lie from `low` to `high`,
    `code` is what the bytes `taken` so far (the last first) contribute. -/
structure PartialChar where
  owed : Nat
  low : UInt8
  high : UInt8
  code : Nat
  taken : List UInt8

/-- What the first byte of a character leads to: the whole character, or the rest it asks for. -/
def firstByte (b : UInt8) : Option (Char ⊕ PartialChar) :=
  let n := b.toNat
  if n < 0x80 then some (.inl (Char.ofNat n))
  else if n < 0xc2 then none
  else if n < 0xe0 then some (.inr ⟨1, 0x80, 0xbf, n - 0xc0, [b]⟩)
  else if n < 0xf0 then
    some (.inr ⟨2, if n = 0xe0 then 0xa0 else 0x80, if n = 0xed then 0x9f else 0xbf, n - 0xe0, [b]⟩)
  else if n < 0xf5 then
    some (.inr ⟨3, if n = 0xf0 then 0x90 else 0x80, if n = 0xf4 then 0x8f else 0xbf, n - 0xf0, [b]⟩)
  else none

/-- Decode from `position` on; `text` is what has been decoded, the last character first. -/
def decodeFrom (position : Nat) (pending : Option PartialChar) (text : List Char) :
    List UInt8 → Except EncodingFault (List Char)
  | [] =>
    match pending with
    | none => .ok text.reverse
    | some p => .error ⟨position - p.taken.length, p.taken.reverse, .truncated⟩
  | b :: rest =>
    match pending with
    | none =>
      match firstByte b with
      | none => .error ⟨position, [b], .badStart⟩
      | some (.inl c) => decodeFrom (position + 1) none (c :: text) rest
      | some (.inr p) => decodeFrom (position + 1) (some p) text rest
    | some p =>
      if p.low ≤ b ∧ b ≤ p.high then
        let code := p.code * 64 + (b.toNat - 0x80)
        if p.owed ≤ 1 then decodeFrom (position + 1) none (Char.ofNat code :: text) rest
        else decodeFrom (position + 1) (some ⟨p.owed - 1, 0x80, 0xbf, code, b :: p.taken⟩) text rest
      else .error ⟨position - p.taken.length, p.taken.reverse, .badContinuation⟩

/-- The characters that the bytes spell, or the first fault. -/
def decode (bytes : List UInt8) : Except EncodingFault (List Char) := decodeFrom 0 none [] bytes

example : decode [0x78, 0xcf, 0x80] = .ok ['x', 'π'] := rfl
example : decode [0x78, 0xe2, 0x82] = .error ⟨1, [0xe2, 0x82], .truncated⟩ := rfl
example : decode [0xed, 0xa0, 0x80] = .error ⟨0, [0xed], .badContinuation⟩ := rfl

/-! ## Line breaks -/

/-- Every line break as one line feed. -/
def uniformBreaks : List Char → List Char
  | [] => []
  | '\r' :: '\n' :: rest => '\n' :: uniformBreaks rest
  | c :: rest => (if c = '\r' then '\n' else c) :: uniformBreaks rest

/-- The text of a file. -/
def ofFile (bytes : List UInt8) : Except EncodingFault String :=
  (decode bytes).map fun text => String.ofList (uniformBreaks text)

end BellaLang.Text
