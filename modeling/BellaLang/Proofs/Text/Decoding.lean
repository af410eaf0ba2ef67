import BellaLang.Text.Encoded
import Mathlib.Tactic.SplitIfs

/-!
Which bytes are a text.

What UTF-8 is, is settled by how characters are encoded, one at a time, and that is part of the
library.  The decoder knows nothing of it: it goes through the bytes once and looks at one of them
at a time.  It accepts exactly the encodings of texts, each as the text that it encodes; so there is
a fault exactly if the bytes are valid for no text at all.

  1. The encodings of characters as a table, by their length: the ranges that the bytes lie in, and
     the number that they make (`IsEncoding`, `encode_eq_iff`).
  2. A first byte asks for the rest of just these (`isEncoding_cons_iff`), and in the middle of a
     character the decoder takes what was asked for (`decodeFrom_some_eq_ok_iff`).
  3. From one character to texts, by induction on the number of bytes in one direction and on the
     text in the other (`decodeFrom_none_eq_ok_iff`).

Main statements: `decode_eq_ok_iff`, `ofFile_eq_ok_iff`.
-/

namespace BellaLang.Text

/-! ## The encodings of characters -/

/-- A byte that can stand behind the first one of a character, whatever the first one is. -/
def IsTail (b : UInt8) : Prop := 0x80 ≤ b.toNat ∧ b.toNat ≤ 0xbf

/-- The table of UTF-8: the bytes are a character, and make the number `n`.  Behind some first bytes
    the second one lies in a smaller range, which leaves out what fewer bytes can encode,
    surrogates, and what lies past the last code point. -/
def IsEncoding : List UInt8 → Nat → Prop
  | [b], n => b.toNat < 0x80 ∧ n = b.toNat
  | [b, b₁], n =>
    (0xc2 ≤ b.toNat ∧ b.toNat < 0xe0) ∧ IsTail b₁ ∧
      n = (b.toNat - 0xc0) * 64 + (b₁.toNat - 0x80)
  | [b, b₁, b₂], n =>
    (0xe0 ≤ b.toNat ∧ b.toNat < 0xf0) ∧
      ((if b.toNat = 0xe0 then 0xa0 else 0x80) ≤ b₁.toNat ∧
        b₁.toNat ≤ if b.toNat = 0xed then 0x9f else 0xbf) ∧ IsTail b₂ ∧
      n = ((b.toNat - 0xe0) * 64 + (b₁.toNat - 0x80)) * 64 + (b₂.toNat - 0x80)
  | [b, b₁, b₂, b₃], n =>
    (0xf0 ≤ b.toNat ∧ b.toNat < 0xf5) ∧
      ((if b.toNat = 0xf0 then 0x90 else 0x80) ≤ b₁.toNat ∧
        b₁.toNat ≤ if b.toNat = 0xf4 then 0x8f else 0xbf) ∧ IsTail b₂ ∧ IsTail b₃ ∧
      n = (((b.toNat - 0xf0) * 64 + (b₁.toNat - 0x80)) * 64 + (b₂.toNat - 0x80)) * 64 +
        (b₃.toNat - 0x80)
  | _, _ => False

/-- Characters are encoded as the table says. -/
theorem encode_eq_iff {c : Char} {bytes : List UInt8} :
    String.utf8EncodeChar c = bytes ↔ IsEncoding bytes c.toNat := by
  have hc : c.val.toNat < 0xd800 ∨ 0xdfff < c.val.toNat ∧ c.val.toNat < 0x110000 := c.valid
  unfold String.utf8EncodeChar Char.toNat
  dsimp only
  generalize c.val.toNat = n at hc
  rcases bytes with _ | ⟨b, _ | ⟨b₁, _ | ⟨b₂, _ | ⟨b₃, _ | ⟨b₄, more⟩⟩⟩⟩⟩
  -- One goal for each length that is asked for and each length that the character has.
  all_goals
    dsimp only [IsEncoding, IsTail]
    split_ifs <;>
      simp only [List.cons.injEq, reduceCtorEq, and_true, and_false, false_iff, ← UInt8.toNat_inj,
        UInt8.toNat_ofNat'] <;>
      omega

/-- The numbers in the table are those of characters. -/
theorem IsEncoding.encode_ofNat {bytes : List UInt8} {n : Nat} (h : IsEncoding bytes n) :
    String.utf8EncodeChar (Char.ofNat n) = bytes := by
  have hvalid : n < 0xd800 ∨ 0xdfff < n ∧ n < 0x110000 := by
    rcases bytes with _ | ⟨b, _ | ⟨b₁, _ | ⟨b₂, _ | ⟨b₃, _ | ⟨b₄, more⟩⟩⟩⟩⟩
    all_goals
      dsimp only [IsEncoding, IsTail] at h
      try split_ifs at h
      all_goals omega
  have hnumber : (Char.ofNat n).toNat = n := by
    rw [Char.ofNat, dif_pos hvalid]
    rfl
  rwa [encode_eq_iff, hnumber]

/-! ## Characters in the making -/

/-- The number that the bytes so far make with one more. -/
def PartialChar.codeWith (p : PartialChar) (b : UInt8) : Nat := p.code * 64 + (b.toNat - 0x80)

/-- The character in the making with one more byte, if that is not the last one owed. -/
def PartialChar.next (p : PartialChar) (b : UInt8) : PartialChar :=
  ⟨p.owed - 1, 0x80, 0xbf, p.codeWith b, b :: p.taken⟩

/-- The bytes are all that is owed, each in its range, and in the end the number is `n`. -/
def PartialChar.Completes (p : PartialChar) : List UInt8 → Nat → Prop
  | [], _ => False
  | b :: bytes, n => (p.low.toNat ≤ b.toNat ∧ b.toNat ≤ p.high.toNat) ∧
      if p.owed ≤ 1 then bytes = [] ∧ n = p.codeWith b else (p.next b).Completes bytes n

/-- The first byte of a character asks for the others, and together they make the number `n`. -/
def Opens (b : UInt8) (others : List UInt8) (n : Nat) : Prop :=
  match firstByte b with
  | none => False
  | some (.inl _) => others = [] ∧ n = b.toNat
  | some (.inr p) => p.Completes others n

/-- **A first byte asks for the rest of an encoding**, and for nothing else. -/
theorem isEncoding_cons_iff {b : UInt8} {others : List UInt8} {n : Nat} :
    IsEncoding (b :: others) n ↔ Opens b others n := by
  unfold Opens firstByte
  rcases others with _ | ⟨b₁, _ | ⟨b₂, _ | ⟨b₃, _ | ⟨b₄, more⟩⟩⟩⟩
  -- One goal for each length and each range that the first byte can lie in.
  all_goals
    dsimp only [IsEncoding, IsTail]
    split_ifs <;>
      dsimp only [PartialChar.Completes, PartialChar.codeWith, PartialChar.next,
        UInt8.reduceToNat, Nat.reduceLeDiff, Nat.reduceSub, ite_true] <;>
      simp only [true_and, false_and, and_false, Nat.reduceLeDiff, reduceCtorEq, if_true, if_false,
        iff_false] <;>
      omega

/-- A byte that is a character by itself is the one with its number. -/
theorem firstByte_eq_inl {b : UInt8} {c : Char} (h : firstByte b = some (.inl c)) :
    c = Char.ofNat b.toNat := by
  unfold firstByte at h
  dsimp only at h
  split_ifs at h <;> cases h
  rfl

/-! ## One character -/

/-- One step in the middle of a character. -/
theorem decodeFrom_some_cons (position : Nat) (p : PartialChar) (text : List Char) (b : UInt8)
    (bytes : List UInt8) :
    decodeFrom position (some p) text (b :: bytes) =
      if p.low ≤ b ∧ b ≤ p.high then
        if p.owed ≤ 1 then decodeFrom (position + 1) none (Char.ofNat (p.codeWith b) :: text) bytes
        else decodeFrom (position + 1) (some (p.next b)) text bytes
      else .error ⟨position - p.taken.length, p.taken.reverse, .badContinuation⟩ := rfl

/-- In the middle of a character, the decoder takes what is owed, and is between characters then. -/
theorem decodeFrom_some_eq_ok_iff {position : Nat} {p : PartialChar} {text all : List Char}
    {bytes : List UInt8} :
    decodeFrom position (some p) text bytes = .ok all ↔
      ∃ front rest n, bytes = front ++ rest ∧ p.Completes front n ∧
        decodeFrom (position + front.length) none (Char.ofNat n :: text) rest = .ok all := by
  induction bytes generalizing position p with
  | nil =>
    constructor
    · intro h
      cases h
    · rintro ⟨front, rest, n, hbytes, hcompletes, -⟩
      obtain ⟨rfl, -⟩ := List.append_eq_nil_iff.mp hbytes.symm
      exact hcompletes.elim
  | cons b bytes ih =>
    rw [decodeFrom_some_cons]
    constructor
    · intro h
      split_ifs at h with hrange howed
      · exact ⟨[b], bytes, _, rfl, ⟨hrange, by rw [if_pos howed]; exact ⟨rfl, rfl⟩⟩, h⟩
      · obtain ⟨front, rest, n, rfl, hcompletes, hrest⟩ := ih.mp h
        refine ⟨b :: front, rest, n, rfl, ⟨hrange, by rw [if_neg howed]; exact hcompletes⟩, ?_⟩
        rwa [List.length_cons, Nat.add_comm front.length, ← Nat.add_assoc]
    · rintro ⟨_ | ⟨b', front⟩, rest, n, hbytes, hcompletes, hrest⟩
      · exact hcompletes.elim
      · obtain ⟨rfl, rfl⟩ := List.cons.inj hbytes
        obtain ⟨hrange, hcompletes⟩ := hcompletes
        rw [List.length_cons, Nat.add_comm front.length, ← Nat.add_assoc] at hrest
        rw [if_pos (show p.low ≤ b ∧ b ≤ p.high from hrange)]
        split_ifs at hcompletes ⊢
        · obtain ⟨rfl, hn⟩ := hcompletes
          rwa [hn] at hrest
        · exact ih.mpr ⟨front, rest, n, rfl, hcompletes, hrest⟩

/-- Between characters, the decoder takes one of them. -/
theorem decodeFrom_none_cons_eq_ok_iff {position : Nat} {text all : List Char} {b : UInt8}
    {bytes : List UInt8} :
    decodeFrom position none text (b :: bytes) = .ok all ↔
      ∃ others rest n, bytes = others ++ rest ∧ IsEncoding (b :: others) n ∧
        decodeFrom (position + 1 + others.length) none (Char.ofNat n :: text) rest = .ok all := by
  simp only [isEncoding_cons_iff]
  unfold Opens
  rw [decodeFrom]
  cases hfirst : firstByte b with
  | none =>
    constructor
    · intro h
      cases h
    · rintro ⟨_, _, _, _, hopens, _⟩
      exact hopens.elim
  | some what =>
    cases what with
    | inl c =>
      obtain rfl := firstByte_eq_inl hfirst
      constructor
      · intro h
        exact ⟨[], bytes, _, rfl, ⟨rfl, rfl⟩, h⟩
      · rintro ⟨_, rest, _, rfl, ⟨rfl, rfl⟩, hrest⟩
        exact hrest
    | inr p => exact decodeFrom_some_eq_ok_iff

/-! ## Texts -/

theorem decodeFrom_none_eq_ok_iff {position : Nat} {text all : List Char} {bytes : List UInt8} :
    decodeFrom position none text bytes = .ok all ↔
      ∃ more : List Char, bytes = more.flatMap String.utf8EncodeChar ∧
        all = text.reverse ++ more := by
  constructor
  · intro h
    induction hsize : bytes.length using Nat.strongRecOn generalizing position text bytes with
    | _ size ih =>
      cases bytes with
      | nil => exact ⟨[], rfl, by rw [List.append_nil]; exact (Except.ok.inj h).symm⟩
      | cons b bytes =>
        obtain ⟨others, rest, n, rfl, hencoding, hrest⟩ := decodeFrom_none_cons_eq_ok_iff.mp h
        obtain ⟨more, rfl, rfl⟩ := ih rest.length
          (by rw [← hsize, List.length_cons, List.length_append]; omega) hrest rfl
        refine ⟨Char.ofNat n :: more, ?_, by rw [List.reverse_cons, List.append_assoc]; rfl⟩
        rw [List.flatMap_cons, hencoding.encode_ofNat, List.cons_append]
  · rintro ⟨more, rfl, rfl⟩
    induction more generalizing position text with
    | nil => rw [List.append_nil]; rfl
    | cons c more ih =>
      obtain ⟨b, others, hchar⟩ := List.exists_cons_of_ne_nil String.utf8EncodeChar_ne_nil
      rw [List.flatMap_cons, hchar, List.cons_append, decodeFrom_none_cons_eq_ok_iff]
      refine ⟨others, _, c.toNat, rfl, encode_eq_iff.mp hchar, ?_⟩
      rw [Char.ofNat_toNat, ih, List.reverse_cons, List.append_assoc]
      rfl

/-- **The decoder accepts the encodings of texts**, each as the text that it encodes. -/
theorem decode_eq_ok_iff {bytes : List UInt8} {text : List Char} :
    decode bytes = .ok text ↔ bytes.toByteArray = text.utf8Encode := by
  rw [decode, decodeFrom_none_eq_ok_iff, List.utf8Encode, List.toByteArray_inj]
  constructor
  · rintro ⟨more, hbytes, rfl⟩
    exact hbytes
  · intro hbytes
    exact ⟨text, hbytes, rfl⟩

/-- The text of a file is what its bytes encode, with uniform line breaks. -/
theorem ofFile_eq_ok_iff {bytes : List UInt8} {text : String} :
    ofFile bytes = .ok text ↔
      ∃ written : List Char, bytes.toByteArray = written.utf8Encode ∧
        text = String.ofList (uniformBreaks written) := by
  simp only [← decode_eq_ok_iff]
  unfold ofFile
  cases decode bytes with
  | error fault =>
    constructor
    · intro h
      cases h
    · rintro ⟨written, hdecode, -⟩
      cases hdecode
  | ok written =>
    constructor
    · intro h
      exact ⟨written, rfl, (Except.ok.inj h).symm⟩
    · rintro ⟨_, hdecode, rfl⟩
      cases hdecode
      rfl

end BellaLang.Text
