import BellaLang.Proofs.Number.Numerals

/-!
Where numerals end.

A numeral is the longest one at the front of a text, so where it ends hangs on what comes behind it.
But not on much: if the character behind is one that no numeral goes on with (`EndsNumeral`), the
same characters are read as the same numeral in front of any other such character.  This is shown
for each part of a numeral, from the digits to the whole (`readNumeral_split`).
-/

namespace BellaLang.Number

open BellaLang.Text

/-! ## Digits and the point -/

/-- Digits are taken the same way whatever comes behind them, as long as it is no digit. -/
theorem takeDigits_split (text : List Char) :
    ∃ digits, text = digits ++ (takeDigits text).2 ∧ (∀ c ∈ digits, isDigit c = true) ∧
      (takeDigits text).1.length = digits.length ∧
      ∀ rest : List Char, (∀ c ∈ rest.head?, isDigit c = false) →
        takeDigits (digits ++ rest) = ((takeDigits text).1, rest) := by
  induction text with
  | nil => exact ⟨[], rfl, nofun, rfl, fun rest hrest => takeDigits_stop hrest⟩
  | cons c text ih =>
    cases hvalue : digitValue? c with
    | none =>
      have hnone : takeDigits (c :: text) = ([], c :: text) := by rw [takeDigits, hvalue]
      rw [hnone]
      exact ⟨[], rfl, nofun, rfl, fun rest hrest => takeDigits_stop hrest⟩
    | some value =>
      obtain ⟨digits, htext, hdigits, hlength, htake⟩ := ih
      have hsome : takeDigits (c :: text) =
          (value :: (takeDigits text).1, (takeDigits text).2) := by rw [takeDigits, hvalue]
      rw [hsome]
      refine ⟨c :: digits, congrArg _ htext, fun d hd => ?_, congrArg _ hlength,
        fun rest hrest => ?_⟩
      · rcases List.mem_cons.mp hd with rfl | hd
        · rw [isDigit, hvalue]
          rfl
        · exact hdigits d hd
      · rw [List.cons_append, takeDigits, hvalue, htake rest hrest]

/-- Either there is a point with digits behind it, or no fraction is read. -/
theorem readFraction_cases (text : List Char) :
    readFraction text = ([], text) ∨
      ∃ after, text = '.' :: after ∧ (takeDigits after).1 ≠ [] := by
  unfold readFraction
  split
  · rename_i after
    split
    · exact .inl rfl
    · rename_i hne
      exact .inr ⟨after, rfl, fun hnil => hne _ (Prod.ext hnil rfl)⟩
  · exact .inl rfl

theorem readFraction_point {after : List Char} (h : (takeDigits after).1 ≠ []) :
    readFraction ('.' :: after) = takeDigits after := by
  rw [readFraction]
  split
  · rename_i hnil
    rw [hnil] at h
    exact absurd rfl h
  · rfl

theorem readFraction_none {rest : List Char} (h : ∀ c ∈ rest.head?, c ≠ '.') :
    readFraction rest = ([], rest) := by
  unfold readFraction
  split
  · exact absurd rfl (h '.' rfl)
  · rfl

/-- A point with digits is read the same way whatever comes behind it, as long as it goes on with
    nothing; and so is its absence. -/
theorem readFraction_split (text : List Char) :
    ∃ fraction, text = fraction ++ (readFraction text).2 ∧
      (if (readFraction text).1.isEmpty then 0 else 1) + (readFraction text).1.length =
        fraction.length ∧
      (∀ c ∈ fraction.head?, c = '.') ∧
      ∀ rest : List Char, (∀ c ∈ rest.head?, isDigit c = false ∧ c ≠ '.') →
        readFraction (fraction ++ rest) = ((readFraction text).1, rest) := by
  rcases readFraction_cases text with hread | ⟨after, rfl, hne⟩
  · rw [hread]
    exact ⟨[], rfl, rfl, fun c hc => absurd hc (Option.not_mem_none c),
      fun rest hrest => readFraction_none fun c hc => (hrest c hc).2⟩
  · obtain ⟨digits, htext, -, hlength, htake⟩ := takeDigits_split after
    rw [readFraction_point hne]
    refine ⟨'.' :: digits, congrArg _ htext, ?_, fun c hc => (Option.some.inj hc).symm,
      fun rest hrest => ?_⟩
    · rw [List.isEmpty_eq_false_iff.mpr hne, hlength, List.length_cons]
      exact Nat.add_comm 1 _
    · have htaken := htake rest fun c hc => (hrest c hc).1
      rw [List.cons_append, readFraction_point (by rw [htaken]; exact hne), htaken]

/-! ## Signs and exponents -/

theorem readSign_none {rest : List Char} (h : ∀ c ∈ rest.head?, c ≠ '+' ∧ c ≠ '-') :
    readSign rest = (false, 0, rest) := by
  unfold readSign
  split
  · exact absurd rfl (h '+' rfl).1
  · exact absurd rfl (h '-' rfl).2
  · rfl

/-- A sign is read the same way in front of anything that begins with no sign. -/
theorem readSign_split (text : List Char) :
    ∃ sign, text = sign ++ (readSign text).2.2 ∧ (readSign text).2.1 = sign.length ∧
      ∀ rest : List Char, (∀ c ∈ rest.head?, c ≠ '+' ∧ c ≠ '-') →
        readSign (sign ++ rest) = ((readSign text).1, (readSign text).2.1, rest) := by
  unfold readSign
  split
  · exact ⟨['+'], rfl, rfl, fun _ _ => rfl⟩
  · exact ⟨['-'], rfl, rfl, fun _ _ => rfl⟩
  · exact ⟨[], rfl, rfl, fun _ hrest => readSign_none hrest⟩

/-- Digits begin with no sign. -/
theorem not_sign_of_digits {digits : List Char} (h : ∀ c ∈ digits, isDigit c = true)
    (hne : digits ≠ []) (rest : List Char) : ∀ c ∈ (digits ++ rest).head?, c ≠ '+' ∧ c ≠ '-' := by
  obtain ⟨first, others, rfl⟩ := List.exists_cons_of_ne_nil hne
  intro c hc
  obtain rfl := Option.some.inj hc
  have hdigit := h first List.mem_cons_self
  constructor <;> rintro rfl <;> exact absurd hdigit (by decide)

/-- Either there is a letter with digits behind it, or no exponent is read. -/
theorem readExponent_cases (text : List Char) :
    readExponent text = (0, 0, text) ∨
      ∃ c more, text = c :: more ∧ (c = 'e' ∨ c = 'E') ∧
        (takeDigits (readSign more).2.2).1 ≠ [] := by
  unfold readExponent
  split
  · exact .inl rfl
  · rename_i c more
    split
    · rename_i hc
      dsimp only
      split
      · exact .inl rfl
      · rename_i found others hne htaken
        refine .inr ⟨c, more, rfl, hc, ?_⟩
        rw [htaken]
        exact hne
    · exact .inl rfl

theorem readExponent_letter {c : Char} {more : List Char} (hc : c = 'e' ∨ c = 'E')
    (h : (takeDigits (readSign more).2.2).1 ≠ []) :
    readExponent (c :: more) =
      (let size : Int := digitsValue (takeDigits (readSign more).2.2).1
       (if (readSign more).1 then -size else size,
         1 + (readSign more).2.1 + (takeDigits (readSign more).2.2).1.length,
         (takeDigits (readSign more).2.2).2)) := by
  rw [readExponent, if_pos hc]
  dsimp only
  split
  · rename_i hnil
    rw [hnil] at h
    exact absurd rfl h
  · rename_i htaken
    rw [htaken]

theorem readExponent_none {rest : List Char} (h : EndsNumeral rest) :
    readExponent rest = (0, 0, rest) := by
  cases rest with
  | nil => rfl
  | cons c rest =>
    obtain ⟨-, -, he, hE⟩ := h c rfl
    rw [readExponent, if_neg fun hc => hc.elim he hE]

/-- An exponent is read the same way whatever comes behind it, as long as it goes on with nothing;
    and so is its absence. -/
theorem readExponent_split (text : List Char) :
    ∃ exponent, text = exponent ++ (readExponent text).2.2 ∧
      (readExponent text).2.1 = exponent.length ∧
      (∀ c ∈ exponent.head?, c = 'e' ∨ c = 'E') ∧
      ∀ rest : List Char, EndsNumeral rest →
        readExponent (exponent ++ rest) =
          ((readExponent text).1, (readExponent text).2.1, rest) := by
  rcases readExponent_cases text with hread | ⟨c, more, rfl, hc, hne⟩
  · rw [hread]
    exact ⟨[], rfl, rfl, fun c hc => absurd hc (Option.not_mem_none c),
      fun rest hrest => readExponent_none hrest⟩
  · obtain ⟨sign, hsign, hsignLength, hreadSign⟩ := readSign_split more
    obtain ⟨digits, hdigits, hall, hlength, htake⟩ := takeDigits_split (readSign more).2.2
    rw [readExponent_letter hc hne]
    refine ⟨c :: (sign ++ digits), ?_, ?_, fun d hd => ?_, fun rest hrest => ?_⟩
    · rw [List.cons_append, List.append_assoc, ← hdigits, ← hsign]
    · dsimp only
      rw [hsignLength, hlength, List.length_cons, List.length_append]
      omega
    · rw [← Option.some.inj hd]
      exact hc
    · -- The sign ends where the digits begin, and there is at least one digit.
      have hpos := List.length_pos_iff.mpr hne
      rw [hlength] at hpos
      have hsigned := hreadSign (digits ++ rest)
        (not_sign_of_digits hall (List.length_pos_iff.mp hpos) rest)
      have htaken := htake rest fun d hd => (hrest d hd).1
      have hread : (takeDigits (readSign (sign ++ (digits ++ rest))).2.2).1 ≠ [] := by
        rw [hsigned, htaken]
        exact hne
      rw [List.cons_append, List.append_assoc, readExponent_letter hc hread, hsigned]
      dsimp only
      rw [htaken]

/-! ## Whole numerals -/

theorem readNumeral_eq (text : List Char) :
    readNumeral text =
      if (takeDigits text).1 = [] then none
      else some (⟨(takeDigits text).1, (readFraction (takeDigits text).2).1,
        (readExponent (readFraction (takeDigits text).2).2).1,
        (takeDigits text).1.length +
          (if (readFraction (takeDigits text).2).1.isEmpty then 0 else 1) +
          (readFraction (takeDigits text).2).1.length +
          (readExponent (readFraction (takeDigits text).2).2).2.1⟩,
        (readExponent (readFraction (takeDigits text).2).2).2.2) := by
  unfold readNumeral
  split
  · rename_i hnil
    rw [hnil]
    rfl
  · rename_i whole after hne htaken
    rw [htaken, if_neg hne]

/-- **A numeral is read the same way whatever comes behind it**, as long as it goes on with
    nothing. -/
theorem readNumeral_split {text rest : List Char} {n : Numeral}
    (h : readNumeral text = some (n, rest)) :
    ∃ numeral, text = numeral ++ rest ∧ n.size = numeral.length ∧
      ∀ other : List Char, EndsNumeral other →
        readNumeral (numeral ++ other) = some (n, other) := by
  obtain ⟨digits, htext, -, hdigits, htakeDigits⟩ := takeDigits_split text
  obtain ⟨fraction, hfraction, hpoint, hdot, hreadFraction⟩ :=
    readFraction_split (takeDigits text).2
  obtain ⟨exponent, hexponent, hsize, hletter, hreadExponent⟩ :=
    readExponent_split (readFraction (takeDigits text).2).2
  rw [readNumeral_eq] at h
  split at h
  · cases h
  · rename_i hne
    obtain ⟨hn, hrest⟩ := Prod.mk.inj (Option.some.inj h)
    refine ⟨digits ++ fraction ++ exponent, ?_, ?_, fun other hother => ?_⟩
    · rw [List.append_assoc, List.append_assoc, ← hrest, ← hexponent, ← hfraction, ← htext]
    · rw [← hn, List.length_append, List.length_append, ← hdigits, ← hpoint, ← hsize]
      dsimp only
      omega
    · -- Each part stops where the next one begins, or where the numeral ends.
      have hexponentEnds : ∀ c ∈ (exponent ++ other).head?, isDigit c = false ∧ c ≠ '.' := by
        cases exponent with
        | nil => exact fun c hc => ⟨(hother c hc).1, (hother c hc).2.1⟩
        | cons e others =>
          intro c hc
          rcases hletter c hc with rfl | rfl <;> decide
      have hfractionEnds : ∀ c ∈ (fraction ++ (exponent ++ other)).head?, isDigit c = false := by
        cases fraction with
        | nil => exact fun c hc => (hexponentEnds c hc).1
        | cons point others =>
          intro c hc
          rw [hdot c hc]
          rfl
      rw [readNumeral_eq, List.append_assoc, List.append_assoc, htakeDigits _ hfractionEnds,
        hreadFraction _ hexponentEnds, hreadExponent other hother, if_neg hne, ← hn]

end BellaLang.Number
