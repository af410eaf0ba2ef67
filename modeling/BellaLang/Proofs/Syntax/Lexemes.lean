import BellaLang.Proofs.Grammar.Scanning
import BellaLang.Proofs.Number.Numerals

/-!
Where lexemes are cut off.

A lexeme that is followed by the right characters is found again as it was written.  A punctuation
mark may be followed by anything, an operator by a space, and a word or a numeral by a character
that cannot go on with it (`Calm`).  The exclamation mark must not be followed by an equals sign.
-/

namespace BellaLang

open BellaLang.Number BellaLang.Text

/-! ## What may follow -/

/-- What follows goes on with no word and with no numeral. -/
def Calm (rest : List Char) : Prop := ∀ c ∈ rest.head?, c ∈ [' ', '(', ')', '[', ']', ',', ';']

theorem calm_nil : Calm [] := by
  intro c hc
  cases hc

theorem calm_cons {c : Char} (hc : c ∈ [' ', '(', ')', '[', ']', ',', ';']) (rest : List Char) :
    Calm (c :: rest) := by
  intro d hd
  obtain rfl : c = d := Option.some.inj hd
  exact hc

theorem Calm.not_word {rest : List Char} (h : Calm rest) :
    ∀ c ∈ rest.head?, isWordChar c = false := by
  intro c hc
  have hmem := h c hc
  revert c
  simp only [List.mem_cons, List.not_mem_nil, or_false]
  rintro c - (rfl | rfl | rfl | rfl | rfl | rfl | rfl) <;> rfl

theorem Calm.endsNumeral {rest : List Char} (h : Calm rest) : EndsNumeral rest := by
  intro c hc
  have hmem := h c hc
  revert c
  simp only [List.mem_cons, List.not_mem_nil, or_false]
  rintro c - (rfl | rfl | rfl | rfl | rfl | rfl | rfl) <;> exact ⟨rfl, by decide⟩

/-! ## The first match -/

/-- What matches is found, if nothing that is tried before it matches. -/
theorem firstMatch_of_front {text : List Char} {t : Terminal} {front back : List Terminal}
    (horder : scanOrder = front ++ t :: back) (hfront : ∀ u ∈ front, u.matchLength text = 0)
    (ht : 0 < t.matchLength text) :
    firstMatch everywhere text = some (t, t.matchLength text) := by
  unfold firstMatch
  rw [horder]
  clear horder
  induction front with
  | nil => rw [List.nil_append, List.findSome?_cons, if_pos ⟨rfl, ht⟩]
  | cons u front ih =>
    have hu : ¬(everywhere u = true ∧ 0 < u.matchLength text) := by
      rw [hfront u List.mem_cons_self]
      exact fun h => absurd h.2 (Nat.lt_irrefl 0)
    rw [List.cons_append, List.findSome?_cons, if_neg hu]
    exact ih fun v hv => hfront v (List.mem_cons_of_mem u hv)

/-- In front of a character that no numeral begins with there is no numeral. -/
theorem numeral_matchLength_cons {c : Char} (hc : isDigit c = false) (rest : List Char) :
    Terminal.numeral.matchLength (c :: rest) = 0 := by
  have hnone : readNumeral (c :: rest) = none := by
    have hstop : ∀ d ∈ (c :: rest).head?, isDigit d = false := fun d hd => by
      rw [← Option.some.inj hd]
      exact hc
    rw [readNumeral, takeDigits_stop hstop]
  rw [Terminal.matchLength, hnone]

theorem ignored_cons {c : Char} (hspace : isSpace c = false) (hslash : c ≠ '/') (rest : List Char) :
    ignored (c :: rest) = 0 := by
  rw [ignored.eq_def]
  simp [hspace, hslash]

/-- Neither digits nor the characters of names are ignored. -/
theorem not_ignored {c : Char} (h : isDigit c = true ∨ beginsName c = true) :
    isSpace c = false ∧ c ≠ '/' := by
  constructor
  · refine Bool.eq_false_iff.mpr fun hspace => ?_
    unfold isSpace at hspace
    simp only [Bool.or_eq_true, beq_iff_eq] at hspace
    rcases hspace with (((rfl | rfl) | rfl) | rfl) | rfl <;> exact absurd h (by decide)
  · rintro rfl
    exact absurd h (by decide)

/-! ## Numerals and words -/

theorem stands_numeral {text whole fraction exponent rest : List Char}
    (h : IsNumeral text whole fraction exponent) (hrest : Calm rest) :
    Lexeme.Stands ⟨.numeral, text⟩ rest := by
  have hlength := h.matchLength hrest.endsNumeral
  have hfirst : ∃ c tail, text = c :: tail ∧ isDigit c = true := by
    obtain ⟨c, tail, hwhole⟩ := List.exists_cons_of_ne_nil h.whole.1
    refine ⟨c, tail ++ fraction ++ exponent, ?_, h.whole.2 c (hwhole ▸ List.mem_cons_self)⟩
    rw [h.text, hwhole]
    rfl
  obtain ⟨c, tail, rfl, hc⟩ := hfirst
  obtain ⟨hspace, hslash⟩ := not_ignored (.inl hc)
  refine ⟨ignored_cons hspace hslash _, .numeral, ?_, rfl⟩
  have hpos : 0 < Terminal.numeral.matchLength (c :: tail ++ rest) := by
    rw [hlength]
    exact Nat.zero_lt_succ _
  have hmatch := firstMatch_of_front (t := .numeral) rfl
    (fun u hu => absurd hu List.not_mem_nil) hpos
  rw [hlength] at hmatch
  exact hmatch

/-- A row of characters that is a name from end to end. -/
def IsWord (word : List Char) : Prop := word ≠ [] ∧ nameLength word = word.length

instance (word : List Char) : Decidable (IsWord word) := inferInstanceAs (Decidable (_ ∧ _))

theorem IsWord.cons {c : Char} {tail : List Char} (h : IsWord (c :: tail)) :
    beginsName c = true ∧ ∀ d ∈ tail, isWordChar d = true := by
  have hlength := h.2
  rw [nameLength] at hlength
  split at hlength
  · rename_i hbegins
    rw [List.length_cons] at hlength
    have hall : tail.takeWhile isWordChar = tail :=
      (List.takeWhile_prefix isWordChar).eq_of_length (by omega)
    have htail : tail.all isWordChar = true := by
      rw [← hall]
      exact List.all_takeWhile
    exact ⟨hbegins, List.all_eq_true.mp htail⟩
  · rw [List.length_cons] at hlength
    omega

/-- A word is cut off where it ends: it is a name, or one of the words of the language. -/
theorem stands_word {word rest : List Char} (h : IsWord word) (hrest : Calm rest) :
    Lexeme.Stands ⟨refine everywhere .name word, word⟩ rest := by
  obtain ⟨c, tail, rfl⟩ := List.exists_cons_of_ne_nil h.1
  obtain ⟨hbegins, htail⟩ := h.cons
  have hdigit : isDigit c = false := by
    unfold beginsName at hbegins
    simpa using (Bool.and_eq_true_iff.mp hbegins).2
  have hstop : rest.takeWhile isWordChar = [] := by
    cases rest with
    | nil => rfl
    | cons d rest => rw [List.takeWhile_cons, hrest.not_word d rfl]; rfl
  have hlength : Terminal.name.matchLength (c :: (tail ++ rest)) = (c :: tail).length := by
    rw [Terminal.matchLength, nameLength, if_pos hbegins, List.takeWhile_append_of_pos htail, hstop,
      List.append_nil, List.length_cons, Nat.add_comm]
  have hnumeral : ∀ u ∈ [Terminal.numeral], u.matchLength (c :: (tail ++ rest)) = 0 := by
    intro u hu
    rw [List.mem_singleton.mp hu]
    exact numeral_matchLength_cons hdigit _
  have hmatch := firstMatch_of_front rfl hnumeral (hlength ▸ Nat.zero_lt_succ _)
  rw [hlength] at hmatch
  obtain ⟨hspace, hslash⟩ := not_ignored (.inr hbegins)
  exact ⟨ignored_cons hspace hslash _, .name, hmatch, rfl⟩

/-! ## Marks and operators -/

/-- A mark as it stands in a text. -/
def Terminal.mark (t : Terminal) : Lexeme := ⟨t, t.spelling⟩

/-- The marks that may be followed by anything. -/
theorem stands_mark {t : Terminal}
    (ht : t ∈ [.minus, .semicolon, .lpar, .rpar, .comma, .lbrace, .rbrace, .qmark, .colon, .lsqb,
      .rsqb])
    (rest : List Char) : t.mark.Stands rest := by
  simp only [List.mem_cons, List.not_mem_nil, or_false] at ht
  rcases ht with rfl | rfl | rfl | rfl | rfl | rfl | rfl | rfl | rfl | rfl | rfl <;>
    exact ⟨rfl, _, rfl, rfl⟩

/-- In front of a space an equals sign stands alone. -/
theorem stands_equal (rest : List Char) : Terminal.equal.mark.Stands (' ' :: rest) :=
  ⟨rfl, _, rfl, rfl⟩

/-- The exclamation mark is a mark of its own unless an equals sign follows. -/
theorem stands_bang {c : Char} (hc : c ≠ '=') (rest : List Char) :
    Terminal.bang.mark.Stands (c :: rest) := by
  have hrelop : relopLength ('!' :: c :: rest) = 0 := by
    unfold relopLength
    split <;> simp_all
  have hfront : ∀ u ∈ [Terminal.numeral, .name, .relop, .and, .or, .pow, .plus, .minus, .star,
      .slash, .percent], u.matchLength ('!' :: c :: rest) = 0 := by
    simp only [List.mem_cons, List.not_mem_nil, or_false]
    rintro u (rfl | rfl | rfl | rfl | rfl | rfl | rfl | rfl | rfl | rfl | rfl)
    case inr.inr.inl => exact hrelop
    all_goals rfl
  exact ⟨rfl, .bang, firstMatch_of_front rfl hfront Nat.zero_lt_one, rfl⟩

/-- The terminal of an operator in front of its operand. -/
def unaryTerminal? : String → Option Terminal
  | "-" => some .minus
  | "!" => some .bang
  | _ => none

/-- In front of anything but an equals sign such an operator stands alone. -/
theorem stands_unary {op : String} {t : Terminal} (h : unaryTerminal? op = some t) {c : Char}
    (hc : c ≠ '=') (rest : List Char) : Lexeme.Stands ⟨t, op.toList⟩ (c :: rest) := by
  unfold unaryTerminal? at h
  split at h <;> cases h
  · exact ⟨rfl, _, rfl, rfl⟩
  · exact stands_bang hc rest

/-- The terminal of an operator between its operands. -/
def binaryTerminal? : String → Option Terminal
  | "||" => some .or
  | "&&" => some .and
  | "<" | "<=" | "==" | "!=" | ">=" | ">" => some .relop
  | "+" => some .plus
  | "-" => some .minus
  | "*" => some .star
  | "/" => some .slash
  | "%" => some .percent
  | "**" => some .pow
  | _ => none

/-- In front of a space every operator stands alone. -/
theorem stands_operator {op : String} {t : Terminal} (h : binaryTerminal? op = some t)
    (rest : List Char) : Lexeme.Stands ⟨t, op.toList⟩ (' ' :: rest) := by
  unfold binaryTerminal? at h
  split at h <;> cases h <;> exact ⟨rfl, _, rfl, rfl⟩

end BellaLang
