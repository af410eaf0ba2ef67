import BellaLang.Proofs.Number.ReadBack

/-!
The digits of a decimal text, and its point.

A text in digits, with a point among them perhaps and an exponent behind, can be taken apart by
cutting and stripping alone: the row of all digits, without the zeros at either end, and how far the
point stands behind the start of what is left (`decimalDigits?`).  The value of the text is
`0.digits * 10 ^ point` (`pointed`).

  1. The parts of a numeral carry some digits and a point, if its row is these digits among zeros
     (`Carries`).  Then it has the value of the digits and the point (`Carries.value`), and cutting
     and stripping finds them (`Carries.decimalDigits?_eq`).
  2. Every numeral that does not stand for zero carries trimmed digits (`exists_carries`).
  3. The digits of the shortest decimal are trimmed (`isTrimmed_digitChars`).

Main statement: `IsNumeral.decimalDigits?_exact`.
-/

namespace BellaLang.Number

open BellaLang.Text

/-! ## Cutting and stripping -/

/-- The integer that a text writes, in digits and with a sign perhaps. -/
def integer? (text : List Char) : Option Int :=
  let digits := (readSign text).2.2
  let size : Int := rowValue digits
  if digits.isEmpty || !digits.all isDigit then none
  else some (if (readSign text).1 then -size else size)

/-- The digits of a decimal text without the zeros at their ends, and where the point stands
    relative to them; none if what follows an `e` is no integer. -/
def decimalDigits? (text : List Char) : Option (List Char × Int) :=
  let mantissa := text.takeWhile (· ≠ 'e')
  let power := text.dropWhile (· ≠ 'e')
  let whole := mantissa.takeWhile (· ≠ '.')
  let digits := whole ++ (mantissa.dropWhile (· ≠ '.')).tail
  let stripped := digits.dropWhile (· = '0')
  (if power.isEmpty then some 0 else integer? power.tail).map fun exponent =>
    ((stripped.reverse.dropWhile (· = '0')).reverse,
      whole.length + exponent - (digits.length - stripped.length))

example : decimalDigits? "0.00150".toList = some ("15".toList, -2) := by decide +kernel
example : decimalDigits? "1.5e+16".toList = some ("15".toList, 17) := by decide +kernel

/-- The number `0.digits * 10 ^ point`. -/
def pointed (digits : List Char) (point : Int) : ℚ :=
  rowValue digits / 10 ^ digits.length * 10 ^ point

/-- Digits with no zero at either end. -/
structure IsTrimmed (digits : List Char) : Prop where
  isDigits : IsDigits digits
  first : digits.head? ≠ some '0'
  last : digits.getLast? ≠ some '0'

/-! ## Zeros at the ends -/

/-- The zeros in front of a row that does not begin with a zero are stripped. -/
theorem dropWhile_zeros (n : Nat) {row : List Char} (h : row.head? ≠ some '0') :
    (List.replicate n '0' ++ row).dropWhile (· = '0') = row := by
  induction n with
  | zero =>
    cases row with
    | nil => rfl
    | cons c row =>
      have hc : c ≠ '0' := fun hc => h (congrArg some hc)
      rw [List.replicate_zero, List.nil_append, List.dropWhile_cons, if_neg (by simpa using hc)]
  | succ n ih =>
    rw [List.replicate_succ, List.cons_append, List.dropWhile_cons, if_pos (decide_eq_true rfl), ih]

/-- Every row is zeros, and a row that does not begin with one. -/
theorem exists_zeros_append (row : List Char) :
    ∃ n rest, row = List.replicate n '0' ++ rest ∧ rest.head? ≠ some '0' := by
  induction row with
  | nil => exact ⟨0, [], rfl, by decide⟩
  | cons c row ih =>
    by_cases hc : c = '0'
    · obtain ⟨n, rest, rfl, hrest⟩ := ih
      exact ⟨n + 1, rest, by rw [hc, List.replicate_succ, List.cons_append], hrest⟩
    · exact ⟨0, c :: row, rfl, fun h => hc (Option.some.inj h)⟩

/-- Every row is one that does not end with a zero, and zeros. -/
theorem exists_append_zeros (row : List Char) :
    ∃ n rest, row = rest ++ List.replicate n '0' ∧ rest.getLast? ≠ some '0' := by
  obtain ⟨n, rest, hrow, hrest⟩ := exists_zeros_append row.reverse
  refine ⟨n, rest.reverse, ?_, ?_⟩
  · rw [← List.reverse_reverse row, hrow, List.reverse_append, List.reverse_replicate]
  · rw [List.getLast?_reverse]
    exact hrest

/-! ## What the parts of a numeral carry -/

/-- The digits stand in the row of a numeral with only zeros around them, and the point where it
    stands relative to them. -/
structure Carries (whole fraction exponent digits : List Char) (point : Int) : Prop where
  row : ∃ before behind : Nat,
    whole ++ fraction.tail =
      List.replicate before '0' ++ (digits ++ List.replicate behind '0') ∧
    whole.length + exponentValue exponent = point + before

section

variable {text whole fraction exponent digits : List Char} {point : Int}

/-- A numeral stands for the digits and the point that it carries. -/
theorem Carries.value (h : Carries whole fraction exponent digits point) :
    (decimalOf whole fraction exponent).value = pointed digits point := by
  obtain ⟨before, behind, hrow, hpoint⟩ := h.row
  have hten : (10 : ℚ) ≠ 0 := by norm_num
  have hlength : whole.length + fraction.tail.length = before + (digits.length + behind) := by
    have hsame := congrArg List.length hrow
    simpa only [List.length_append, List.length_replicate] using hsame
  have hscale : exponentValue exponent - fraction.tail.length =
      point - digits.length - behind := by omega
  have hvalue : rowValue (whole ++ fraction.tail) = rowValue digits * tenTo behind := by
    rw [hrow, rowValue_zeros_append, rowValue_append_zeros]
  show (rowValue (whole ++ fraction.tail) : ℚ) * 10 ^ (exponentValue exponent -
    fraction.tail.length) = rowValue digits / 10 ^ digits.length * 10 ^ point
  rw [hvalue, hscale, Nat.cast_mul, cast_tenTo, zpow_sub₀ hten, zpow_sub₀ hten, zpow_natCast,
    zpow_natCast]
  field_simp

/-- What is in front of the exponent of a numeral has no `e`, and the whole part no point. -/
theorem IsNumeral.cut (h : IsNumeral text whole fraction exponent) :
    text.takeWhile (· ≠ 'e') = whole ++ fraction ∧ text.dropWhile (· ≠ 'e') = exponent ∧
      (whole ++ fraction).takeWhile (· ≠ '.') = whole ∧
      (whole ++ fraction).dropWhile (· ≠ '.') = fraction := by
  have hdigit (c d : Char) (hd : isDigit d = false) (hc : isDigit c = true) :
      decide (c ≠ d) = true := by
    refine decide_eq_true ?_
    rintro rfl
    rw [hc] at hd
    cases hd
  have hmantissa : ∀ c ∈ whole ++ fraction, decide (c ≠ 'e') = true := by
    intro c hc
    rcases List.mem_append.mp hc with hc | hc
    · exact hdigit c 'e' (by decide) (h.whole.2 c hc)
    · rcases h.fraction with rfl | ⟨more, hmore, rfl⟩
      · exact absurd hc List.not_mem_nil
      · rcases List.mem_cons.mp hc with rfl | hc
        · decide
        · exact hdigit c 'e' (by decide) (hmore.2 c hc)
  have hwhole : ∀ c ∈ whole, decide (c ≠ '.') = true :=
    fun c hc => hdigit c '.' (by decide) (h.whole.2 c hc)
  have hstop : exponent.takeWhile (· ≠ 'e') = [] ∧ exponent.dropWhile (· ≠ 'e') = exponent := by
    rcases h.exponent with rfl | ⟨sign, more, -, -, rfl⟩ <;> exact ⟨rfl, rfl⟩
  have hpoint : fraction.takeWhile (· ≠ '.') = [] ∧ fraction.dropWhile (· ≠ '.') = fraction := by
    rcases h.fraction with rfl | ⟨more, -, rfl⟩ <;> exact ⟨rfl, rfl⟩
  rw [h.text, List.takeWhile_append_of_pos hmantissa, List.dropWhile_append_of_pos hmantissa,
    List.takeWhile_append_of_pos hwhole, List.dropWhile_append_of_pos hwhole, hstop.1, hstop.2,
    hpoint.1, hpoint.2, List.append_nil, List.append_nil]
  exact ⟨rfl, rfl, rfl, rfl⟩

/-- The exponent of a numeral is an integer. -/
theorem IsNumeral.integer?_eq (h : IsNumeral text whole fraction exponent) :
    (if exponent.isEmpty then some 0 else integer? exponent.tail) =
      some (exponentValue exponent) := by
  rcases h.exponent with rfl | ⟨sign, more, hsign, hmore, rfl⟩
  · rfl
  · have hread : readSign (sign :: more) = (decide (sign = '-'), 1, more) := by
      rcases hsign with rfl | rfl <;> rfl
    have hempty : more.isEmpty = false := List.isEmpty_eq_false_iff.mpr hmore.1
    have hall : more.all isDigit = true := List.all_eq_true.mpr hmore.2
    show integer? (sign :: more) = _
    unfold integer?
    rw [hread]
    dsimp only
    rw [hempty, hall, Bool.not_true, Bool.or_false, if_neg Bool.false_ne_true]
    rcases hsign with rfl | rfl <;> rfl

/-- **Cutting and stripping finds what a numeral carries**, if it is trimmed. -/
theorem Carries.decimalDigits?_eq (h : Carries whole fraction exponent digits point)
    (hnumeral : IsNumeral text whole fraction exponent) (htrimmed : IsTrimmed digits) :
    decimalDigits? text = some (digits, point) := by
  obtain ⟨before, behind, hrow, hpoint⟩ := h.row
  obtain ⟨hmantissa, hpower, hwhole, hfraction⟩ := hnumeral.cut
  have hfirst : (digits ++ List.replicate behind '0').head? ≠ some '0' := by
    obtain ⟨c, rest, rfl⟩ := List.exists_cons_of_ne_nil htrimmed.isDigits.1
    exact htrimmed.first
  have hlast : digits.reverse.head? ≠ some '0' := by
    rw [List.head?_reverse]
    exact htrimmed.last
  unfold decimalDigits?
  dsimp only
  rw [hmantissa, hpower, hwhole, hfraction, hnumeral.integer?_eq, hrow, dropWhile_zeros _ hfirst,
    List.reverse_append, List.reverse_replicate, dropWhile_zeros _ hlast, List.reverse_reverse,
    Option.map_some]
  simp only [List.length_append, List.length_replicate]
  congr 2
  push_cast
  omega

/-- **What does not stand for zero carries trimmed digits.** -/
theorem exists_carries (exponent : List Char)
    (hdigits : ∀ c ∈ whole ++ fraction.tail, isDigit c = true)
    (hne : rowValue (whole ++ fraction.tail) ≠ 0) :
    ∃ digits point, IsTrimmed digits ∧ Carries whole fraction exponent digits point := by
  obtain ⟨before, rest, hrow, hfirst⟩ := exists_zeros_append (whole ++ fraction.tail)
  obtain ⟨behind, digits, rfl, hlast⟩ := exists_append_zeros rest
  rw [hrow] at hdigits hne
  have hnil : digits ≠ [] := by
    rintro rfl
    rw [rowValue_zeros_append, List.nil_append, rowValue_zeros] at hne
    exact hne rfl
  have hhead : digits.head? ≠ some '0' := by
    obtain ⟨c, more, rfl⟩ := List.exists_cons_of_ne_nil hnil
    exact hfirst
  refine ⟨digits, whole.length + exponentValue exponent - before, ⟨⟨hnil, fun c hc => ?_⟩, hhead,
    hlast⟩, ⟨before, behind, hrow, by omega⟩⟩
  exact hdigits c (List.mem_append_right _ (List.mem_append_left _ hc))

/-- **Digits and point of a decimal text.**  Of a numeral that does not stand for zero, cutting and
    stripping finds trimmed digits and a point, and they are worth what the numeral is worth. -/
theorem IsNumeral.decimalDigits?_exact (h : IsNumeral text whole fraction exponent)
    (hne : (decimalOf whole fraction exponent).value ≠ 0) :
    ∃ digits point, decimalDigits? text = some (digits, point) ∧ IsTrimmed digits ∧
      pointed digits point = (decimalOf whole fraction exponent).value := by
  have hdigits : ∀ c ∈ whole ++ fraction.tail, isDigit c = true := by
    intro c hc
    rcases List.mem_append.mp hc with hc | hc
    · exact h.whole.2 c hc
    · rcases h.fraction with rfl | ⟨more, hmore, rfl⟩
      · exact absurd hc List.not_mem_nil
      · exact hmore.2 c hc
  have hrow : rowValue (whole ++ fraction.tail) ≠ 0 := by
    intro hzero
    refine hne ?_
    show (rowValue (whole ++ fraction.tail) : ℚ) * _ = 0
    rw [hzero, Nat.cast_zero, zero_mul]
  obtain ⟨digits, point, htrimmed, hcarries⟩ := exists_carries exponent hdigits hrow
  exact ⟨digits, point, hcarries.decimalDigits?_eq h htrimmed, htrimmed, hcarries.value.symm⟩

end

/-! ## The digits of the shortest decimal -/

/-- The digits of a number that is not zero do not begin with a zero. -/
theorem head?_toDigits {n : Nat} (hn : n ≠ 0) : (Nat.toDigits 10 n).head? ≠ some '0' := by
  have hsmall : ∀ m < 10, m ≠ 0 → [Nat.digitChar m].head? ≠ some '0' := by decide
  induction n using Nat.strongRecOn with
  | ind n ih =>
    by_cases hlt : n < 10
    · rw [Nat.toDigits_of_lt_base hlt]
      exact hsmall n hlt hn
    · have hfront : n / 10 ≠ 0 := by omega
      have hsplit := Nat.toDigits_of_base_le (b := 10) (by decide) (Nat.le_of_not_lt hlt)
      rw [hsplit, List.head?_append_of_ne_nil _ Nat.toDigits_ne_nil]
      exact ih (n / 10) (by omega) hfront

/-- Nor do they end with a zero, if ten does not divide the number. -/
theorem getLast?_toDigits {n : Nat} (hn : n % 10 ≠ 0) :
    (Nat.toDigits 10 n).getLast? ≠ some '0' := by
  intro hlast
  obtain ⟨front, hfront⟩ := List.getLast?_eq_some_iff.mp hlast
  have hvalue := rowValue_append_zeros front 1
  rw [List.replicate_one, ← hfront, rowValue_toDigits] at hvalue
  rw [hvalue] at hn
  exact hn (Nat.mul_mod_left _ 10)

/-- Stripping leaves no zero at the end. -/
theorem stripZeros_digits (digits : Nat) (scale : Int) (h : (stripZeros digits scale).digits ≠ 0) :
    (stripZeros digits scale).digits % 10 ≠ 0 := by
  induction digits, scale using stripZeros.induct with
  | case1 digits scale hzero ih =>
    rw [stripZeros, dif_pos hzero] at h ⊢
    exact ih h
  | case2 digits scale hzero =>
    rw [stripZeros, dif_neg hzero] at h ⊢
    exact fun hdivides => hzero ⟨h, hdivides⟩

/-- **The digits of the shortest decimal have no zero at either end.** -/
theorem isTrimmed_digitChars {x : Float} (hfinite : isFinite x = true) (hne : (x == 0) = false) :
    IsTrimmed (shortest x).digitChars := by
  have hpos := significand_pos hfinite hne
  have hdigits : (shortest x).digits ≠ 0 :=
    Nat.ne_of_gt (Magnitude.Holds.size_mem (isCanonical_magnitude hfinite) hpos
      (Magnitude.holds_shortest hpos)).1
  refine ⟨isDigits_toDigits _, head?_toDigits hdigits, getLast?_toDigits ?_⟩
  exact stripZeros_digits _ _ hdigits

end BellaLang.Number
