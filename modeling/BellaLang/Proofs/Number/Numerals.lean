import BellaLang.Grammar.Token
import BellaLang.Number.Notation
import BellaLang.Proofs.Number.Shortest

/-!
Numbers are written as numerals.

What a notation makes of the digits of a finite number is a numeral, wherever its point stands, and
this numeral stands for the decimal that the digits are of (`Notation.writes_layOut`).  A numeral
is cut off where it ends, if what follows cannot go on with it, and what is read of it are its parts
(`IsNumeral.readNumeral`).
-/

namespace BellaLang.Number

open BellaLang.Text Float.Model

/-! ## Numerals -/

/-- One or more decimal digits. -/
def IsDigits (text : List Char) : Prop := text ≠ [] ∧ ∀ c ∈ text, isDigit c = true

/-- Digits, then perhaps a point with digits, then perhaps an exponent. -/
structure IsNumeral (text whole fraction exponent : List Char) : Prop where
  text : text = whole ++ fraction ++ exponent
  whole : IsDigits whole
  fraction : fraction = [] ∨ ∃ digits, IsDigits digits ∧ fraction = '.' :: digits
  exponent : exponent = [] ∨ ∃ sign digits, (sign = '+' ∨ sign = '-') ∧ IsDigits digits ∧
    exponent = 'e' :: sign :: digits

/-- No numeral can go on with this text. -/
def EndsNumeral (rest : List Char) : Prop :=
  ∀ c ∈ rest.head?, isDigit c = false ∧ c ≠ '.' ∧ c ≠ 'e' ∧ c ≠ 'E'

/-! ## What the parts stand for -/

/-- The digits of a text, as numbers. -/
def digitValues (text : List Char) : List Nat := text.map fun c => (digitValue? c).getD 0

/-- The number that a row of digits stands for. -/
def rowValue (text : List Char) : Nat := digitsValue (digitValues text)

/-- What an exponent stands for; where there is none, zero. -/
def exponentValue (exponent : List Char) : Int :=
  let size : Int := rowValue (exponent.drop 2)
  if exponent[1]? = some '-' then -size else size

/-- The decimal that a numeral stands for, by its parts. -/
def decimalOf (whole fraction exponent : List Char) : Decimal :=
  ⟨rowValue (whole ++ fraction.tail), exponentValue exponent - fraction.tail.length⟩

theorem length_digitValues (text : List Char) : (digitValues text).length = text.length :=
  List.length_map _

/-! ## Reading a numeral -/

theorem takeDigits_stop {rest : List Char} (h : ∀ c ∈ rest.head?, isDigit c = false) :
    takeDigits rest = ([], rest) := by
  cases rest with
  | nil => rfl
  | cons c rest =>
    have hc : digitValue? c = none :=
      Option.isNone_iff_eq_none.mp (Option.isSome_eq_false_iff.mp (h c rfl))
    rw [takeDigits, hc]

/-- A row of digits is taken as a whole. -/
theorem takeDigits_append {digits rest : List Char} (h : ∀ c ∈ digits, isDigit c = true)
    (hrest : ∀ c ∈ rest.head?, isDigit c = false) :
    takeDigits (digits ++ rest) = (digitValues digits, rest) := by
  induction digits with
  | nil => exact takeDigits_stop hrest
  | cons c digits ih =>
    have htake := ih fun d hd => h d (List.mem_cons_of_mem c hd)
    obtain ⟨value, hvalue⟩ := Option.isSome_iff_exists.mp (h c List.mem_cons_self)
    have hvalues : digitValues (c :: digits) = value :: digitValues digits := by
      rw [digitValues, List.map_cons, hvalue]
      rfl
    rw [List.cons_append, takeDigits, hvalue, htake, hvalues]

/-- A point with digits is taken as a whole, and so is its absence. -/
theorem readFraction_append {fraction rest : List Char}
    (h : fraction = [] ∨ ∃ digits, IsDigits digits ∧ fraction = '.' :: digits)
    (hrest : ∀ c ∈ rest.head?, isDigit c = false ∧ c ≠ '.') :
    readFraction (fraction ++ rest) = (digitValues fraction.tail, rest) := by
  rcases h with rfl | ⟨digits, ⟨hne, hdigits⟩, rfl⟩
  · rw [List.nil_append]
    unfold readFraction
    split
    · exact absurd rfl (hrest '.' rfl).2
    · rfl
  · have htake := takeDigits_append hdigits fun c hc => (hrest c hc).1
    rw [List.cons_append, readFraction, htake]
    split
    · rename_i hnil
      exact absurd (List.map_eq_nil_iff.mp (Prod.mk.inj hnil).1) hne
    · rfl

/-- An exponent is taken as a whole, and so is its absence. -/
theorem readExponent_append {exponent rest : List Char}
    (h : exponent = [] ∨ ∃ sign digits, (sign = '+' ∨ sign = '-') ∧ IsDigits digits ∧
      exponent = 'e' :: sign :: digits)
    (hrest : EndsNumeral rest) :
    readExponent (exponent ++ rest) = (exponentValue exponent, exponent.length, rest) := by
  rcases h with rfl | ⟨sign, digits, hsign, ⟨hne, hdigits⟩, rfl⟩
  · rw [List.nil_append]
    cases rest with
    | nil => rfl
    | cons c rest =>
      obtain ⟨-, -, he, hE⟩ := hrest c rfl
      rw [readExponent, if_neg fun h => h.elim he hE]
      rfl
  · have htake := takeDigits_append hdigits fun c hc => (hrest c hc).1
    have hread : readSign (sign :: (digits ++ rest)) =
        (decide (sign = '-'), 1, digits ++ rest) := by
      rcases hsign with rfl | rfl <;> rfl
    rw [List.cons_append, List.cons_append, readExponent, if_pos (Or.inl rfl), hread]
    dsimp only
    rw [htake]
    split
    · rename_i hnil
      exact absurd (List.map_eq_nil_iff.mp (Prod.mk.inj hnil).1) hne
    · rename_i taken after hne htaken
      obtain ⟨rfl, rfl⟩ := Prod.mk.inj htaken
      have hsize : 1 + 1 + (digitValues digits).length = ('e' :: sign :: digits).length := by
        rw [length_digitValues, List.length_cons, List.length_cons]
        omega
      rw [hsize]
      rcases hsign with rfl | rfl <;> rfl

/-- **A numeral is cut off where it ends, and read by its parts.** -/
theorem IsNumeral.readNumeral {text whole fraction exponent rest : List Char}
    (h : IsNumeral text whole fraction exponent) (hrest : EndsNumeral rest) :
    readNumeral (text ++ rest) = some (⟨digitValues whole, digitValues fraction.tail,
      exponentValue exponent, text.length⟩, rest) := by
  -- From the end to the front: each part is read in front of what comes after it.
  have hexponent := readExponent_append h.exponent hrest
  have hends : ∀ c ∈ (exponent ++ rest).head?, isDigit c = false ∧ c ≠ '.' := by
    rcases h.exponent with rfl | ⟨sign, digits, -, -, rfl⟩
    · exact fun c hc => ⟨(hrest c hc).1, (hrest c hc).2.1⟩
    · intro c hc
      obtain rfl : 'e' = c := Option.some.inj hc
      decide
  have hfraction := readFraction_append h.fraction hends
  have hpoint : (if (digitValues fraction.tail).isEmpty then 0 else 1) +
      (digitValues fraction.tail).length = fraction.length := by
    rcases h.fraction with rfl | ⟨digits, ⟨hne, -⟩, rfl⟩
    · rfl
    · obtain ⟨c, others, rfl⟩ := List.exists_cons_of_ne_nil hne
      rw [length_digitValues]
      exact Nat.add_comm 1 _
  have hstops : ∀ c ∈ (fraction ++ (exponent ++ rest)).head?, isDigit c = false := by
    rcases h.fraction with rfl | ⟨digits, -, rfl⟩
    · exact fun c hc => (hends c hc).1
    · intro c hc
      obtain rfl : '.' = c := Option.some.inj hc
      decide
  have hwhole := takeDigits_append h.whole.2 hstops
  have htext : text ++ rest = whole ++ (fraction ++ (exponent ++ rest)) := by
    rw [h.text, List.append_assoc, List.append_assoc]
  rw [htext, Number.readNumeral, hwhole]
  split
  · rename_i hnil
    exact absurd (List.map_eq_nil_iff.mp (Prod.mk.inj hnil).1) h.whole.1
  · rename_i found after hne hfound
    obtain ⟨rfl, rfl⟩ := Prod.mk.inj hfound
    rw [hfraction]
    dsimp only
    rw [hexponent]
    have hlength : text.length = whole.length + fraction.length + exponent.length := by
      rw [h.text, List.length_append, List.length_append]
    rw [hlength, ← hpoint, length_digitValues whole]
    dsimp only
    rw [Nat.add_assoc (whole.length)]

/-- A numeral is cut off where it ends. -/
theorem IsNumeral.matchLength {text whole fraction exponent rest : List Char}
    (h : IsNumeral text whole fraction exponent) (hrest : EndsNumeral rest) :
    Terminal.numeral.matchLength (text ++ rest) = text.length := by
  rw [Terminal.matchLength, h.readNumeral hrest]

/-- The number that a numeral stands for is the double nearest to its decimal. -/
theorem IsNumeral.numeralValue {text whole fraction exponent : List Char}
    (h : IsNumeral text whole fraction exponent) :
    numeralValue text =
      nearest (decimalOf whole fraction exponent).digits
        (decimalOf whole fraction exponent).scale := by
  have hends : EndsNumeral [] := fun c hc => by cases hc
  have hread := h.readNumeral hends
  rw [List.append_nil] at hread
  rw [Number.numeralValue, hread]
  show nearest _ _ = _
  rw [length_digitValues]
  unfold decimalOf rowValue digitValues
  rw [List.map_append]

/-! ## Rows of digits -/

theorem digitsValue_foldl (digits : List Nat) (n : Nat) :
    digits.foldl (fun n d => 10 * n + d) n = n * tenTo digits.length + digitsValue digits := by
  induction digits generalizing n with
  | nil => exact (Nat.mul_one n).symm
  | cons d digits ih =>
    have hstep : digitsValue (d :: digits) = d * tenTo digits.length + digitsValue digits := by
      rw [digitsValue, List.foldl_cons, ih]
      simp
    have hten : tenTo (digits.length + 1) = tenTo digits.length * 10 := rfl
    rw [List.foldl_cons, ih, hstep, List.length_cons, hten]
    ring

theorem rowValue_append (a b : List Char) :
    rowValue (a ++ b) = rowValue a * tenTo b.length + rowValue b := by
  rw [rowValue, digitValues, List.map_append, digitsValue, List.foldl_append, digitsValue_foldl,
    List.length_map]
  rfl

theorem rowValue_zeros (n : Nat) : rowValue (List.replicate n '0') = 0 := by
  induction n with
  | zero => rfl
  | succ n ih =>
    have hfirst : '0' :: List.replicate n '0' = ['0'] ++ List.replicate n '0' := rfl
    rw [List.replicate_succ, hfirst, rowValue_append, ih, List.length_replicate]
    exact Nat.zero_mul _

theorem rowValue_append_zeros (a : List Char) (n : Nat) :
    rowValue (a ++ List.replicate n '0') = rowValue a * tenTo n := by
  rw [rowValue_append, rowValue_zeros, List.length_replicate, Nat.add_zero]

theorem rowValue_zeros_append (a : List Char) (n : Nat) :
    rowValue (List.replicate n '0' ++ a) = rowValue a := by
  rw [rowValue_append, rowValue_zeros, Nat.zero_mul, Nat.zero_add]

/-- An ASCII digit is one of the ten after the zero. -/
theorem digitValue?_of_isDigit {c : Char} (h : c.isDigit = true) :
    digitValue? c = some (c.toNat - 48) := by
  have hrange : 48 ≤ c.toNat ∧ c.toNat ≤ 57 := by
    obtain ⟨hleast, hgreatest⟩ := Bool.and_eq_true_iff.mp h
    exact ⟨UInt32.le_iff_toNat_le.mp (of_decide_eq_true hleast),
      UInt32.le_iff_toNat_le.mp (of_decide_eq_true hgreatest)⟩
  have hascii : c.toNat < 128 := by omega
  rw [digitValue?, if_pos hascii, asciiDigit?, if_pos hrange]

theorem isDigits_toDigits (n : Nat) : IsDigits (Nat.toDigits 10 n) := by
  refine ⟨Nat.toDigits_ne_nil, fun c hc => ?_⟩
  have hdigit := Nat.isDigit_of_mem_toDigits (by decide) (by decide) hc
  rw [isDigit, digitValue?_of_isDigit hdigit]
  rfl

/-- The decimal digits of a number stand for it. -/
theorem rowValue_toDigits (n : Nat) : rowValue (Nat.toDigits 10 n) = n := by
  have hvalues : digitValues (Nat.toDigits 10 n) =
      (Nat.toDigits 10 n).map fun c => c.toNat - '0'.toNat := by
    refine List.map_congr_left fun c hc => ?_
    rw [digitValue?_of_isDigit (Nat.isDigit_of_mem_toDigits (by decide) (by decide) hc)]
    rfl
  rw [rowValue, hvalues, digitsValue, List.foldl_map]
  exact Nat.ofDigitChars_ten_toDigits

/-! ## Writing a numeral -/

theorem isDigits_zero : IsDigits ['0'] := isDigits_toDigits 0

theorem IsDigits.zeros_append {digits : List Char} (h : IsDigits digits) (n : Nat) :
    IsDigits (List.replicate n '0' ++ digits) := by
  refine ⟨fun hnil => h.1 (List.append_eq_nil_iff.mp hnil).2, fun c hc => ?_⟩
  rcases List.mem_append.mp hc with hc | hc
  · rw [List.eq_of_mem_replicate hc]
    rfl
  · exact h.2 c hc

theorem IsDigits.append_zeros {digits : List Char} (h : IsDigits digits) (n : Nat) :
    IsDigits (digits ++ List.replicate n '0') := by
  refine ⟨fun hnil => h.1 (List.append_eq_nil_iff.mp hnil).1, fun c hc => ?_⟩
  rcases List.mem_append.mp hc with hc | hc
  · exact h.2 c hc
  · rw [List.eq_of_mem_replicate hc]
    rfl

theorem isDigits_zeros (n : Nat) : IsDigits (List.replicate (n + 1) '0') :=
  isDigits_zero.append_zeros n

/-- The digits can be parted anywhere between the first one and the last. -/
theorem IsDigits.part {digits : List Char} (h : IsDigits digits) {n : Nat} (hpos : 0 < n)
    (hlt : n < digits.length) : IsDigits (digits.take n) ∧ IsDigits (digits.drop n) := by
  refine ⟨⟨?_, fun c hc => h.2 c (List.mem_of_mem_take hc)⟩,
    ⟨?_, fun c hc => h.2 c (List.mem_of_mem_drop hc)⟩⟩
  · refine List.ne_nil_of_length_pos ?_
    rw [List.length_take]
    omega
  · refine List.ne_nil_of_length_pos ?_
    rw [List.length_drop]
    omega

/-- The text is a numeral that stands for the rational number. -/
def Writes (text : List Char) (q : ℚ) : Prop :=
  ∃ whole fraction exponent, IsNumeral text whole fraction exponent ∧
    (decimalOf whole fraction exponent).value = q

/-- A notation ends its whole numbers with nothing, or with a point and zeros. -/
def Notation.EndsWhole (style : Notation) : Prop :=
  style.wholeEnd = [] ∨ ∃ n, style.wholeEnd = '.' :: List.replicate (n + 1) '0'

section
variable {digits : List Char} {point : Int}

/-- A whole number: zeros are put behind the digits. -/
theorem writes_whole {style : Notation} (hwhole : style.EndsWhole) (h : IsDigits digits)
    (hpoint : digits.length ≤ point) :
    Writes (digits ++ List.replicate (point - digits.length).toNat '0' ++ style.wholeEnd)
      (rowValue digits * 10 ^ (point - digits.length)) := by
  have hpower : point - digits.length = ((point - digits.length).toNat : Int) := by omega
  generalize (point - digits.length).toNat = n at hpower
  rw [hpower]
  rcases hwhole with hend | ⟨k, hend⟩
  · refine ⟨_, [], [], ⟨?_, h.append_zeros n, .inl rfl, .inl rfl⟩, ?_⟩
    · rw [hend, List.append_nil, List.append_nil]
    · show (rowValue (digits ++ List.replicate n '0' ++ []) : ℚ) * 10 ^ (0 : Int) = _
      rw [List.append_nil, rowValue_append_zeros, Nat.cast_mul, cast_tenTo, zpow_zero, mul_one,
        zpow_natCast]
  · refine ⟨_, _, [], ⟨?_, h.append_zeros n, .inr ⟨_, isDigits_zeros k, hend⟩, .inl rfl⟩, ?_⟩
    · rw [List.append_nil]
    · rw [hend]
      show (rowValue (digits ++ List.replicate n '0' ++ List.replicate (k + 1) '0') : ℚ) *
        10 ^ ((0 : Int) - (List.replicate (k + 1) '0').length) = _
      rw [rowValue_append_zeros, rowValue_append_zeros, List.length_replicate, zero_sub, zpow_neg,
        Nat.cast_mul, Nat.cast_mul, cast_tenTo, cast_tenTo, zpow_natCast, zpow_natCast]
      exact mul_inv_cancel_right₀ (pow_ne_zero _ (by norm_num)) _

/-- A point among the digits. -/
theorem writes_parted (h : IsDigits digits) (hpos : 0 < point) (hlt : point < digits.length) :
    Writes (digits.take point.toNat ++ '.' :: digits.drop point.toNat)
      (rowValue digits * 10 ^ (point - digits.length)) := by
  obtain ⟨htake, hdrop⟩ := h.part (n := point.toNat) (by omega) (by omega)
  have hscale : (0 : Int) - (digits.drop point.toNat).length = point - digits.length := by
    rw [List.length_drop]
    omega
  refine ⟨_, _, [], ⟨(List.append_nil _).symm, htake, .inr ⟨_, hdrop, rfl⟩, .inl rfl⟩, ?_⟩
  show (rowValue (digits.take point.toNat ++ digits.drop point.toNat) : ℚ) *
    10 ^ ((0 : Int) - (digits.drop point.toNat).length) = _
  rw [List.take_append_drop, hscale]

/-- A point in front of the digits, and zeros between. -/
theorem writes_small (h : IsDigits digits) (hpoint : point ≤ 0) :
    Writes ('0' :: '.' :: List.replicate (-point).toNat '0' ++ digits)
      (rowValue digits * 10 ^ (point - digits.length)) := by
  have hfraction := h.zeros_append (-point).toNat
  have hscale : (0 : Int) - (List.replicate (-point).toNat '0' ++ digits).length =
      point - digits.length := by
    rw [List.length_append, List.length_replicate]
    omega
  refine ⟨['0'], _, [], ⟨(List.append_nil _).symm, isDigits_zero, .inr ⟨_, hfraction, rfl⟩,
    .inl rfl⟩, ?_⟩
  show (rowValue (['0'] ++ (List.replicate (-point).toNat '0' ++ digits)) : ℚ) *
    10 ^ ((0 : Int) - (List.replicate (-point).toNat '0' ++ digits).length) = _
  have hzero := rowValue_zeros_append (List.replicate (-point).toNat '0' ++ digits) 1
  rw [hscale, List.replicate_one] at *
  rw [hzero, rowValue_zeros_append]

/-- An exponent behind the digits. -/
theorem writes_exponent {whole fraction : List Char} (hwhole : IsDigits whole)
    (hfraction : fraction = [] ∨ ∃ digits, IsDigits digits ∧ fraction = '.' :: digits)
    (exponent : Int) (width : Nat) :
    Writes (whole ++ fraction ++ 'e' :: (if 0 ≤ exponent then '+' else '-') ::
        (List.replicate width '0' ++ Nat.toDigits 10 exponent.natAbs))
      (rowValue (whole ++ fraction.tail) * 10 ^ (exponent - fraction.tail.length)) := by
  have hdigits := (isDigits_toDigits exponent.natAbs).zeros_append width
  have hsize : rowValue (List.replicate width '0' ++ Nat.toDigits 10 exponent.natAbs) =
      exponent.natAbs := by
    rw [rowValue_zeros_append, rowValue_toDigits]
  generalize List.replicate width '0' ++ Nat.toDigits 10 exponent.natAbs = places at hdigits hsize
  have hvalue : exponentValue ('e' :: (if 0 ≤ exponent then '+' else '-') :: places) =
      exponent := by
    unfold exponentValue
    split
    · show (if some '+' = some '-' then -(rowValue places : Int) else rowValue places) = exponent
      rw [if_neg (by decide), hsize]
      omega
    · show (if some '-' = some '-' then -(rowValue places : Int) else rowValue places) = exponent
      rw [if_pos rfl, hsize]
      omega
  refine ⟨whole, fraction, _, ⟨rfl, hwhole, hfraction, .inr ⟨_, places, ?_, hdigits, rfl⟩⟩, ?_⟩
  · split
    · exact .inl rfl
    · exact .inr rfl
  · unfold decimalOf Decimal.value
    rw [hvalue]

/-- **However digits are laid out, a numeral comes of it that stands for them.** -/
theorem Notation.writes_layOut {style : Notation} (hwhole : style.EndsWhole) (h : IsDigits digits)
    (point : Int) :
    Writes (style.layOut digits point) (rowValue digits * 10 ^ (point - digits.length)) := by
  unfold layOut
  dsimp only
  split
  · split
    · rename_i hpoint
      exact writes_whole hwhole h hpoint
    · split
      · exact writes_parted h (by omega) (by omega)
      · exact writes_small h (by omega)
  · split
    · rename_i first second more
      obtain ⟨hfirst, hmore⟩ := h.part (n := 1) (by decide) (by simp)
      have hlength : (first :: second :: more).length = (second :: more).length + 1 := rfl
      have hscale : point - (first :: second :: more).length =
          point - 1 - (second :: more).length := by
        rw [hlength]
        omega
      rw [hscale]
      exact writes_exponent hfirst (.inr ⟨_, hmore, rfl⟩) (point - 1) _
    · rename_i hshort
      obtain ⟨first, others, rfl⟩ := List.exists_cons_of_ne_nil h.1
      cases others with
      | cons second more => exact absurd rfl (hshort first second more)
      | nil =>
        have hscale : point - ([first].length : Int) = point - 1 - (0 : Nat) :=
          (sub_zero (point - 1)).symm
        rw [hscale]
        exact writes_exponent h (.inl rfl) (point - 1) _

end

/-! ## Finite numbers -/

/-- A finite number is a number. -/
theorem isNaN_of_isFinite {x : Float} (h : isFinite x = true) : x.isNaN = false := by
  have hexponent : @UnpackedFloat.unpackExponent Format.binary64 x.toBits.toBitVec ≠ -1#_ := by
    intro hones
    have hnat := congrArg BitVec.toNat hones
    have hbits : x.toBits.toNat / twoTo 52 % twoTo 11 = 2047 := by
      rw [UnpackedFloat.unpackExponent, BitVec.toNat_cast, BitVec.extractLsb_toNat,
        Nat.shiftRight_eq_div_pow] at hnat
      exact hnat
    rw [isFinite, hbits] at h
    exact absurd h (by decide)
  show (@UnpackedFloat.unpack Format.binary64 x.toBits.toBitVec).isNaN = false
  unfold UnpackedFloat.unpack
  dsimp only
  rw [if_neg hexponent]
  by_cases hsubnormal : @UnpackedFloat.unpackExponent Format.binary64 x.toBits.toBitVec = 0#_
  · rw [if_pos hsubnormal]
    by_cases hzero : @UnpackedFloat.unpackMantissa Format.binary64 x.toBits.toBitVec = 0#_
    · rw [dif_pos hzero]
      rfl
    · rw [dif_neg hzero]
      rfl
  · rw [if_neg hsubnormal]
    rfl

/-- Does the text of a number begin with a minus sign? -/
def Notation.showsSign (style : Notation) (x : Float) : Bool :=
  isNegative x && (style.signedZero || !(x == 0))

/-- The text of a finite number behind the sign. -/
def Notation.unsigned (style : Notation) (x : Float) : List Char :=
  if x == 0 then '0' :: style.wholeEnd
  else style.layOut (shortest x).digitChars (shortest x).point

/-- The decimal that stands for the size of a finite number. -/
def decimal (x : Float) : ℚ := if x == 0 then 0 else (shortest x).value

/-- **A finite number is written with a minus sign, if it has one, and a numeral.** -/
theorem Notation.write_eq (style : Notation) {x : Float} (hfinite : isFinite x = true) :
    style.write x = (if style.showsSign x then ['-'] else []) ++ style.unsigned x := by
  unfold write showsSign unsigned
  rw [isNaN_of_isFinite hfinite, hfinite, if_neg Bool.false_ne_true]
  cases x == 0 <;> cases isNegative x <;> cases style.signedZero <;> rfl

/-- The numeral stands for the decimal. -/
theorem Notation.writes_unsigned {style : Notation} (hwhole : style.EndsWhole) (x : Float) :
    Writes (style.unsigned x) (decimal x) := by
  unfold unsigned decimal
  split
  · have hone : (['0'].length : Int) ≤ 1 := le_rfl
    have hwrites := writes_whole hwhole isDigits_zero hone
    have hzero : rowValue ['0'] = 0 := rowValue_zeros 1
    rw [hzero, Nat.cast_zero, zero_mul] at hwrites
    exact hwrites
  · have hwrites := writes_layOut hwhole (isDigits_toDigits (shortest x).digits) (shortest x).point
    have hscale : (shortest x).point - (Nat.toDigits 10 (shortest x).digits).length =
        (shortest x).scale := add_sub_cancel_left _ _
    rw [rowValue_toDigits, hscale] at hwrites
    exact hwrites

theorem endsWhole_literal : literal.EndsWhole := .inr ⟨0, rfl⟩

theorem endsWhole_canonical : canonical.EndsWhole := .inl rfl

/-- **A finite number without a sign is written as a numeral.** -/
theorem isNumeral_write {x : Float} (hfinite : isFinite x = true) (hsign : isNegative x = false) :
    ∃ whole fraction exponent, IsNumeral (literal.write x) whole fraction exponent := by
  have hnone : literal.showsSign x = false := by rw [Notation.showsSign, hsign, Bool.false_and]
  obtain ⟨whole, fraction, exponent, hnumeral, -⟩ := Notation.writes_unsigned endsWhole_literal x
  rw [literal.write_eq hfinite, hnone]
  exact ⟨whole, fraction, exponent, hnumeral⟩

end BellaLang.Number
