import BellaLang.Proofs.Number.Comparing
import BellaLang.Proofs.Number.Digits

/-!
The canonical text is exact.

The canonical text of a number can be made from what any other notation makes of its size, as long
as that reads back: take the digits and the point out of it by cutting and stripping, and lay them
out anew (`canonicalFrom?`).  Made from literals it is the text that is printed.

  1. A layout is one of four forms (`Notation.Layout`).  In each of them the numeral carries the
     digits and the point it was made from (`Notation.Layout.carries`).
  2. In the canonical notation the form hangs on the point as it should, and there is no superfluous
     zero (`Notation.Layout.isCanonicalLayout`).
  3. A numeral stands for one number (`Writes.unique`), and a number that reads back belongs to one
     double (`Magnitude.eq_of_holds`), so the text tells which double it is of.

Main statement: `canonical_exact`.
-/

namespace BellaLang.Number

open BellaLang.Text

/-! ## Four forms -/

/-- How a notation lays digits out: the three parts of the numeral that comes of it. -/
inductive Notation.Layout (style : Notation) (digits : List Char) (point : Int) :
    (whole fraction exponent : List Char) → Prop
  /-- Zeros fill up a whole number. -/
  | whole (hrange : style.least ≤ point ∧ point ≤ style.greatest) (hfits : digits.length ≤ point) :
    Layout style digits point (digits ++ List.replicate (point - digits.length).toNat '0')
      style.wholeEnd []
  /-- The point stands among the digits. -/
  | parted (hrange : style.least ≤ point ∧ point ≤ style.greatest) (hpos : 0 < point)
      (hlt : point < digits.length) :
    Layout style digits point (digits.take point.toNat) ('.' :: digits.drop point.toNat) []
  /-- The point stands in front of the digits. -/
  | small (hrange : style.least ≤ point ∧ point ≤ style.greatest) (hpoint : point ≤ 0) :
    Layout style digits point ['0'] ('.' :: (List.replicate (-point).toNat '0' ++ digits)) []
  /-- The point stands behind the first digit, and an exponent says where it belongs. -/
  | scientific (hrange : ¬ (style.least ≤ point ∧ point ≤ style.greatest)) :
    Layout style digits point (digits.take 1)
      (if digits.length = 1 then [] else '.' :: digits.drop 1)
      ('e' :: (if 0 ≤ point - 1 then '+' else '-') ::
        (List.replicate (style.exponentWidth - (Nat.toDigits 10 (point - 1).natAbs).length) '0' ++
          Nat.toDigits 10 (point - 1).natAbs))

section

variable {style : Notation} {digits whole fraction exponent : List Char} {point : Int}

/-- Digits are always laid out in one of the forms. -/
theorem Notation.exists_layout (style : Notation) (h : digits ≠ []) (point : Int) :
    ∃ whole fraction exponent, style.Layout digits point whole fraction exponent ∧
      style.layOut digits point = whole ++ fraction ++ exponent := by
  have hlength := List.length_pos_iff.mpr h
  unfold layOut
  dsimp only
  split
  · rename_i hrange
    split
    · rename_i hfits
      exact ⟨_, _, _, .whole hrange hfits, (List.append_nil _).symm⟩
    · split
      · rename_i hpos
        exact ⟨_, _, _, .parted hrange hpos (by omega), (List.append_nil _).symm⟩
      · exact ⟨_, _, _, .small hrange (by omega), (List.append_nil _).symm⟩
  · rename_i hrange
    refine ⟨_, _, _, .scientific hrange, ?_⟩
    split
    · rename_i first second more
      have hlong : ¬ (first :: second :: more).length = 1 := by simp
      rw [if_neg hlong]
      rfl
    · rename_i hshort
      obtain ⟨first, others, rfl⟩ := List.exists_cons_of_ne_nil h
      cases others with
      | cons second more => exact absurd rfl (hshort first second more)
      | nil => rfl

/-- What the exponent of a scientific numeral stands for. -/
theorem exponentValue_scientific (width : Nat) (n : Int) :
    exponentValue ('e' :: (if 0 ≤ n then '+' else '-') ::
      (List.replicate width '0' ++ Nat.toDigits 10 n.natAbs)) = n := by
  have hsize : rowValue (List.replicate width '0' ++ Nat.toDigits 10 n.natAbs) = n.natAbs := by
    rw [rowValue_zeros_append, rowValue_toDigits]
  generalize List.replicate width '0' ++ Nat.toDigits 10 n.natAbs = places at hsize
  unfold exponentValue
  by_cases hn : 0 ≤ n
  · rw [if_pos hn]
    show (if some '+' = some '-' then -(rowValue places : Int) else rowValue places) = n
    rw [if_neg (by decide), hsize]
    omega
  · rw [if_neg hn]
    show (if some '-' = some '-' then -(rowValue places : Int) else rowValue places) = n
    rw [if_pos rfl, hsize]
    omega

/-- **However digits are laid out, a numeral comes of it.** -/
theorem Notation.Layout.isNumeral (h : style.Layout digits point whole fraction exponent)
    (hwhole : style.EndsWhole) (hdigits : IsDigits digits) :
    IsNumeral (whole ++ fraction ++ exponent) whole fraction exponent := by
  have hlength := List.length_pos_iff.mpr hdigits.1
  cases h with
  | whole hrange hfits =>
    refine ⟨rfl, hdigits.append_zeros _, ?_, .inl rfl⟩
    rcases hwhole with hend | ⟨n, hend⟩
    · exact .inl hend
    · exact .inr ⟨_, isDigits_zeros n, hend⟩
  | parted hrange hpos hlt =>
    obtain ⟨hfront, hback⟩ := hdigits.part (n := point.toNat) (by omega) (by omega)
    exact ⟨rfl, hfront, .inr ⟨_, hback, rfl⟩, .inl rfl⟩
  | small hrange hpoint =>
    exact ⟨rfl, isDigits_zero, .inr ⟨_, hdigits.zeros_append _, rfl⟩, .inl rfl⟩
  | scientific hrange =>
    have hexponent := (isDigits_toDigits (point - 1).natAbs).zeros_append
      (style.exponentWidth - (Nat.toDigits 10 (point - 1).natAbs).length)
    have hsign : (if 0 ≤ point - 1 then '+' else '-') = '+' ∨
        (if 0 ≤ point - 1 then '+' else '-') = '-' := by
      split
      · exact .inl rfl
      · exact .inr rfl
    by_cases hone : digits.length = 1
    · have htake : digits.take 1 = digits := List.take_of_length_le (by omega)
      rw [if_pos hone, htake]
      exact ⟨rfl, hdigits, .inl rfl, .inr ⟨_, _, hsign, hexponent, rfl⟩⟩
    · obtain ⟨hfront, hback⟩ := hdigits.part Nat.one_pos (by omega)
      rw [if_neg hone]
      exact ⟨rfl, hfront, .inr ⟨_, hback, rfl⟩, .inr ⟨_, _, hsign, hexponent, rfl⟩⟩

/-- **The numeral carries the digits and the point that it is laid out from.** -/
theorem Notation.Layout.carries (h : style.Layout digits point whole fraction exponent)
    (hwhole : style.EndsWhole) (hdigits : digits ≠ []) :
    Carries whole fraction exponent digits point := by
  have hlength := List.length_pos_iff.mpr hdigits
  have hnone : exponentValue [] = 0 := rfl
  cases h with
  | whole hrange hfits =>
    obtain ⟨n, htail⟩ : ∃ n, style.wholeEnd.tail = List.replicate n '0' := by
      rcases hwhole with hend | ⟨n, hend⟩
      · exact ⟨0, by rw [hend]; rfl⟩
      · exact ⟨n + 1, by rw [hend]; rfl⟩
    refine ⟨0, (point - digits.length).toNat + n, ?_, ?_⟩
    · rw [htail, List.append_assoc, List.replicate_append_replicate]
      rfl
    · rw [hnone, List.length_append, List.length_replicate]
      omega
  | parted hrange hpos hlt =>
    refine ⟨0, 0, ?_, ?_⟩
    · rw [List.tail_cons, List.take_append_drop, List.replicate_zero, List.append_nil,
        List.nil_append]
    · rw [hnone, List.length_take]
      omega
  | small hrange hpoint =>
    refine ⟨(-point).toNat + 1, 0, ?_, ?_⟩
    · rw [List.tail_cons, List.replicate_zero, List.append_nil, List.replicate_succ]
      rfl
    · rw [hnone, List.length_singleton]
      omega
  | scientific hrange =>
    refine ⟨0, 0, ?_, ?_⟩
    · rw [List.replicate_zero, List.append_nil, List.nil_append]
      split
      · rw [List.tail_nil, List.append_nil, List.take_of_length_le (by omega)]
      · rw [List.tail_cons, List.take_append_drop]
    · rw [exponentValue_scientific, List.length_take]
      omega

/-! ## The canonical layout -/

/-- A numeral in the canonical layout of some digits and a point. -/
structure IsCanonicalLayout (digits : List Char) (point : Int)
    (whole fraction exponent : List Char) : Prop where
  /-- An exponent is written where the point is too far away on either side, and only there. -/
  exponent_iff : exponent = [] ↔ -6 < point ∧ point ≤ 21
  /-- Without an exponent there is a fraction unless the digits fit in front of the point. -/
  fraction_iff : exponent = [] → (fraction = [] ↔ digits.length ≤ point)
  /-- With an exponent one digit stands in front of the point and the others behind it. -/
  scientific : exponent ≠ [] → whole = digits.take 1 ∧ fraction.tail = digits.drop 1 ∧
    (fraction = [] ↔ digits.length = 1) ∧ exponentValue exponent = point - 1
  /-- The whole part begins with a zero only if it is nothing else, and has to be there. -/
  whole_zero : whole.head? = some '0' → whole = ['0'] ∧ point ≤ 0
  /-- The fraction does not end with a zero, and the exponent does not begin with one. -/
  fraction_zero : fraction.getLast? ≠ some '0'
  exponent_zero : (exponent.drop 2).head? ≠ some '0'

/-- Digits that have no zero at the end have none after any cut in front of the end. -/
theorem IsTrimmed.getLast?_drop (h : IsTrimmed digits) {n : Nat} (hn : n < digits.length)
    (front : List Char) : (front ++ digits.drop n).getLast? ≠ some '0' := by
  have hback : digits.drop n ≠ [] := fun hnil => by
    have hlength := List.drop_eq_nil_iff.mp hnil
    omega
  have hlast := h.last
  rw [← List.take_append_drop n digits, List.getLast?_append_of_ne_nil _ hback] at hlast
  rw [List.getLast?_append_of_ne_nil _ hback]
  exact hlast

/-- **The canonical notation lays trimmed digits out canonically.** -/
theorem Notation.Layout.isCanonicalLayout
    (h : canonical.Layout digits point whole fraction exponent) (htrimmed : IsTrimmed digits) :
    IsCanonicalLayout digits point whole fraction exponent := by
  obtain ⟨first, more, rfl⟩ := List.exists_cons_of_ne_nil htrimmed.isDigits.1
  have hfirst : first ≠ '0' := fun hzero => htrimmed.first (congrArg some hzero)
  cases h with
  | whole hrange hfits =>
    obtain ⟨hleast, hgreatest⟩ : -5 ≤ point ∧ point ≤ 21 := hrange
    exact {
      exponent_iff := ⟨fun _ => by omega, fun _ => rfl⟩
      fraction_iff := fun _ => ⟨fun _ => hfits, fun _ => rfl⟩
      scientific := fun hne => absurd rfl hne
      whole_zero := fun hzero => absurd (Option.some.inj hzero) hfirst
      fraction_zero := by decide
      exponent_zero := by decide }
  | parted hrange hpos hlt =>
    obtain ⟨hleast, hgreatest⟩ : -5 ≤ point ∧ point ≤ 21 := hrange
    obtain ⟨n, hn⟩ : ∃ n, point.toNat = n + 1 := Nat.exists_eq_succ_of_ne_zero (by omega)
    exact {
      exponent_iff := ⟨fun _ => by omega, fun _ => rfl⟩
      fraction_iff := fun _ =>
        ⟨fun hnil => absurd hnil (List.cons_ne_nil _ _), fun hfits => by omega⟩
      scientific := fun hne => absurd rfl hne
      whole_zero := fun hzero => by
        rw [hn, List.take_succ_cons] at hzero
        exact absurd (Option.some.inj hzero) hfirst
      fraction_zero := htrimmed.getLast?_drop (by omega) ['.']
      exponent_zero := by decide }
  | small hrange hpoint =>
    obtain ⟨hleast, hgreatest⟩ : -5 ≤ point ∧ point ≤ 21 := hrange
    exact {
      exponent_iff := ⟨fun _ => by omega, fun _ => rfl⟩
      fraction_iff := fun _ => by
        rw [List.length_cons]
        exact ⟨fun hnil => absurd hnil (List.cons_ne_nil _ _), fun hfits => by omega⟩
      scientific := fun hne => absurd rfl hne
      whole_zero := fun _ => ⟨rfl, hpoint⟩
      fraction_zero :=
        htrimmed.getLast?_drop (n := 0) (Nat.zero_lt_succ _) ('.' :: List.replicate _ '0')
      exponent_zero := by decide }
  | scientific hrange =>
    have hout : ¬ (-5 ≤ point ∧ point ≤ 21) := hrange
    have hwidth : canonical.exponentWidth - (Nat.toDigits 10 (point - 1).natAbs).length = 0 := by
      have hlength : 0 < (Nat.toDigits 10 (point - 1).natAbs).length := Nat.length_toDigits_pos
      show 1 - _ = 0
      omega
    exact {
      exponent_iff := ⟨fun hnil => absurd hnil (List.cons_ne_nil _ _),
        fun hin => absurd ⟨by omega, hin.2⟩ hout⟩
      fraction_iff := fun hnil => absurd hnil (List.cons_ne_nil _ _)
      scientific := fun _ => by
        refine ⟨rfl, ?_, ?_, exponentValue_scientific _ _⟩
        · split
          · rename_i hone
            rw [List.drop_of_length_le (by omega), List.tail_nil]
          · rfl
        · split
          · rename_i hone
            exact ⟨fun _ => hone, fun _ => rfl⟩
          · rename_i hlong
            exact ⟨fun hnil => absurd hnil (List.cons_ne_nil _ _), fun hone => absurd hone hlong⟩
      whole_zero := fun hzero => absurd (Option.some.inj hzero) hfirst
      fraction_zero := by
        split
        · decide
        · rename_i hlong
          rw [List.length_cons] at hlong
          exact htrimmed.getLast?_drop (by rw [List.length_cons]; omega) ['.']
      exponent_zero := by
        rw [hwidth]
        exact head?_toDigits (by omega) }

end

/-! ## The canonical text out of another one -/

/-- The canonical text of a number, made from what is shown of its size elsewhere. -/
def canonicalFrom? (shown : Float → List Char) (x : Float) : Option (List Char) :=
  let sign := if x < 0 then ['-'] else []
  if x.isNaN then some canonical.nan
  else if x.isInf then some (sign ++ canonical.infinity)
  else if x == 0 then some ['0']
  else (decimalDigits? (shown x.abs)).map fun found => sign ++ canonical.layOut found.1 found.2

/-- The text is a numeral that reads back as the double: it stands for a number that lies nearer to
    this double than to any other. -/
def ReadsBackAs (text : List Char) (x : Float) : Prop :=
  ∃ q, Writes text q ∧ (magnitude x).Holds q

section

variable {x y : Float} {text : List Char} {q : ℚ}

/-- Literals read back. -/
theorem readsBackAs_literal (hfinite : isFinite x = true) (hsign : isNegative x = false)
    (hne : (x == 0) = false) : ReadsBackAs (literal.write x) x := by
  have hunsigned : literal.write x = literal.unsigned x := by
    rw [literal.write_eq hfinite, Notation.showsSign, hsign, Bool.false_and]
    rfl
  have hwrites := Notation.writes_unsigned endsWhole_literal x
  rw [decimal, hne, if_neg Bool.false_ne_true] at hwrites
  rw [hunsigned]
  exact ⟨_, hwrites, Magnitude.holds_shortest (significand_pos hfinite hne)⟩

/-- **A numeral stands for one number only.** -/
theorem Writes.unique {r : ℚ} (hq : Writes text q) (hr : Writes text r) : q = r := by
  obtain ⟨whole, fraction, exponent, hnumeral, rfl⟩ := hq
  obtain ⟨whole', fraction', exponent', hnumeral', rfl⟩ := hr
  have hends : EndsNumeral [] := fun c hc => by cases hc
  have hsame := (hnumeral.readNumeral hends).symm.trans (hnumeral'.readNumeral hends)
  injection hsame with hpair
  injection (Prod.mk.inj hpair).1 with hwhole hfraction hexponent
  have hrow : rowValue (whole ++ fraction.tail) = rowValue (whole' ++ fraction'.tail) := by
    simp only [rowValue, digitValues, List.map_append] at hwhole hfraction ⊢
    rw [hwhole, hfraction]
  have hlength : fraction.tail.length = fraction'.tail.length := by
    rw [← length_digitValues, hfraction, length_digitValues]
  rw [decimalOf, decimalOf, hrow, hexponent, hlength]

/-- A numeral begins with a digit. -/
theorem Writes.exists_cons (h : Writes text q) : ∃ c rest, text = c :: rest ∧ isDigit c = true := by
  obtain ⟨whole, fraction, exponent, hnumeral, -⟩ := h
  obtain ⟨c, more, hwhole⟩ := List.exists_cons_of_ne_nil hnumeral.whole.1
  refine ⟨c, more ++ fraction ++ exponent, ?_, hnumeral.whole.2 c (hwhole ▸ List.mem_cons_self)⟩
  rw [hnumeral.text, hwhole]
  rfl

/-- The sign in front of a numeral can be told from it. -/
theorem sign_append_inj {other : List Char} {r : ℚ} {p p' : Prop} [Decidable p] [Decidable p']
    (hq : Writes text q) (hr : Writes other r)
    (h : (if p then ['-'] else []) ++ text = (if p' then ['-'] else []) ++ other) :
    (p ↔ p') ∧ text = other := by
  obtain ⟨c, rest, htext, hc⟩ := hq.exists_cons
  obtain ⟨d, more, hother, hd⟩ := hr.exists_cons
  have hminus {e : Char} (he : isDigit e = true) : '-' ≠ e := by
    rintro rfl
    cases he
  by_cases hp : p <;> by_cases hp' : p'
  · rw [if_pos hp, if_pos hp'] at h
    exact ⟨iff_of_true hp hp', (List.cons.inj h).2⟩
  · rw [if_pos hp, if_neg hp', hother] at h
    exact absurd (List.cons.inj h).1 (hminus hd)
  · rw [if_neg hp, if_pos hp', htext] at h
    exact absurd (List.cons.inj h).1.symm (hminus hc)
  · rw [if_neg hp, if_neg hp'] at h
    exact ⟨iff_of_false hp hp', h⟩

/-- A decimal lies in the interval of one magnitude only. -/
theorem Magnitude.eq_of_holds {m n : Magnitude} (hm : m.IsCanonical) (hn : n.IsCanonical)
    (hmpos : 0 < m.significand) (hnpos : 0 < n.significand) {d : Decimal} (hd : m.Holds d.value)
    (hd' : n.Holds d.value) : m = n := by
  have hsame : m.double .positive hmpos = n.double .positive hnpos :=
    (nearest_eq hm hmpos hd).symm.trans (nearest_eq hn hnpos hd')
  rw [← (parts_double hm .positive hmpos).2.2, hsame,
    (parts_double hn .positive hnpos).2.2]

/-- Doubles are the same that have the same sign and the same magnitude. -/
theorem eq_of_parts (hx : isFinite x = true) (hy : isFinite y = true)
    (hpos : 0 < (magnitude x).significand) (hmagnitude : magnitude x = magnitude y)
    (hnegative : isNegative x = true ↔ isNegative y = true) : x = y := by
  have hpos' : 0 < (magnitude y).significand := hmagnitude ▸ hpos
  have hsign : sign x = sign y := by
    rw [isNegative_iff, isNegative_iff] at hnegative
    cases hx : sign x with
    | negative => exact (hnegative.mp hx).symm
    | positive =>
      cases hy : sign y with
      | positive => rfl
      | negative => exact hx.symm.trans (hnegative.mpr hy)
  refine eq_of_unpack ?_
  rw [unpack_eq hx hpos, unpack_eq hy hpos', hsign]
  exact finite_congr (by rw [hmagnitude]) (by rw [hmagnitude])

/-- What is neither infinite nor a NaN. -/
theorem isInf_of_isFinite (h : isFinite x = true) : x.isInf = false := by
  show x.toModel.unpack.isInf = false
  rcases unpack_of_isFinite h with ⟨s, hunpack, -⟩ | ⟨s, m, e, hm, hunpack, -⟩ <;>
    rw [hunpack] <;> rfl

/-- **Where the size is shown as a numeral that reads back, the canonical text is made of it**: it
    is laid out canonically from the digits and the point found there, and is worth the same. -/
theorem canonicalFrom?_exact {shown : Float → List Char} (hfinite : isFinite x = true)
    (hne : (x == 0) = false) (hwrites : Writes (shown x.abs) q) (hq : q ≠ 0) :
    ∃ digits point whole fraction exponent,
      decimalDigits? (shown x.abs) = some (digits, point) ∧ IsTrimmed digits ∧
      pointed digits point = q ∧
      canonicalFrom? shown x =
        some ((if x < 0 then ['-'] else []) ++ (whole ++ fraction ++ exponent)) ∧
      IsNumeral (whole ++ fraction ++ exponent) whole fraction exponent ∧
      (decimalOf whole fraction exponent).value = q ∧
      IsCanonicalLayout digits point whole fraction exponent := by
  obtain ⟨w, f, e, hnumeral, rfl⟩ := hwrites
  obtain ⟨digits, point, hfound, htrimmed, hvalue⟩ := hnumeral.decimalDigits?_exact hq
  obtain ⟨whole, fraction, exponent, hlayout, htext⟩ :=
    canonical.exists_layout htrimmed.isDigits.1 point
  have hcarries := hlayout.carries endsWhole_canonical htrimmed.isDigits.1
  refine ⟨digits, point, whole, fraction, exponent, hfound, htrimmed, hvalue, ?_,
    hlayout.isNumeral endsWhole_canonical htrimmed.isDigits, hcarries.value.trans hvalue,
    hlayout.isCanonicalLayout htrimmed⟩
  unfold canonicalFrom?
  dsimp only
  rw [isNaN_of_isFinite hfinite, isInf_of_isFinite hfinite, hne, hfound, if_neg Bool.false_ne_true,
    if_neg Bool.false_ne_true, if_neg Bool.false_ne_true, Option.map_some, htext]

/-- In the interval of a double that is not zero there is no zero. -/
theorem ne_zero_of_holds (hfinite : isFinite x = true) (hne : (x == 0) = false)
    (hholds : (magnitude x).Holds q) : q ≠ 0 := by
  rintro rfl
  have hzero : (magnitude x).Holds (((0 : Nat) : ℚ) * 10 ^ (0 : Int)) := by simpa using hholds
  have hpos := (hzero.size_mem (isCanonical_magnitude hfinite) (significand_pos hfinite hne)).1
  exact Nat.lt_irrefl 0 hpos

/-- The canonical text of a finite number, a zero or not. -/
theorem exists_writes_canonicalFrom? {shown : Float → List Char} (hfinite : isFinite x = true)
    (hshown : (x == 0) = false → ReadsBackAs (shown x.abs) x.abs) :
    ∃ text q, canonicalFrom? shown x = some ((if x < 0 then ['-'] else []) ++ text) ∧
      Writes text q ∧ ((x == 0) = true → q = 0) ∧
      ((x == 0) = false → (magnitude x).Holds q) := by
  cases hzero : x == 0 with
  | true =>
    have hnonneg : ¬ x < 0 := fun hless => by
      rw [((lt_zero_iff hfinite).mp hless).2] at hzero
      cases hzero
    have hwrites := Notation.writes_unsigned endsWhole_canonical x
    rw [Notation.unsigned, decimal, hzero, if_pos rfl, if_pos rfl] at hwrites
    refine ⟨['0'], 0, ?_, hwrites, fun _ => rfl,
      fun hfalse => absurd hfalse.symm Bool.false_ne_true⟩
    unfold canonicalFrom?
    dsimp only
    rw [isNaN_of_isFinite hfinite, isInf_of_isFinite hfinite, hzero, if_neg Bool.false_ne_true,
      if_neg Bool.false_ne_true, if_pos rfl, if_neg hnonneg]
    rfl
  | false =>
    obtain ⟨q, hwrites, hholds⟩ := hshown hzero
    rw [(parts_abs hfinite hzero).2.2.2] at hholds
    obtain ⟨digits, point, whole, fraction, exponent, -, -, -, htext, hnumeral, hvalue, -⟩ :=
      canonicalFrom?_exact hfinite hzero hwrites (ne_zero_of_holds hfinite hzero hholds)
    exact ⟨_, q, htext, ⟨whole, fraction, exponent, hnumeral, hvalue⟩,
      fun hfalse => absurd hfalse Bool.false_ne_true, fun _ => hholds⟩

/-- Finite doubles with the same canonical text are equal. -/
theorem beq_of_canonicalFrom? {shown : Float → List Char}
    (hshown : ∀ z, isFinite z = true → isNegative z = false → (z == 0) = false →
      ReadsBackAs (shown z) z)
    (hx : isFinite x = true) (hy : isFinite y = true)
    (h : canonicalFrom? shown x = canonicalFrom? shown y) : (x == y) = true := by
  have habs (z : Float) (hz : isFinite z = true) (hne : (z == 0) = false) :
      ReadsBackAs (shown z.abs) z.abs := by
    obtain ⟨hfinite, hsign, hzero, -⟩ := parts_abs hz hne
    exact hshown z.abs hfinite hsign hzero
  obtain ⟨text, q, htext, hwrites, hzero, hholds⟩ := exists_writes_canonicalFrom? hx (habs x hx)
  obtain ⟨text', q', htext', hwrites', hzero', hholds'⟩ :=
    exists_writes_canonicalFrom? hy (habs y hy)
  rw [htext, htext'] at h
  obtain ⟨hless, rfl⟩ := sign_append_inj hwrites hwrites' (Option.some.inj h)
  obtain rfl := hwrites.unique hwrites'
  refine (beq_iff x y).mpr ?_
  cases hxzero : x == 0 with
  | true =>
    cases hyzero : y == 0 with
    | true => exact .inr ⟨rfl, rfl⟩
    | false => exact absurd (hzero hxzero) (ne_zero_of_holds hy hyzero (hholds' hyzero))
  | false =>
    cases hyzero : y == 0 with
    | true => exact absurd (hzero' hyzero) (ne_zero_of_holds hx hxzero (hholds hxzero))
    | false =>
      refine .inl ⟨?_, isNaN_of_isFinite hx⟩
      have hpos := significand_pos hx hxzero
      have hmagnitude : magnitude x = magnitude y := by
        obtain ⟨whole, fraction, exponent, -, rfl⟩ := hwrites
        exact Magnitude.eq_of_holds (isCanonical_magnitude hx) (isCanonical_magnitude hy) hpos
          (significand_pos hy hyzero) (hholds hxzero) (hholds' hyzero)
      have hnegative : isNegative x = true ↔ isNegative y = true := by
        rw [lt_zero_iff hx, lt_zero_iff hy, hxzero, hyzero] at hless
        simpa using hless
      exact eq_of_parts hx hy hpos hmagnitude hnegative

/-- What is shown of the size of a number as a literal has the digits of the number. -/
theorem decimalDigits?_literal (hfinite : isFinite x = true) (hne : (x == 0) = false) :
    decimalDigits? (literal.write x.abs) = some ((shortest x).digitChars, (shortest x).point) := by
  obtain ⟨hfiniteAbs, hsign, hneAbs, hmagnitude⟩ := parts_abs hfinite hne
  have hshortest : shortest x.abs = shortest x := by rw [shortest, hmagnitude, shortest]
  have hwrite : literal.write x.abs =
      literal.layOut (shortest x).digitChars (shortest x).point := by
    rw [literal.write_eq hfiniteAbs, Notation.showsSign, hsign, Notation.unsigned, hneAbs,
      hshortest]
    rfl
  have htrimmed := isTrimmed_digitChars hfinite hne
  obtain ⟨whole, fraction, exponent, hlayout, htext⟩ :=
    literal.exists_layout htrimmed.isDigits.1 (shortest x).point
  rw [hwrite, htext]
  exact (hlayout.carries endsWhole_literal htrimmed.isDigits.1).decimalDigits?_eq
    (hlayout.isNumeral endsWhole_literal htrimmed.isDigits) htrimmed

/-- **Made from literals, the canonical text is the one that is printed.** -/
theorem canonicalFrom?_literal (x : Float) :
    canonicalFrom? literal.write x = some (canonical.write x) := by
  by_cases hfinite : isFinite x = true
  · have hwrite := canonical.write_eq hfinite
    have hsign : canonical.showsSign x = true ↔ x < 0 := by
      rw [lt_zero_iff hfinite, Notation.showsSign, Bool.and_eq_true, ← Bool.not_eq_true']
      rfl
    rw [if_congr hsign rfl rfl, Notation.unsigned] at hwrite
    rw [hwrite]
    unfold canonicalFrom?
    dsimp only
    rw [isNaN_of_isFinite hfinite, isInf_of_isFinite hfinite, if_neg Bool.false_ne_true,
      if_neg Bool.false_ne_true]
    cases hzero : x == 0 with
    | true =>
      have hnonneg : ¬ x < 0 := fun hless => by
        rw [((lt_zero_iff hfinite).mp hless).2] at hzero
        cases hzero
      rw [if_neg hnonneg]
      rfl
    | false => rw [decimalDigits?_literal hfinite hzero]; rfl
  · have hother := Bool.eq_false_iff.mpr hfinite
    unfold canonicalFrom? Notation.write
    dsimp only
    rcases special_of_not_finite hother with hnan | ⟨hnan, hinf, hzero, hless⟩
    · rw [hnan, if_pos rfl, if_pos rfl]
    · rw [hnan, hinf, hzero, hother, if_congr hless rfl rfl]
      rfl

/-- Finite numbers that are printed alike are equal. -/
theorem beq_of_canonicalText (hx : isFinite x = true) (hy : isFinite y = true)
    (h : canonicalText x = canonicalText y) : (x == y) = true := by
  refine beq_of_canonicalFrom? (fun z => readsBackAs_literal) hx hy ?_
  rw [canonicalFrom?_literal, canonicalFrom?_literal]
  exact congrArg some (String.ofList_injective h)

end

/-- **The canonical text is exact.**  Take any way of showing the sizes of numbers that reads back.
    Of what it shows of a finite number that is not zero, cutting and stripping finds trimmed digits
    and a point that are worth what is shown.  The canonical text made of that is a numeral of the
    same worth behind the sign of the number, and laid out canonically; and finite numbers have the
    same text only if they are equal.  Made from literals it is the text that is printed. -/
theorem canonical_exact {shown : Float → List Char}
    (hshown : ∀ z, isFinite z = true → isNegative z = false → (z == 0) = false →
      ReadsBackAs (shown z) z) :
    (∀ x, isFinite x = true → (x == 0) = false →
      ∃ digits point q whole fraction exponent,
        Writes (shown x.abs) q ∧ decimalDigits? (shown x.abs) = some (digits, point) ∧
        IsTrimmed digits ∧ pointed digits point = q ∧
        canonicalFrom? shown x =
          some ((if x < 0 then ['-'] else []) ++ (whole ++ fraction ++ exponent)) ∧
        IsNumeral (whole ++ fraction ++ exponent) whole fraction exponent ∧
        (decimalOf whole fraction exponent).value = q ∧
        IsCanonicalLayout digits point whole fraction exponent) ∧
    (∀ x y, isFinite x = true → isFinite y = true →
      canonicalFrom? shown x = canonicalFrom? shown y → (x == y) = true) ∧
    ∀ x, canonicalFrom? literal.write x = some (canonicalText x).toList := by
  refine ⟨fun x hfinite hne => ?_, fun x y => beq_of_canonicalFrom? hshown, fun x => ?_⟩
  · obtain ⟨hfiniteAbs, hsign, hneAbs, hmagnitude⟩ := parts_abs hfinite hne
    obtain ⟨q, hwrites, hholds⟩ := hshown x.abs hfiniteAbs hsign hneAbs
    have hq := ne_zero_of_holds hfiniteAbs hneAbs hholds
    obtain ⟨digits, point, whole, fraction, exponent, hexact⟩ :=
      canonicalFrom?_exact hfinite hne hwrites hq
    obtain ⟨hfound, htrimmed, hvalue, htext, hnumeral, hworth, hlayout⟩ := hexact
    exact ⟨digits, point, q, whole, fraction, exponent, hwrites, hfound, htrimmed, hvalue, htext,
      hnumeral, hworth, hlayout⟩
  · rw [canonicalFrom?_literal, canonicalText, String.toList_ofList]

/-- A small number below zero, whose literal has an exponent. -/
theorem canonical_exact_small :
    (∀ z, isFinite z = true → isNegative z = false → (z == 0) = false →
      ReadsBackAs (literal.write z) z) ∧
    ∃ digits point q whole fraction exponent,
      Writes "1.5e-07".toList q ∧ decimalDigits? "1.5e-07".toList = some (digits, point) ∧
      pointed digits point = q ∧ "-1.5e-7".toList = '-' :: (whole ++ fraction ++ exponent) ∧
      (decimalOf whole fraction exponent).value = q ∧
      IsCanonicalLayout digits point whole fraction exponent := by
  have hshown : ∀ z, isFinite z = true → isNegative z = false → (z == 0) = false →
      ReadsBackAs (literal.write z) z := fun z => readsBackAs_literal
  have hsize : literal.write (-1.5e-7 : Float).abs = "1.5e-07".toList := by decide +kernel
  have htext : canonicalFrom? literal.write (-1.5e-7) = some "-1.5e-7".toList := by decide +kernel
  have hless : (-1.5e-7 : Float) < 0 := by decide +kernel
  obtain ⟨digits, point, q, whole, fraction, exponent, hwrites, hfound, -, hvalue, hcanonical, -,
    hworth, hlayout⟩ := (canonical_exact hshown).1 (-1.5e-7) (by decide +kernel) (by decide +kernel)
  rw [hsize] at hwrites hfound
  rw [htext, if_pos hless] at hcanonical
  exact ⟨hshown, digits, point, q, whole, fraction, exponent, hwrites, hfound, hvalue,
    Option.some.inj hcanonical, hworth, hlayout⟩

end BellaLang.Number
