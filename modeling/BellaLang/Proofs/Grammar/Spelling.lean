import BellaLang.Proofs.Grammar.Scanning
import BellaLang.Proofs.Number.Boundaries
import BellaLang.Proofs.Syntax.Lexemes

/-!
What lexemes look like, and what is found where.

The terminals are tried one after the other, and the first one that matches is found.  Here it is
said without that what stands at a place: a text that is written as its terminal is
(`Lexeme.IsSpelled`), in front of something that does not go on with it (`Lexeme.Ends`).

  1. A gap is white space and comments that are ended, and it is ignored in front of anything
     (`IsGap.ignored_append`).
  2. What is found at a place is spelled rightly and ends there (`firstMatch_split`).
  3. What is spelled rightly and ends there is found (`firstMatch_of_spelled`), as it is no part of
     a gap (`ignored_of_spelled`).
-/

namespace BellaLang

open BellaLang.Number BellaLang.Text

/-! ## Gaps -/

/-- White space and comments, each comment with the line feed that ends it. -/
inductive IsGap : List Char → Prop
  | nil : IsGap []
  | space {c : Char} {gap : List Char} (hc : isSpace c = true) (h : IsGap gap) : IsGap (c :: gap)
  | comment {body gap : List Char} (hbody : '\n' ∉ body) (h : IsGap gap) :
      IsGap ('/' :: '/' :: (body ++ '\n' :: gap))

theorem ignored_space {c : Char} (hc : isSpace c = true) (rest : List Char) :
    ignored (c :: rest) = 1 + ignored rest := by
  rw [ignored.eq_def]
  dsimp only
  rw [if_pos hc]

theorem ignored_slashes (rest : List Char) :
    ignored ('/' :: '/' :: rest) = 2 + ignoredComment rest := by
  rw [ignored.eq_def]
  rfl

theorem ignoredComment_append {body : List Char} (hbody : '\n' ∉ body) (rest : List Char) :
    ignoredComment (body ++ '\n' :: rest) = body.length + 1 + ignored rest := by
  induction body with
  | nil =>
    rw [List.nil_append, ignoredComment.eq_def]
    dsimp only
    rw [if_pos rfl, List.length_nil, Nat.zero_add]
  | cons c body ih =>
    obtain ⟨hc, hbody⟩ := not_or.mp (mt List.mem_cons.mpr hbody)
    rw [List.cons_append, ignoredComment.eq_def]
    dsimp only
    rw [if_neg (Ne.symm hc), ih hbody, List.length_cons]
    omega

/-- A gap is ignored in front of anything. -/
theorem IsGap.ignored_append {gap : List Char} (h : IsGap gap) (rest : List Char) :
    ignored (gap ++ rest) = gap.length + ignored rest := by
  induction h with
  | nil => rw [List.nil_append, List.length_nil, Nat.zero_add]
  | space hc h ih =>
    rw [List.cons_append, ignored_space hc, ih, List.length_cons]
    omega
  | comment hbody h ih =>
    rw [List.cons_append, List.cons_append, List.append_assoc, List.cons_append, ignored_slashes,
      ignoredComment_append hbody, ih]
    simp only [List.length_cons, List.length_append]
    omega

mutual

/-- What is ignored in front of something is a gap. -/
theorem exists_gap : ∀ text : List Char, ignored text < text.length →
    ∃ gap rest, text = gap ++ rest ∧ IsGap gap ∧ ignored text = gap.length ∧ ignored rest = 0
  | [], h => absurd h (Nat.not_lt_zero _)
  | c :: rest, h => by
    by_cases hc : isSpace c = true
    · rw [ignored_space hc, List.length_cons] at h
      obtain ⟨gap, after, rfl, hgap, hlength, hafter⟩ := exists_gap rest (by omega)
      refine ⟨c :: gap, after, rfl, .space hc hgap, ?_, hafter⟩
      rw [ignored_space hc, hlength, List.length_cons, Nat.add_comm]
    · by_cases hcomment : c = '/' ∧ ∃ after, rest = '/' :: after
      · obtain ⟨rfl, body, rfl⟩ := hcomment
        rw [ignored_slashes, List.length_cons, List.length_cons] at h
        obtain ⟨line, gap, after, rfl, hline, hgap, hlength, hafter⟩ :=
          exists_gap_comment body (by omega)
        refine ⟨'/' :: '/' :: (line ++ '\n' :: gap), after, ?_, .comment hline hgap, ?_, hafter⟩
        · simp
        · rw [ignored_slashes, hlength]
          simp only [List.length_cons, List.length_append]
          omega
      · have hzero : ignored (c :: rest) = 0 := by
          rw [ignored.eq_def]
          dsimp only
          rw [if_neg hc]
          split
          · exact absurd ⟨rfl, _, rfl⟩ hcomment
          · rfl
        exact ⟨[], c :: rest, rfl, .nil, hzero, hzero⟩

theorem exists_gap_comment : ∀ text : List Char, ignoredComment text < text.length →
    ∃ line gap rest, text = line ++ '\n' :: gap ++ rest ∧ '\n' ∉ line ∧ IsGap gap ∧
      ignoredComment text = line.length + 1 + gap.length ∧ ignored rest = 0
  | [], h => absurd h (Nat.not_lt_zero _)
  | c :: rest, h => by
    by_cases hc : c = '\n'
    · have hignored : ignoredComment (c :: rest) = 1 + ignored rest := by
        rw [ignoredComment.eq_def]
        exact if_pos hc
      rw [hignored, List.length_cons] at h
      obtain ⟨gap, after, rfl, hgap, hlength, hafter⟩ := exists_gap rest (by omega)
      refine ⟨[], gap, after, by rw [hc]; rfl, List.not_mem_nil, hgap, ?_, hafter⟩
      rw [hignored, hlength, List.length_nil, Nat.zero_add]
    · have hignored : ignoredComment (c :: rest) = 1 + ignoredComment rest := by
        rw [ignoredComment.eq_def]
        exact if_neg hc
      rw [hignored, List.length_cons] at h
      obtain ⟨line, gap, after, rfl, hline, hgap, hlength, hafter⟩ :=
        exists_gap_comment rest (by omega)
      refine ⟨c :: line, gap, after, rfl, ?_, hgap, ?_, hafter⟩
      · exact fun hmem => (List.mem_cons.mp hmem).elim (fun h => hc h.symm) hline
      · rw [hignored, hlength, List.length_cons]
        omega

end

/-! ## Lexemes that are spelled rightly -/

/-- The spellings of the operators that compare. -/
def relations : List (List Char) :=
  [['<'], ['<', '='], ['=', '='], ['!', '='], ['>', '='], ['>']]

/-- The text is one that the terminal is written as. -/
def Lexeme.IsSpelled (lexeme : Lexeme) : Prop :=
  match lexeme.terminal with
  | .numeral => ∃ n, readNumeral lexeme.text = some (n, [])
  | .name => IsWord lexeme.text
  | .relop => lexeme.text ∈ relations
  | .endOfText => False
  | t => if t.isKeyword then keyword? lexeme.text = some t else lexeme.text = t.spelling

/-- Nothing that follows can go on with the lexeme. -/
def Lexeme.Ends (lexeme : Lexeme) (rest : List Char) : Prop :=
  match lexeme.terminal with
  | .numeral => EndsNumeral rest
  | .relop => lexeme.text.length = 1 → rest.head? ≠ some '='
  | .star => rest.head? ≠ some '*'
  | .slash => rest.head? ≠ some '/'
  | t => t = .name ∨ t.isKeyword = true → ∀ c ∈ rest.head?, isWordChar c = false

/-- Whether a lexeme ends hangs on the next character only. -/
theorem Lexeme.Ends.congr {lexeme : Lexeme} {rest other : List Char}
    (hhead : rest.head? = other.head?) (h : lexeme.Ends rest) : lexeme.Ends other := by
  unfold Lexeme.Ends EndsNumeral at h ⊢
  rw [← hhead]
  exact h

/-- Nothing goes on with a lexeme where something calm follows. -/
theorem Lexeme.ends_of_calm (lexeme : Lexeme) {rest : List Char} (hcalm : Calm rest) :
    lexeme.Ends rest := by
  have hother (c : Char) (hc : c ∉ [' ', '(', ')', '[', ']', ',', ';']) : rest.head? ≠ some c :=
    fun hhead => hc (hcalm c hhead)
  unfold Lexeme.Ends
  split
  · exact hcalm.endsNumeral
  · exact fun _ => hother '=' (by decide)
  · exact hother '*' (by decide)
  · exact hother '/' (by decide)
  · exact fun _ => hcalm.not_word

theorem Lexeme.ends_nil (lexeme : Lexeme) : lexeme.Ends [] := lexeme.ends_of_calm calm_nil

theorem Lexeme.ends_semicolon (lexeme : Lexeme) (rest : List Char) :
    lexeme.Ends (';' :: rest) := lexeme.ends_of_calm (calm_cons (by decide) rest)

/-! ## What is found is spelled rightly -/

/-- A first match is accepted and matches, and nothing that is accepted and tried before it does. -/
theorem firstMatch_eq_some_iff {accepted : Terminal → Bool} {text : List Char} {t : Terminal}
    {n : Nat} : firstMatch accepted text = some (t, n) ↔
      t ∈ scanOrder ∧ accepted t = true ∧ t.matchLength text = n ∧ 0 < n ∧
        ∀ u ∈ scanOrder.takeWhile (· ≠ t), accepted u = true → u.matchLength text = 0 := by
  unfold firstMatch
  generalize scanOrder = order
  induction order with
  | nil => exact ⟨nofun, fun h => absurd h.1 List.not_mem_nil⟩
  | cons u order ih =>
    rw [List.findSome?_cons]
    by_cases hu : accepted u = true ∧ 0 < u.matchLength text
    · rw [if_pos hu]
      constructor
      · intro h
        cases h
        refine ⟨List.mem_cons_self, hu.1, rfl, hu.2, fun v hv => ?_⟩
        rw [List.takeWhile_cons, if_neg (by simp)] at hv
        exact absurd hv List.not_mem_nil
      · rintro ⟨-, -, rfl, -, hbefore⟩
        by_cases hsame : u = t
        · rw [hsame]
        · have hzero := hbefore u (by simp [hsame]) hu.1
          exact absurd hu.2 (by omega)
    · rw [if_neg hu, ih]
      by_cases hsame : u = t
      · subst hsame
        constructor
        · rintro ⟨-, haccepted, rfl, hpos, -⟩
          exact absurd ⟨haccepted, hpos⟩ hu
        · rintro ⟨-, haccepted, rfl, hpos, -⟩
          exact absurd ⟨haccepted, hpos⟩ hu
      · have hzero : accepted u = true → u.matchLength text = 0 := fun haccepted =>
          Nat.eq_zero_of_not_pos fun hpos => hu ⟨haccepted, hpos⟩
        simp only [List.mem_cons, Ne.symm hsame, false_or, List.takeWhile_cons, ne_eq, hsame,
          not_false_eq_true, decide_true, if_true, forall_eq_or_imp, and_iff_right hzero]

/-- The terminals that have a single spelling. -/
def Terminal.isMark (t : Terminal) : Bool := !t.spelling.isEmpty

theorem matchLength_mark {t : Terminal} (ht : t.isMark = true) (text : List Char) :
    t.matchLength text = if t.spelling.isPrefixOf text then t.spelling.length else 0 := by
  cases t <;> first | rfl | cases ht

theorem isSpelled_mark {t : Terminal} (ht : t.isMark = true) {text : List Char} :
    Lexeme.IsSpelled ⟨t, text⟩ ↔ text = t.spelling := by
  cases t <;> first | exact Iff.rfl | cases ht

theorem scanned_cases {t : Terminal} (h : t ∈ scanOrder) :
    t = .numeral ∨ t = .name ∨ t = .relop ∨ t.isMark = true := by
  cases t <;> first | decide | exact absurd h (by decide)

/-- A name is a word, and nothing follows that could be part of it. -/
theorem nameLength_split {text : List Char} (hpos : 0 < nameLength text) :
    ∃ word rest, text = word ++ rest ∧ nameLength text = word.length ∧ IsWord word ∧
      ∀ c ∈ rest.head?, isWordChar c = false := by
  cases text with
  | nil => exact absurd hpos (Nat.lt_irrefl 0)
  | cons c text =>
    have hsplit : text = text.takeWhile isWordChar ++ text.dropWhile isWordChar :=
      List.takeWhile_append_dropWhile.symm
    have hname : ∀ more : List Char, nameLength (c :: more) =
        if beginsName c then 1 + (more.takeWhile isWordChar).length else 0 := fun _ => rfl
    rw [hname] at hpos
    split at hpos
    · rename_i hbegins
      have hall : (text.takeWhile isWordChar ++ []).takeWhile isWordChar =
          text.takeWhile isWordChar ++ [].takeWhile isWordChar :=
        List.takeWhile_append_of_pos (List.all_eq_true.mp List.all_takeWhile)
      rw [List.takeWhile_nil, List.append_nil] at hall
      refine ⟨c :: text.takeWhile isWordChar, text.dropWhile isWordChar, congrArg _ hsplit, ?_,
        ⟨List.cons_ne_nil _ _, ?_⟩, fun d hd => ?_⟩
      · rw [hname, if_pos hbegins, List.length_cons, Nat.add_comm]
      · rw [hname, if_pos hbegins, hall, List.length_cons, Nat.add_comm]
      · have hstop := List.head?_dropWhile_not isWordChar text
        rw [Option.mem_def.mp hd] at hstop
        exact hstop
    · exact absurd hpos (Nat.lt_irrefl 0)

/-- A comparison is one of the six, and the longer one if there is a choice. -/
theorem relopLength_split {text : List Char} (hpos : 0 < relopLength text) :
    ∃ relation rest, text = relation ++ rest ∧ relopLength text = relation.length ∧
      relation ∈ relations ∧ (relation.length = 1 → rest.head? ≠ some '=') := by
  unfold relopLength at hpos
  split at hpos
  · exact ⟨['<', '='], _, rfl, rfl, by decide, nofun⟩
  · exact ⟨['=', '='], _, rfl, rfl, by decide, nofun⟩
  · exact ⟨['!', '='], _, rfl, rfl, by decide, nofun⟩
  · exact ⟨['>', '='], _, rfl, rfl, by decide, nofun⟩
  · rename_i rest hne
    have hone : relopLength ('<' :: rest) = 1 := by
      unfold relopLength
      split <;> simp_all
    refine ⟨['<'], rest, rfl, hone, by decide, fun _ hhead => ?_⟩
    obtain ⟨tail, rfl⟩ := List.head?_eq_some_iff.mp hhead
    exact hne tail rfl
  · rename_i rest hne
    have hone : relopLength ('>' :: rest) = 1 := by
      unfold relopLength
      split <;> simp_all
    refine ⟨['>'], rest, rfl, hone, by decide, fun _ hhead => ?_⟩
    obtain ⟨tail, rfl⟩ := List.head?_eq_some_iff.mp hhead
    exact hne tail rfl
  · exact absurd hpos (Nat.lt_irrefl 0)

/-- What a terminal takes from the front of a text spells it, and ends there; of numerals, of
    multiplications and of divisions the latter cannot be told without what else is tried. -/
theorem matchLength_split {t : Terminal} {text : List Char} (ht : t ∈ scanOrder)
    (hpos : 0 < t.matchLength text) :
    ∃ piece rest, text = piece ++ rest ∧ t.matchLength text = piece.length ∧
      Lexeme.IsSpelled ⟨t, piece⟩ ∧
      (t ∉ [.numeral, .star, .slash] → Lexeme.Ends ⟨t, piece⟩ rest) := by
  rcases scanned_cases ht with rfl | rfl | rfl | hmark
  · cases hread : readNumeral text with
    | none =>
      rw [Terminal.matchLength, hread] at hpos
      exact absurd hpos (Nat.lt_irrefl 0)
    | some found =>
      obtain ⟨n, rest⟩ := found
      obtain ⟨numeral, htext, hsize, hagain⟩ := readNumeral_split hread
      have hnil := hagain [] fun c hc => absurd hc (Option.not_mem_none c)
      rw [List.append_nil] at hnil
      refine ⟨numeral, rest, htext, ?_, ⟨n, hnil⟩, fun h => absurd h (by decide)⟩
      rw [Terminal.matchLength, hread]
      exact hsize
  · obtain ⟨word, rest, htext, hlength, hword, hstop⟩ := nameLength_split hpos
    exact ⟨word, rest, htext, hlength, hword, fun _ _ => hstop⟩
  · obtain ⟨relation, rest, htext, hlength, hrelation, hstop⟩ := relopLength_split hpos
    exact ⟨relation, rest, htext, hlength, hrelation, fun _ => hstop⟩
  · rw [matchLength_mark hmark] at hpos ⊢
    split at hpos
    · rename_i hprefix
      obtain ⟨rest, hrest⟩ := List.isPrefixOf_iff_prefix.mp hprefix
      refine ⟨t.spelling, rest, hrest.symm, if_pos hprefix, (isSpelled_mark hmark).mpr rfl, ?_⟩
      intro hother
      cases t <;> first
        | exact absurd hother (by decide)
        | exact fun h => absurd h (by decide)
        | cases hmark
    · exact absurd hpos (Nat.lt_irrefl 0)

/-- What is found first at a place spells its terminal.  It ends there, numerals perhaps apart, if
    the place is not in a gap and powers are tried before multiplications. -/
theorem firstMatch_split {accepted : Terminal → Bool} {text : List Char} {t : Terminal} {n : Nat}
    (h : firstMatch accepted text = some (t, n)) (hignored : ignored text = 0)
    (hpow : accepted .star = true → accepted .pow = true) :
    ∃ piece rest, text = piece ++ rest ∧ n = piece.length ∧ Lexeme.IsSpelled ⟨t, piece⟩ ∧
      (t ≠ .numeral → Lexeme.Ends ⟨t, piece⟩ rest) := by
  obtain ⟨hscanned, haccepted, rfl, hpos, hbefore⟩ := firstMatch_eq_some_iff.mp h
  obtain ⟨piece, rest, rfl, hlength, hspelled, hends⟩ := matchLength_split hscanned hpos
  refine ⟨piece, rest, rfl, hlength, hspelled, fun hnumeral => ?_⟩
  by_cases hstar : t = .star
  · subst hstar
    obtain rfl : piece = ['*'] := hspelled
    have hnone := hbefore .pow (by decide) (hpow haccepted)
    intro hhead
    obtain ⟨tail, rfl⟩ := List.head?_eq_some_iff.mp hhead
    exact absurd hnone (by decide : (2 : Nat) ≠ 0)
  · by_cases hslash : t = .slash
    · subst hslash
      obtain rfl : piece = ['/'] := hspelled
      intro hhead
      obtain ⟨tail, rfl⟩ := List.head?_eq_some_iff.mp hhead
      have htwo := ignored_slashes tail
      rw [List.cons_append, List.nil_append, htwo] at hignored
      omega
    · exact hends (by simp [hnumeral, hstar, hslash])

/-- A word that is refined to a word of the language is spelled like it, and ends as it did. -/
theorem refine_split {accepted : Terminal → Bool} {t : Terminal} {piece rest : List Char}
    (hspelled : Lexeme.IsSpelled ⟨t, piece⟩) (hends : t ≠ .numeral → Lexeme.Ends ⟨t, piece⟩ rest) :
    Lexeme.IsSpelled ⟨refine accepted t piece, piece⟩ ∧
      (refine accepted t piece ≠ .numeral → Lexeme.Ends ⟨refine accepted t piece, piece⟩ rest) := by
  by_cases hname : t = .name
  · subst hname
    have hstop : ∀ c ∈ rest.head?, isWordChar c = false := hends (by decide) (.inl rfl)
    unfold refine
    rw [if_pos rfl]
    split
    · rename_i word hword
      split
      · have hkeyword := isKeyword_of_keyword? hword
        cases word <;> first | exact ⟨hword, fun _ _ => hstop⟩ | cases hkeyword
      · exact ⟨hspelled, hends⟩
    · exact ⟨hspelled, hends⟩
  · have hsame : refine accepted t piece = t := if_neg hname
    rw [hsame]
    exact ⟨hspelled, hends⟩

/-- A word of the language is a name only where it is not accepted as what it is. -/
theorem refused_of_name {accepted : Terminal → Bool} {t word : Terminal} {piece : List Char}
    (hname : refine accepted t piece = .name) (hword : keyword? piece = some word) :
    accepted word = false := by
  unfold refine at hname
  split at hname
  · rw [hword] at hname
    dsimp only at hname
    split at hname
    · have hkeyword := isKeyword_of_keyword? hword
      rw [hname] at hkeyword
      cases hkeyword
    · rename_i hrefused
      exact Bool.eq_false_iff.mpr hrefused
  · rename_i hother
    exact absurd hname hother

/-! ## What is spelled rightly is found -/

/-- Can the terminal begin with this character?  Words of the language are left to names. -/
def Terminal.begins (t : Terminal) (c : Char) : Bool :=
  match t with
  | .numeral => isDigit c
  | .name => beginsName c
  | .relop => c == '<' || c == '=' || c == '!' || c == '>'
  | t => t.spelling.head? == some c

theorem matchLength_of_not_begins {t : Terminal} {c : Char} (h : t.begins c = false)
    (rest : List Char) : t.matchLength (c :: rest) = 0 := by
  cases hmark : t.isMark with
  | true =>
    rw [matchLength_mark hmark]
    refine if_neg fun hprefix => ?_
    obtain ⟨after, hafter⟩ := List.isPrefixOf_iff_prefix.mp hprefix
    have hhead : (t.spelling.head? == some c) = false := by
      cases t <;> first | exact h | cases hmark
    cases hspelling : t.spelling with
    | nil =>
      rw [Terminal.isMark, hspelling] at hmark
      cases hmark
    | cons d more =>
      rw [hspelling] at hafter hhead
      obtain rfl : d = c := (List.cons.inj hafter).1
      rw [List.head?_cons, beq_self_eq_true] at hhead
      cases hhead
  | false =>
    cases t with
    | numeral => exact numeral_matchLength_cons h rest
    | name => exact if_neg (Bool.eq_false_iff.mp h)
    | relop =>
      show relopLength (c :: rest) = 0
      unfold relopLength
      split <;> simp_all [Terminal.begins]
    | _ => first | rfl | cases hmark

/-- What is checked of the first characters of some texts holds of them. -/
theorem forall_head_of_check {α : Type} {head : α → Option Char} {P : α → Char → Prop}
    [∀ a, DecidablePred (P a)] {as : List α}
    (h : (as.all fun a => (head a).all fun c => decide (P a c)) = true) :
    ∀ a ∈ as, ∀ c ∈ head a, P a c := by
  intro a ha c hc
  exact of_decide_eq_true (Option.all_eq_true _ _ |>.mp (List.all_eq_true.mp h a ha) c hc)

/-- Two terminals that can begin with the same character, where the longer one is tried first. -/
theorem conflict_of_begins : ∀ t ∈ scanOrder, ∀ c ∈ t.spelling.head?,
    ∀ u ∈ scanOrder.takeWhile (· ≠ t), u.begins c = true →
      (t = .equal ∨ t = .bang) ∧ u = .relop ∨ t = .star ∧ u = .pow :=
  forall_head_of_check (by decide)

theorem isWord_of_keyword? {text : List Char} {t : Terminal} (h : keyword? text = some t) :
    IsWord text := by
  have hword : ∀ word : String, String.ofList text = word → text = word.toList := by
    intro word hword
    rw [← hword, String.toList_ofList]
  unfold keyword? at h
  split at h
  · rename_i heq; rw [hword _ heq]; decide
  · rename_i heq; rw [hword _ heq]; decide
  · rename_i heq; rw [hword _ heq]; decide
  · rename_i heq; rw [hword _ heq]; decide
  · rename_i heq; rw [hword _ heq]; decide
  · rename_i heq; rw [hword _ heq]; decide
  · cases h

/-- A word in front of a character that goes on with no word is taken as a whole. -/
theorem nameLength_append {word rest : List Char} (h : IsWord word)
    (hrest : ∀ c ∈ rest.head?, isWordChar c = false) :
    nameLength (word ++ rest) = word.length := by
  obtain ⟨c, tail, rfl⟩ := List.exists_cons_of_ne_nil h.1
  obtain ⟨hbegins, htail⟩ := h.cons
  have hstop : rest.takeWhile isWordChar = [] := by
    cases rest with
    | nil => rfl
    | cons d rest => rw [List.takeWhile_cons, hrest d rfl]; rfl
  rw [List.cons_append, nameLength, if_pos hbegins, List.takeWhile_append_of_pos htail, hstop,
    List.append_nil, List.length_cons, Nat.add_comm]

/-- A comparison that is not a part of a longer one is taken as a whole. -/
theorem relopLength_append {relation rest : List Char} (h : relation ∈ relations)
    (hrest : relation.length = 1 → rest.head? ≠ some '=') :
    relopLength (relation ++ rest) = relation.length := by
  unfold relations at h
  simp only [List.mem_cons, List.not_mem_nil, or_false] at h
  rcases h with rfl | rfl | rfl | rfl | rfl | rfl <;> try rfl
  all_goals
    have hhead := hrest rfl
    show relopLength (_ :: rest) = 1
    unfold relopLength
    split <;> simp_all

/-- A lexeme that is spelled rightly and ends is taken as a whole. -/
theorem matchLength_of_spelled {t : Terminal} {text rest : List Char} (ht : t ∈ scanOrder)
    (hspelled : Lexeme.IsSpelled ⟨t, text⟩) (hends : Lexeme.Ends ⟨t, text⟩ rest) :
    t.matchLength (text ++ rest) = text.length := by
  rcases scanned_cases ht with rfl | rfl | rfl | hmark
  · obtain ⟨n, hread⟩ := hspelled
    obtain ⟨numeral, htext, hsize, hagain⟩ := readNumeral_split hread
    rw [List.append_nil] at htext
    obtain rfl := htext
    rw [Terminal.matchLength, hagain rest hends]
    exact hsize
  · exact nameLength_append hspelled (hends (.inl rfl))
  · exact relopLength_append hspelled hends
  · obtain rfl := (isSpelled_mark hmark).mp hspelled
    rw [matchLength_mark hmark]
    exact if_pos (List.isPrefixOf_iff_prefix.mpr (List.prefix_append _ _))

theorem text_ne_nil {t : Terminal} {text : List Char} (ht : t ∈ scanOrder)
    (hspelled : Lexeme.IsSpelled ⟨t, text⟩) : text ≠ [] := by
  rintro rfl
  rcases scanned_cases ht with rfl | rfl | rfl | hmark
  · obtain ⟨n, hread⟩ := hspelled
    cases hread
  · exact hspelled.1 rfl
  · have hmem : [] ∈ relations := hspelled
    exact absurd hmem (by decide)
  · have hnil := (isSpelled_mark hmark).mp hspelled
    rw [Terminal.isMark, ← hnil] at hmark
    cases hmark

/-- **What is spelled rightly and ends is found first**, where it is accepted and the lexemes that
    go further are not. -/
theorem firstMatch_of_spelled {accepted : Terminal → Bool} {t : Terminal} {text rest : List Char}
    (ht : t ∈ scanOrder) (hspelled : Lexeme.IsSpelled ⟨t, text⟩)
    (hends : Lexeme.Ends ⟨t, text⟩ rest) (haccepted : accepted t = true)
    (hrelop : t = .equal ∨ t = .bang → accepted .relop = false) :
    firstMatch accepted (text ++ rest) = some (t, text.length) := by
  have hlength := matchLength_of_spelled ht hspelled hends
  have hpos := List.length_pos_iff.mpr (text_ne_nil ht hspelled)
  refine firstMatch_eq_some_iff.mpr ⟨ht, haccepted, hlength, hpos, fun u hu hothers => ?_⟩
  obtain ⟨c, tail, rfl⟩ := List.exists_cons_of_ne_nil (text_ne_nil ht hspelled)
  -- What is tried before either begins with other characters, or it is known not to match.
  by_cases hbegins : u.begins c = true
  · rcases scanned_cases ht with rfl | rfl | rfl | hmark
    · have hfront : scanOrder.takeWhile (· ≠ Terminal.numeral) = [] := rfl
      rw [hfront] at hu
      exact absurd hu List.not_mem_nil
    · have hfront : scanOrder.takeWhile (· ≠ Terminal.name) = [.numeral] := rfl
      rw [hfront] at hu
      obtain rfl := List.mem_singleton.mp hu
      have hword : beginsName c = true := (IsWord.cons hspelled).1
      have hdigit : isDigit c = true := hbegins
      rw [beginsName, hdigit, Bool.not_true, Bool.and_false] at hword
      cases hword
    · have hfront : scanOrder.takeWhile (· ≠ Terminal.relop) = [.numeral, .name] := rfl
      have hheads : ∀ relation ∈ relations, ∀ d ∈ relation.head?,
          Terminal.begins .numeral d = false ∧ Terminal.begins .name d = false :=
        forall_head_of_check (by decide)
      have hmem : c :: tail ∈ relations := hspelled
      obtain ⟨hnumeral, hname⟩ := hheads _ hmem c rfl
      rw [hfront] at hu
      simp only [List.mem_cons, List.not_mem_nil, or_false] at hu
      rcases hu with rfl | rfl
      · exact absurd hbegins (Bool.eq_false_iff.mp hnumeral)
      · exact absurd hbegins (Bool.eq_false_iff.mp hname)
    · have htext := (isSpelled_mark hmark).mp hspelled
      have hhead : t.spelling.head? = some c := by rw [← htext]; rfl
      rcases conflict_of_begins t ht c hhead u hu hbegins with ⟨hsame, rfl⟩ | ⟨rfl, rfl⟩
      · rw [hrelop hsame] at hothers
        cases hothers
      · have hstop : rest.head? ≠ some '*' := hends
        obtain ⟨rfl, rfl⟩ := List.cons.inj htext
        refine if_neg fun hprefix => ?_
        obtain ⟨after, hafter⟩ := List.isPrefixOf_iff_prefix.mp hprefix
        have hrest : '*' :: after = rest := (List.cons.inj hafter).2
        rw [← hrest] at hstop
        exact hstop rfl
  · exact matchLength_of_not_begins (Bool.eq_false_iff.mpr hbegins) _

/-- No lexeme begins with what is ignored. -/
theorem ignored_of_spelled {t : Terminal} {text rest : List Char} (ht : t ∈ scanOrder)
    (hspelled : Lexeme.IsSpelled ⟨t, text⟩) (hends : Lexeme.Ends ⟨t, text⟩ rest) :
    ignored (text ++ rest) = 0 := by
  obtain ⟨c, tail, rfl⟩ := List.exists_cons_of_ne_nil (text_ne_nil ht hspelled)
  rcases scanned_cases ht with rfl | rfl | rfl | hmark
  · have hpos : 0 < Terminal.numeral.matchLength (c :: (tail ++ rest)) := by
      have hlength := matchLength_of_spelled ht hspelled hends
      rw [List.cons_append] at hlength
      rw [hlength]
      exact Nat.zero_lt_succ _
    have hdigit : isDigit c = true := Decidable.byContradiction fun hdigit => by
      rw [numeral_matchLength_cons (Bool.eq_false_iff.mpr hdigit)] at hpos
      exact Nat.lt_irrefl 0 hpos
    obtain ⟨hspace, hslash⟩ := not_ignored (.inl hdigit)
    exact ignored_cons hspace hslash _
  · obtain ⟨hspace, hslash⟩ := not_ignored (.inr (IsWord.cons hspelled).1)
    exact ignored_cons hspace hslash _
  · have hheads : ∀ relation ∈ relations, ∀ d ∈ relation.head?, isSpace d = false ∧ d ≠ '/' :=
      forall_head_of_check (by decide)
    obtain ⟨hspace, hslash⟩ := hheads _ hspelled c rfl
    exact ignored_cons hspace hslash _
  · have hmarks : ∀ u ∈ scanOrder, ∀ d ∈ u.spelling.head?, u ≠ .slash →
        isSpace d = false ∧ d ≠ '/' := forall_head_of_check (by decide)
    have htext := (isSpelled_mark hmark).mp hspelled
    by_cases hsame : t = .slash
    · -- A division is not the first half of what a comment begins with.
      subst hsame
      obtain ⟨rfl, rfl⟩ := List.cons.inj htext
      have hstop : rest.head? ≠ some '/' := hends
      rw [List.cons_append, List.nil_append, ignored.eq_def]
      dsimp only
      rw [if_neg (by decide)]
      split
      · rename_i after
        exact absurd rfl hstop
      · rfl
    · have hhead : t.spelling.head? = some c := by rw [← htext]; rfl
      obtain ⟨hspace, hslash⟩ := hmarks t ht c hhead hsame
      exact ignored_cons hspace hslash _

/-- What a lexeme is found as before the words of the language are told from names. -/
theorem Lexeme.IsSpelled.scanned {lexeme : Lexeme} {rest : List Char} (h : lexeme.IsSpelled)
    (hends : lexeme.Ends rest) :
    ∃ t ∈ scanOrder, IsSpelled ⟨t, lexeme.text⟩ ∧ Ends ⟨t, lexeme.text⟩ rest ∧
      (t = lexeme.terminal ∨ t = .name ∧ keyword? lexeme.text = some lexeme.terminal) := by
  obtain ⟨terminal, text⟩ := lexeme
  cases hkeyword : terminal.isKeyword with
  | true =>
    have hword : keyword? text = some terminal := by
      cases terminal <;> first | exact h | cases hkeyword
    have hstop : ∀ c ∈ rest.head?, isWordChar c = false := by
      cases terminal <;> first | exact hends (.inr rfl) | cases hkeyword
    exact ⟨.name, by decide, isWord_of_keyword? hword, fun _ => hstop, .inr ⟨rfl, hword⟩⟩
  | false =>
    have hscanned : terminal ∈ scanOrder := by
      cases terminal <;> first | decide | exact absurd h id | cases hkeyword
    exact ⟨terminal, hscanned, h, hends, .inl rfl⟩

end BellaLang
