import BellaLang.Machine.Execution
import BellaLang.Proofs.Grammar.Cutting
import BellaLang.Proofs.Number.ReadBack
import BellaLang.Proofs.Syntax.RoundTrip

/-!
Printed numbers are source text.

What `print` shows of a finite number can be put into a program again: it is a numeral, behind a
minus sign if the number is negative, and a program that prints it prints the same text.  The number
that the text is evaluated to equals the one that was printed.  It is the very same double, except
that the sign of zero is lost.

  1. The text spells its lexemes (`spells_canonicalText`).
  2. Tokens with these lexemes stand for an expression that is evaluated to the number
     (`exists_phrase_printed`).
  3. The program around it prints the text of this number and nothing else (`Program.run_print`).

Main statement: `print_prints_itself`.
-/

namespace BellaLang

open BellaLang.Number

/-! ## The text of a number -/

/-- The canonical notation shows the sign of the numbers below zero. -/
theorem showsSign_canonical {x : Float} (h : isFinite x = true) :
    canonical.showsSign x = true ↔ x < 0 := by
  rw [lt_zero_iff h, Notation.showsSign, Bool.and_eq_true, ← Bool.not_eq_true']
  rfl

/-- The text of a finite number: a minus sign if it is negative, and a numeral. -/
theorem toList_canonicalText {x : Float} (h : isFinite x = true) :
    (canonicalText x).toList = (if x < 0 then ['-'] else []) ++ canonical.unsigned x := by
  rw [canonicalText, String.toList_ofList, canonical.write_eq h]
  exact congrArg (· ++ _) (if_congr (showsSign_canonical h) rfl rfl)

/-- The lexemes of a printed number. -/
def printedLexemes (x : Float) : List Lexeme :=
  (if x < 0 then [Terminal.minus.mark] else []) ++ [⟨.numeral, canonical.unsigned x⟩]

/-- The text of a number is one numeral, behind a minus sign if it is negative. -/
theorem spells_canonicalText {x : Float} (h : isFinite x = true) {rest : List Char}
    {after : List Lexeme} (hcalm : Calm rest) (hrest : Spells rest after) :
    Spells ((canonicalText x).toList ++ rest) (printedLexemes x ++ after) := by
  obtain ⟨whole, fraction, exponent, hnumeral, -⟩ := Notation.writes_unsigned endsWhole_canonical x
  have hspells : Spells (canonical.unsigned x ++ rest)
      (⟨.numeral, canonical.unsigned x⟩ :: after) :=
    .lexeme (stands_numeral hnumeral hcalm) hrest
  rw [toList_canonicalText h, printedLexemes]
  split
  · exact .mark (t := .minus) (by decide) hspells
  · exact hspells

/-! ## The expression -/

/-- The number that the text of a number is evaluated to. -/
def reread (x : Float) : Float := if x == 0 then 0 else x

/-- With its sign in front, the numeral of a finite number stands for what is read again. -/
theorem read_printed {x : Float} (h : isFinite x = true) :
    (if x < 0 then -numeralValue (canonical.unsigned x) else numeralValue (canonical.unsigned x)) =
      reread x := by
  cases hzero : x == 0 with
  | true =>
    have hnonneg : ¬ x < 0 := fun hless => by
      rw [((lt_zero_iff h).mp hless).2] at hzero
      cases hzero
    rw [if_neg hnonneg, numeralValue_zero endsWhole_canonical hzero, reread, hzero]
    rfl
  | false =>
    have hsign : x < 0 ↔ isNegative x = true := (lt_zero_iff h).trans (and_iff_left hzero)
    rw [if_congr hsign rfl rfl, read_unsigned endsWhole_canonical h hzero, reread, hzero]
    rfl

/-- Tokens with the lexemes of a number are an expression that is evaluated to it, and nothing
    changes. -/
theorem exists_phrase_printed (source : String) {x : Float} (h : isFinite x = true)
    {row : List Token} (hrow : row.map Token.lexeme = printedLexemes x) :
    ∃ e : Expr, Phrase source .exp row (.expr e) ∧
      ∀ m : Machine, e.eval m = (.ok (.number (reread x)), m) := by
  have hread := read_printed h
  have hnumeral {token : Token} (htoken : token.lexeme = ⟨.numeral, canonical.unsigned x⟩) :
      Phrase source .suffixed [token]
        (.expr (.numeral (rowSite source [token]) (numeralValue (canonical.unsigned x)))) := by
    obtain ⟨hterminal, htext⟩ := Token.of_lexeme htoken
    have hphrase : Phrase source .primary [token] _ := .numeral hterminal
    rw [htext] at hphrase
    exact .tighter rfl hphrase
  unfold printedLexemes at hrow
  split at hrow
  · rename_i hless
    rw [if_pos hless] at hread
    obtain ⟨minus, _, rfl, hminus, hrest⟩ := List.map_eq_cons_iff.mp hrow
    obtain ⟨token, rfl, htoken⟩ := List.map_eq_singleton_iff.mp hrest
    have hspelled : minus.lexeme = ⟨.minus, "-".toList⟩ := hminus
    obtain ⟨hterminal, hword⟩ := Token.word_of_lexeme hspelled
    have hphrase := Phrase.unary (.inl hterminal) ((hnumeral htoken).loosen rfl) rfl
    refine ⟨_, hphrase.to_exp rfl, fun m => ?_⟩
    rw [hword, ← hread]
    rfl
  · rename_i hnonneg
    rw [if_neg hnonneg] at hread
    obtain ⟨token, rfl, htoken⟩ := List.map_eq_singleton_iff.mp hrow
    refine ⟨_, (hnumeral htoken).loosen rfl, fun m => ?_⟩
    rw [← hread]
    rfl

/-- What is read again equals the number that was printed. -/
theorem reread_beq {x : Float} (h : isFinite x = true) : (reread x == x) = true := by
  unfold reread
  cases hzero : x == 0 with
  | true =>
    rw [if_pos rfl]
    show (Float.Model.UnpackedFloat.zero .positive).beq x.toModel.unpack = true
    have hnone := (beq_zero_iff h).mp hzero
    rcases unpack_of_isFinite h with ⟨s, hunpack, -⟩ | ⟨-, -, -, -, -, hpos⟩
    · rw [hunpack]
      rfl
    · omega
  | false =>
    rw [if_neg Bool.false_ne_true]
    have hself := same_self x
    rw [same, isNaN_of_isFinite h, Bool.and_false, Bool.or_false] at hself
    exact hself

theorem canonicalText_of_zero {x : Float} (h : isFinite x = true) (hzero : (x == 0) = true) :
    canonicalText x = "0" := by
  rw [canonicalText, canonical.write_eq h, Notation.showsSign, Notation.unsigned, hzero,
    Bool.not_true, Bool.or_false]
  show String.ofList ((if (isNegative x && false) = true then ['-'] else []) ++ ['0']) = "0"
  rw [Bool.and_false]
  rfl

/-- It has the same text. -/
theorem canonicalText_reread {x : Float} (h : isFinite x = true) :
    canonicalText (reread x) = canonicalText x := by
  unfold reread
  cases hzero : x == 0 with
  | true =>
    rw [canonicalText_of_zero h hzero, if_pos rfl]
    exact canonicalText_of_zero (by decide +kernel) (by decide +kernel)
  | false => rfl

/-! ## The program -/

/-- A program that prints a number has its text as its only line. -/
theorem Program.run_print {program : Program} {site : Site} {e : Expr} {number : Float}
    (hprogram : program.block.statements = [.print site e])
    (heval : ∀ m : Machine, e.eval m = (.ok (.number number), m)) (m : Machine) :
    ∃ m', program.run m = (.ok (), m') ∧ m'.output = #[canonicalText number] := by
  obtain ⟨⟨blockSite, statements⟩⟩ := program
  obtain rfl : statements = [.print site e] := hprogram
  refine ⟨{ m.reset with
    atWork := some (.print site e)
    output := #[canonicalText number]
    echoed := m.reset.echoed.push (canonicalText number) }, ?_, rfl⟩
  have hshown : Machine.shown nestingLimit (.number number) = pure (canonicalText number) :=
    if_pos (Nat.zero_le _)
  show (Action.bind (Machine.setAtWork (.print site e)) fun _ =>
    Action.bind (Action.bind e.eval fun v => Machine.shown nestingLimit v >>= Machine.emit)
      fun _ => pure ()) m.reset = _
  simp only [Action.bind, Machine.setAtWork, heval, hshown]
  rfl

/-- The text of a program that prints a number spells its lexemes. -/
theorem spells_print {x : Float} (h : isFinite x = true) :
    Spells ("print " ++ canonicalText x ++ ";").toList
      (.ofWord "print" :: (printedLexemes x ++ [Terminal.semicolon.mark])) := by
  have hend : Spells [';'] [Terminal.semicolon.mark] := .mark (t := .semicolon) (by decide) .nothing
  have hnumber := spells_canonicalText h (calm_cons (c := ';') (by decide) []) hend
  have htext : ("print " ++ canonicalText x ++ ";").toList =
      "print".toList ++ ' ' :: ((canonicalText x).toList ++ [';']) := by simp
  rw [htext]
  exact .word (by decide) (calm_cons (c := ' ') (by decide) _) (.space hnumber)

/-- **Printed numbers print themselves.**  The text of a finite number can be printed by a program.
    It is cut into a numeral, behind a minus sign if the number is negative; it is evaluated to a
    number that equals the one it is the text of; and what is printed is the text again. -/
theorem print_prints_itself (source : String) {x : Float} (h : isFinite x = true) :
    ∃ (d : Derivation) (program : Program) (numeral : List Char) (site : Site) (e : Expr)
      (number : Float),
      readText ("print " ++ canonicalText x ++ ";") = .ok d ∧
      Program.ofText source ("print " ++ canonicalText x ++ ";") = .ok program ∧
      (canonicalText x).toList = (if x < 0 then ['-'] else []) ++ numeral ∧
      d.tokens.map Token.lexeme = .ofWord "print" ::
        ((if x < 0 then [Terminal.minus.mark] else []) ++ [⟨.numeral, numeral⟩] ++
          [Terminal.semicolon.mark]) ∧
      program.block.statements = [.print site e] ∧
      (∀ m : Machine, e.eval m = (.ok (.number number), m)) ∧
      (number == x) = true ∧ ((x == 0) = false → number = x) ∧
      ∀ m : Machine, ∃ m', program.run m = (.ok (), m') ∧ m'.output = #[canonicalText x] := by
  have hspells := spells_print h
  generalize htext : "print " ++ canonicalText x ++ ";" = text at hspells
  have hcursor : Spells (Cursor.start text.toList).rest _ := hspells
  obtain ⟨tokens, hlexemes, hread⟩ := hcursor.readFrom
  obtain ⟨word, _, rfl, hword, hmore⟩ := List.map_eq_cons_iff.mp hlexemes
  obtain ⟨row, _, rfl, hrow, hlast⟩ := List.map_eq_append_iff.mp hmore
  obtain ⟨semicolon, rfl, hsemicolon⟩ := List.map_eq_singleton_iff.mp hlast
  obtain ⟨e, he, heval⟩ := exists_phrase_printed source h hrow
  have hmarks : [word, semicolon].map (·.terminal) = [.printWord, .semicolon] := by
    rw [List.map_cons, List.map_singleton, (Token.of_lexeme hword).1,
      (Token.of_lexeme hsemicolon).1]
    decide
  have hphrase : ProgramPhrase source (word :: (row ++ [semicolon])) ⟨.mk _ [.print _ e]⟩ :=
    .program (.nextStatement .noStatements (.print hmarks he rfl) rfl)
  obtain ⟨d, hd, hprogram⟩ := programPhrase_iff.mp hphrase
  have hderivation : readText text = .ok d := hread [] none d hd.readTokens_eq
  refine ⟨d, _, canonical.unsigned x, _, e, reread x, hderivation,
    Program.ofText_eq_ok_iff.mpr ⟨d, hderivation, hprogram⟩, toList_canonicalText h, ?_, rfl, heval,
    reread_beq h, ?_, fun m => ?_⟩
  · rw [hd.tokens]
    exact hlexemes
  · intro hne
    rw [reread, hne, if_neg Bool.false_ne_true]
  · rw [← canonicalText_reread h]
    exact Program.run_print rfl heval m

/-- A small number below zero is printed with an exponent, and so is its text. -/
theorem print_prints_itself_small :
    isFinite (-1.5e-7) = true ∧ ∃ program, Program.ofText "here" "print -1.5e-7;" = .ok program ∧
      ∀ m : Machine, ∃ m', program.run m = (.ok (), m') ∧ m'.output = #["-1.5e-7"] := by
  have hfinite : isFinite (-1.5e-7) = true := by decide +kernel
  have htext : canonicalText (-1.5e-7) = "-1.5e-7" := by decide +kernel
  obtain ⟨d, program, numeral, site, e, number, -, hprogram, -, -, -, -, -, -, hrun⟩ :=
    print_prints_itself "here" hfinite
  rw [htext] at hprogram hrun
  exact ⟨hfinite, program, hprogram, hrun⟩

/-! ## Literals -/

/-- The numeral that a literal is written as is read as this literal. -/
theorem readsBack_of_isFinite {x : Float} (h : isFinite x = true) (hsign : isNegative x = false) :
    ReadsBack x := by
  have hnone : literal.showsSign x = false := by rw [Notation.showsSign, hsign, Bool.false_and]
  have htext : literal.write x = literal.unsigned x := by
    rw [literal.write_eq h, hnone]
    rfl
  rw [ReadsBack, htext]
  cases hzero : x == 0 with
  | true =>
    rw [numeralValue_zero endsWhole_literal hzero]
    exact (eq_zero h hsign hzero).symm
  | false =>
    have hread := read_unsigned endsWhole_literal h hzero
    rwa [hsign, if_neg Bool.false_ne_true] at hread

end BellaLang
