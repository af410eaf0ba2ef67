import BellaLang.Proofs.Execution.Safety
import BellaLang.Proofs.Grammar.Building
import BellaLang.Proofs.Grammar.Cutting
import BellaLang.Proofs.Number.Whole

/-!
Programs that are read from a text stop in ways of the language's own.

The parts of this have been shown before, each by itself; here they meet.  A text that is read is
cut into tokens that are spelled rightly, and the grammatical derivation of these tokens is what the
program is made from.

  1. Building the tree of a grammatical derivation never hands a constructor what it refuses
     (`IsGrammatical.build?_program`).
  2. A phrase stands for a proper piece of a tree, by induction on the phrase: nothing is out of
     place in it, and an operator that is spelled rightly is known (`Phrase.isProper`).
  3. A proper program stops in own ways only, on any machine (`Program.watch_safe`).
  4. The positions that a subscript lets pass are those of the array (`pick_array`), and the host is
     never handed any other one (`hostInteger_of_isPosition`).

Main statement: `Program.ofText_stops_in_own_ways`.
-/

namespace BellaLang

open BellaLang.Number

/-! ## Operators that are spelled rightly -/

theorem isSome_binary_of_spelled {t : Terminal} {text : List Char} {level left right : Nonterminal}
    (h : Lexeme.IsSpelled ⟨t, text⟩) (hlevel : level.operands? t = some (left, right)) :
    (BinaryOp.ofSymbol? (String.ofList text)).isSome = true := by
  have hrelations : ∀ relation ∈ relations,
      (BinaryOp.ofSymbol? (String.ofList relation)).isSome = true := by decide +kernel
  have hmarks : t = .relop ∨ t.isMark = true ∧
      (BinaryOp.ofSymbol? (String.ofList t.spelling)).isSome = true := by
    unfold Nonterminal.operands? at hlevel
    split at hlevel <;> first
      | exact .inl rfl
      | exact .inr (by decide +kernel)
      | cases hlevel
  rcases hmarks with rfl | ⟨hmark, hknown⟩
  · exact hrelations text h
  · obtain rfl := (isSpelled_mark hmark).mp h
    exact hknown

theorem isSome_unary_of_spelled {t : Terminal} {text : List Char}
    (h : Lexeme.IsSpelled ⟨t, text⟩) (hmark : t = .minus ∨ t = .bang) :
    (UnaryOp.ofSymbol? (String.ofList text)).isSome = true := by
  rcases hmark with rfl | rfl
  · obtain rfl := (isSpelled_mark rfl).mp h
    decide +kernel
  · obtain rfl := (isSpelled_mark rfl).mp h
    decide +kernel

/-! ## Phrases stand for proper pieces -/

/-- Nothing in the piece is out of place, and all its operators are known. -/
def Piece.isProper : Piece → Bool
  | .expr e => e.isProper
  | .exprs es => Expr.areProper es
  | .names _ => true
  | .stmt s => s.isProper
  | .stmts ss => Stmt.areProper ss
  | .block body => body.isProper

theorem Expr.areProper_append (es more : List Expr) :
    Expr.areProper (es ++ more) = (Expr.areProper es && Expr.areProper more) := by
  induction es with
  | nil => rfl
  | cons e es ih => rw [List.cons_append, areProper, areProper, ih, Bool.and_assoc]

theorem Stmt.areProper_append (ss more : List Stmt) :
    Stmt.areProper (ss ++ more) = (Stmt.areProper ss && Stmt.areProper more) := by
  induction ss with
  | nil => rfl
  | cons s ss ih => rw [List.cons_append, areProper, areProper, ih, Bool.and_assoc]

/-- **A phrase of tokens that are spelled rightly stands for a proper piece.** -/
theorem Phrase.isProper {source : String} {n : Nonterminal} {row : List Token} {piece : Piece}
    (h : Phrase source n row piece) (hspelled : ∀ token ∈ row, token.lexeme.IsSpelled) :
    piece.isProper = true := by
  induction h with
  | noStatements | noMoreParams | noMoreArgs | numeral | trueLiteral | falseLiteral | name
  | callWithoutArgs | emptyArray => rfl
  | params | nextParam => rfl
  | program hss ih => exact ih hspelled
  | tighter hlevel he ih => exact ih hspelled
  | declaration hmarks he hrow ih | functionWithoutParams hmarks he hrow ih
  | assignment hmarks he hrow ih | print hmarks he hrow ih | block hmarks he hrow ih
  | call hmarks he hrow ih | array hmarks he hrow ih | parenthesised hmarks he hrow ih =>
    subst hrow
    exact ih fun token ht => hspelled token (by simp [ht])
  | function hmarks hids he hrow ihids ih =>
    subst hrow
    exact ih fun token ht => hspelled token (by simp [ht])
  | unary hmark he hrow ih =>
    subst hrow
    have hop := isSome_unary_of_spelled (hspelled _ (by simp)) hmark
    exact Bool.and_eq_true_iff.mpr ⟨hop, ih fun token ht => hspelled token (by simp [ht])⟩
  | loop hmark he hbody hrow ihe ihbody | subscript hmarks he hbody hrow ihe ihbody
  | args he hbody hrow ihe ihbody =>
    subst hrow
    exact Bool.and_eq_true_iff.mpr ⟨ihe fun token ht => hspelled token (by simp [ht]),
      ihbody fun token ht => hspelled token (by simp [ht])⟩
  | binary hlevel ha hb hrow iha ihb =>
    subst hrow
    have hop := isSome_binary_of_spelled (hspelled _ (by simp)) hlevel
    exact Bool.and_eq_true_iff.mpr ⟨hop, Bool.and_eq_true_iff.mpr
      ⟨iha fun token ht => hspelled token (by simp [ht]),
        ihb fun token ht => hspelled token (by simp [ht])⟩⟩
  | conditional hmarks htest hconsequent halternate hrow ihtest ihconsequent ihalternate =>
    subst hrow
    exact Bool.and_eq_true_iff.mpr ⟨ihtest fun token ht => hspelled token (by simp [ht]),
      Bool.and_eq_true_iff.mpr ⟨ihconsequent fun token ht => hspelled token (by simp [ht]),
        ihalternate fun token ht => hspelled token (by simp [ht])⟩⟩
  | nextStatement hss hs hrow ihss ihs =>
    subst hrow
    have hss := ihss fun token ht => hspelled token (by simp [ht])
    have hs := ihs fun token ht => hspelled token (by simp [ht])
    show Stmt.areProper (_ ++ [_]) = true
    rw [Stmt.areProper_append, show Stmt.areProper _ = true from hss, Bool.true_and]
    exact Bool.and_eq_true_iff.mpr ⟨hs, rfl⟩
  | nextArg hmark hes he hrow ihes ihe =>
    subst hrow
    have hes := ihes fun token ht => hspelled token (by simp [ht])
    have he := ihe fun token ht => hspelled token (by simp [ht])
    show Expr.areProper (_ ++ [_]) = true
    rw [Expr.areProper_append, show Expr.areProper _ = true from hes, Bool.true_and]
    exact Bool.and_eq_true_iff.mpr ⟨he, rfl⟩

/-! ## Programs of a text -/

/-- The program of a text is proper. -/
theorem Program.isProper_of_ofText {source text : String} {program : Program}
    (h : Program.ofText source text = .ok program) : program.block.isProper = true := by
  obtain ⟨d, hread, rfl⟩ := ofText_eq_ok_iff.mp h
  obtain ⟨hgrammatical, hsymbol, after, hcut, -⟩ := readText_eq_ok_iff.mp hread
  exact (hgrammatical.phrase source hsymbol).isProper hcut.isSpelled

/-! ## Positions in an array -/

/-- Is the double the number of one of the first `size` positions? -/
def IsPosition (size : Nat) (x : Float) (position : Nat) : Prop :=
  isFinite x = true ∧ value x = position ∧ position < size

/-- **A subscript picks at a position of the array**, whatever the double is: if it is finite and
    has the value of a position, the element there is picked, and else nothing is. -/
theorem pick_array (elements : List Value) (x : Float) :
    (∃ (i : Nat) (h : i < elements.length), IsPosition elements.length x i ∧
      pick (.array elements) (.number x) = pure elements[i]) ∨
    (∀ i, ¬ IsPosition elements.length x i) ∧
      pick (.array elements) (.number x) = .fail (.outOfRange x elements.length) := by
  cases hnatural : natural? x with
  | none =>
    refine .inr ⟨?_, pick_array_eq_fail (by rw [hnatural]; rfl)⟩
    rintro i ⟨hfinite, hvalue, -⟩
    rw [(natural?_eq_some_iff x i).mpr ⟨hfinite, hvalue⟩] at hnatural
    cases hnatural
  | some n =>
    obtain ⟨hfinite, hvalue⟩ := (natural?_eq_some_iff x n).mp hnatural
    by_cases hn : n < elements.length
    · have helement : (natural? x).bind (elements[·]?) = some elements[n] := by
        rw [hnatural, Option.bind_some, List.getElem?_eq_getElem hn]
      exact .inl ⟨n, hn, ⟨hfinite, hvalue, hn⟩, pick_array_eq_pure helement⟩
    · have hnone : (natural? x).bind (elements[·]?) = none := by
        rw [hnatural, Option.bind_some, List.getElem?_eq_none (Nat.le_of_not_lt hn)]
      refine .inr ⟨?_, pick_array_eq_fail hnone⟩
      rintro i ⟨-, hother, hi⟩
      have hsame : n = i := by exact_mod_cast hvalue.symm.trans hother
      rw [hsame] at hn
      exact hn hi

/-- **What a subscript lets pass is a position for the host**: it is turned into a natural number
    below the size, and never into a number below zero, which the host would count from the end. -/
theorem hostInteger_of_isPosition {x : Float} {size : Nat} (h : isPosition x size = true) :
    ∃ i : Nat, IsPosition size x i ∧ hostInteger x = .ok (i : Int) := by
  obtain ⟨i, hi, hnatural⟩ := (isPosition_iff x size).mp h
  obtain ⟨hfinite, hvalue⟩ := (natural?_eq_some_iff x i).mp hnatural
  exact ⟨i, ⟨hfinite, hvalue, hi⟩, hostInteger_eq hnatural⟩

/-! ## The way from a text to the end of its run -/

/-- **Programs of a text stop in own ways only.**  What is built of the text passes all checks of
    the constructors, and is the program.  Wherever it is run and however far, it comes to its end,
    or stops with a failure that is not about an unknown operator, or because calls or arrays nest
    too deeply or a loop does not end.  The operations of the host that it comes to use may end with
    errors of their own, but none gets through: operators and built-in functions always have a
    result, and a subscript asks for a position that its array has, or fails. -/
theorem Program.ofText_stops_in_own_ways {source text : String} {program : Program}
    (h : Program.ofText source text = .ok program) :
    (∃ d : Derivation, readText text = .ok d ∧ d.toProgram source = program ∧
      d.build? source = some [.node (.program program.block)]) ∧
    (∀ (limits : Limits) (m : Machine), EndsWell (fun _ => True) (program.watch limits m).result) ∧
    (∀ (limits : Limits) (m : Machine),
      EndsWell (fun _ => True) (program.runWithin limits m).1) ∧
    (∀ (f : ArithmeticOp) (x y : Float), ∃ z, f.apply x y = .ok z) ∧
    (∀ entry ∈ builtInFunctions, ∀ x, ∃ y, entry.2 x = .ok y) ∧
    (∀ (size : Nat) (x : Float), isPosition x size = true →
      ∃ i : Nat, IsPosition size x i ∧ hostInteger x = .ok (i : Int)) ∧
    ∀ (elements : List Value) (x : Float),
      (∃ (i : Nat) (h : i < elements.length), IsPosition elements.length x i ∧
        pick (.array elements) (.number x) = pure elements[i]) ∨
      (∀ i, ¬ IsPosition elements.length x i) ∧
        pick (.array elements) (.number x) = .fail (.outOfRange x elements.length) := by
  have hproper := isProper_of_ofText h
  have hsafe := fun limits m => watch_safe limits hproper m
  obtain ⟨d, hread, hprogram⟩ := ofText_eq_ok_iff.mp h
  obtain ⟨hgrammatical, hsymbol, -⟩ := readText_eq_ok_iff.mp hread
  refine ⟨⟨d, hread, hprogram, ?_⟩, hsafe, fun limits m => ?_, ArithmeticOp.exists_apply,
    fun entry hentry => builtInFunctions_answer hentry, fun size x => hostInteger_of_isPosition,
    pick_array⟩
  · rw [hgrammatical.build?_program source hsymbol, hprogram]
  · rw [← program.watch_eq_run]
    exact hsafe limits m

/-- A function that is called with the wrong number of arguments, behind a loop. -/
theorem Program.ofText_stops_in_own_ways_function :
    let text :=
      "function f(x) = -x ** 2; let i = 0; while i < 3 \x7b i = i + 1; \x7d print [f(i)][f()];"
    ∃ program, Program.ofText "here" text = .ok program ∧
      ∀ (limits : Limits) (m : Machine),
        EndsWell (fun _ => True) (program.runWithin limits m).1 := by
  intro text
  obtain ⟨program, hok⟩ : ∃ program, Program.ofText "here" text = .ok program :=
    Program.exists_ofText (by decide +kernel)
  exact ⟨program, hok, (Program.ofText_stops_in_own_ways hok).2.2.1⟩

end BellaLang
