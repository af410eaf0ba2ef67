import BellaLang.Proofs.Syntax.Lexemes
import BellaLang.Syntax.Text

/-!
The text of a tree, cut into lexemes.

A tree that can be written in a program (`Stmt.isWritable`) has names, numerals and operators that
the grammar knows, and nothing where an expression belongs that is none.  Its text, with literals as
they stand in programs, spells the lexemes of the tree one after the other (`Stmt.spells`).

The induction is on the tree.  What follows a tree in a text is kept general: the text of an
expression spells its lexemes in front of everything calm, whatever that spells itself.
-/

namespace BellaLang

open BellaLang.Number BellaLang.Text

/-! ## Trees that can be written -/

/-- Literals as they stand in a program. -/
def LiteralStyle.plain : LiteralStyle where
  numeral := literalText
  boolean value := if value then "true" else "false"

/-- Is this a name, and no word of the language? -/
def isName (word : String) : Bool :=
  word.toList ≠ [] && nameLength word.toList == word.toList.length && keyword? word.toList == none

mutual

/-- Can this expression be written in a program? -/
def Expr.isWritable : Expr → Bool
  | .numeral _ value => isFinite value && !isNegative value
  | .boolean .. => true
  | .name id => isName id.spelling
  | .unary _ op operand => (unaryTerminal? op).isSome && operand.isWritable
  | .binary _ op left right => (binaryTerminal? op).isSome && left.isWritable && right.isWritable
  | .call _ callee args => isName callee.spelling && Expr.areWritable args
  | .conditional _ test consequent alternate =>
    test.isWritable && consequent.isWritable && alternate.isWritable
  | .array _ elements => Expr.areWritable elements
  | .subscript _ base index => base.isWritable && index.isWritable
  | .nothing | .statement _ | .program _ => false

/-- Can these expressions be written in a program? -/
def Expr.areWritable : List Expr → Bool
  | [] => true
  | e :: rest => e.isWritable && Expr.areWritable rest

end

mutual

/-- Can this statement be written in a program?  A block can only be the body of a loop. -/
def Stmt.isWritable : Stmt → Bool
  | .declaration _ id value | .assignment _ id value => isName id.spelling && value.isWritable
  | .function _ id params body =>
    isName id.spelling && params.all (fun param => isName param.spelling) && body.isWritable
  | .print _ value => value.isWritable
  | .block _ => false
  | .loop _ test (.mk _ statements) => test.isWritable && Stmt.areWritable statements

/-- Can these statements be written in a program? -/
def Stmt.areWritable : List Stmt → Bool
  | [] => true
  | s :: rest => s.isWritable && Stmt.areWritable rest

end

/-! ## The lexemes of a tree -/

/-- A word as it stands in a text: a name, or one of the words of the language. -/
def Lexeme.ofWord (word : String) : Lexeme := ⟨refine everywhere .name word.toList, word.toList⟩

mutual

/-- The lexemes that an expression is written with. -/
def Expr.lexemes : Expr → List Lexeme
  | .numeral _ value => [⟨.numeral, literal.write value⟩]
  | .boolean _ value => [.ofWord (if value then "true" else "false")]
  | .name id => [.ofWord id.spelling]
  | .unary _ op operand =>
    Terminal.lpar.mark :: ⟨(unaryTerminal? op).getD .minus, op.toList⟩ ::
      (operand.lexemes ++ [Terminal.rpar.mark])
  | .binary _ op left right =>
    Terminal.lpar.mark :: (left.lexemes ++
      ⟨(binaryTerminal? op).getD .plus, op.toList⟩ :: (right.lexemes ++ [Terminal.rpar.mark]))
  | .call _ callee args =>
    .ofWord callee.spelling :: Terminal.lpar.mark ::
      (Expr.rowLexemes args ++ [Terminal.rpar.mark])
  | .conditional _ test consequent alternate =>
    Terminal.lpar.mark :: (test.lexemes ++ Terminal.qmark.mark :: (consequent.lexemes ++
      Terminal.colon.mark :: (alternate.lexemes ++ [Terminal.rpar.mark])))
  | .array _ elements =>
    Terminal.lsqb.mark :: (Expr.rowLexemes elements ++ [Terminal.rsqb.mark])
  | .subscript _ base index =>
    base.lexemes ++ Terminal.lsqb.mark :: (index.lexemes ++ [Terminal.rsqb.mark])
  | .nothing | .statement _ | .program _ => []

/-- The lexemes of several expressions, with commas between them. -/
def Expr.rowLexemes : List Expr → List Lexeme
  | [] => []
  | e :: rest => e.lexemes ++ Expr.moreLexemes rest

/-- The lexemes of several expressions, with commas in front of them. -/
def Expr.moreLexemes : List Expr → List Lexeme
  | [] => []
  | e :: rest => Terminal.comma.mark :: (e.lexemes ++ Expr.moreLexemes rest)

end

/-- The lexemes of several names, with commas in front of them. -/
def Name.moreLexemes (ids : List Name) : List Lexeme :=
  ids.flatMap fun id => [Terminal.comma.mark, .ofWord id.spelling]

/-- The lexemes of several names, with commas between them. -/
def Name.rowLexemes : List Name → List Lexeme
  | [] => []
  | id :: rest => .ofWord id.spelling :: Name.moreLexemes rest

mutual

/-- The lexemes that a statement is written with. -/
def Stmt.lexemes : Stmt → List Lexeme
  | .declaration _ id value =>
    .ofWord "let" :: .ofWord id.spelling :: Terminal.equal.mark ::
      (value.lexemes ++ [Terminal.semicolon.mark])
  | .assignment _ id value =>
    .ofWord id.spelling :: Terminal.equal.mark :: (value.lexemes ++ [Terminal.semicolon.mark])
  | .function _ id params body =>
    .ofWord "function" :: .ofWord id.spelling :: Terminal.lpar.mark :: (Name.rowLexemes params ++
      Terminal.rpar.mark :: Terminal.equal.mark :: (body.lexemes ++ [Terminal.semicolon.mark]))
  | .print _ value => .ofWord "print" :: (value.lexemes ++ [Terminal.semicolon.mark])
  | .block _ => []
  | .loop _ test (.mk _ statements) =>
    .ofWord "while" :: (test.lexemes ++
      Terminal.lbrace.mark :: (Stmt.rowLexemes statements ++ [Terminal.rbrace.mark]))

/-- The lexemes of several statements. -/
def Stmt.rowLexemes : List Stmt → List Lexeme
  | [] => []
  | s :: rest => s.lexemes ++ Stmt.rowLexemes rest

end

/-! ## Texts as rows of characters -/

/-- The characters of an expression as it stands in a program. -/
def Expr.chars (e : Expr) : List Char := (e.textIn .plain).toList

/-- The characters of several expressions, with commas in front of them. -/
def Expr.moreChars (es : List Expr) : List Char := es.flatMap fun e => ',' :: ' ' :: e.chars

/-- The characters of several expressions, with commas between them. -/
def Expr.rowChars : List Expr → List Char
  | [] => []
  | e :: rest => e.chars ++ Expr.moreChars rest

/-- Joining texts puts the separator in front of each one but the first. -/
theorem toList_intercalate_cons (separator first : String) (rest : List String) :
    (separator.intercalate (first :: rest)).toList =
      first.toList ++ rest.flatMap fun text => separator.toList ++ text.toList := by
  induction rest generalizing first with
  | nil => simp
  | cons second rest ih => simp [String.intercalate_cons_cons, ih]

theorem Expr.textsIn_eq_map (style : LiteralStyle) (es : List Expr) :
    Expr.textsIn style es = es.map (·.textIn style) := by
  induction es with
  | nil => rfl
  | cons e rest ih => rw [textsIn, ih, List.map_cons]

theorem Expr.toList_intercalate (es : List Expr) :
    (", ".intercalate (Expr.textsIn .plain es)).toList = Expr.rowChars es := by
  cases es with
  | nil => rfl
  | cons e rest =>
    rw [textsIn, toList_intercalate_cons, textsIn_eq_map, List.flatMap_map]
    rfl

section

variable (site : Site)

theorem Expr.chars_numeral (value : Float) :
    (Expr.numeral site value).chars = literal.write value := by
  rw [chars, textIn]
  exact String.toList_ofList

theorem Expr.chars_unary (op : String) (operand : Expr) :
    (Expr.unary site op operand).chars = '(' :: (op.toList ++ (operand.chars ++ [')'])) := by
  simp [chars, textIn]

theorem Expr.chars_binary (op : String) (left right : Expr) :
    (Expr.binary site op left right).chars =
      '(' :: (left.chars ++ ' ' :: (op.toList ++ ' ' :: (right.chars ++ [')']))) := by
  simp [chars, textIn]

theorem Expr.chars_call (callee : Name) (args : List Expr) :
    (Expr.call site callee args).chars =
      callee.spelling.toList ++ '(' :: (Expr.rowChars args ++ [')']) := by
  simp [chars, textIn, -String.toList_intercalate, toList_intercalate]

theorem Expr.chars_conditional (test consequent alternate : Expr) :
    (Expr.conditional site test consequent alternate).chars =
      '(' :: (test.chars ++ ' ' :: '?' :: ' ' :: (consequent.chars ++
        ' ' :: ':' :: ' ' :: (alternate.chars ++ [')']))) := by
  simp [chars, textIn]

theorem Expr.chars_array (elements : List Expr) :
    (Expr.array site elements).chars = '[' :: (Expr.rowChars elements ++ [']']) := by
  simp [chars, textIn, -String.toList_intercalate, toList_intercalate]

theorem Expr.chars_subscript (base index : Expr) :
    (Expr.subscript site base index).chars = base.chars ++ '[' :: (index.chars ++ [']']) := by
  simp [chars, textIn]

end

/-! ## Words, marks and numerals in front of a text -/

theorem isWord_of_isName {word : String} (h : isName word = true) : IsWord word.toList := by
  simp only [isName, Bool.and_eq_true, decide_eq_true_eq, beq_iff_eq] at h
  exact h.1

theorem Spells.mark {t : Terminal} {rest : List Char} {lexemes : List Lexeme}
    (ht : t ∈ [.minus, .semicolon, .lpar, .rpar, .comma, .lbrace, .rbrace, .qmark, .colon, .lsqb,
      .rsqb])
    (h : Spells rest lexemes) : Spells (t.spelling ++ rest) (t.mark :: lexemes) :=
  .lexeme (stands_mark ht rest) h

theorem Spells.word {word : String} {rest : List Char} {lexemes : List Lexeme}
    (hword : IsWord word.toList) (hrest : Calm rest) (h : Spells rest lexemes) :
    Spells (word.toList ++ rest) (.ofWord word :: lexemes) :=
  .lexeme (stands_word hword hrest) h

/-! ## Expressions -/

theorem IsWord.exists_head {word : List Char} (h : IsWord word) :
    ∃ c tail, word = c :: tail ∧ c ≠ '=' := by
  obtain ⟨c, tail, rfl⟩ := List.exists_cons_of_ne_nil h.1
  refine ⟨c, tail, rfl, ?_⟩
  rintro rfl
  exact absurd h.cons.1 (by decide)

/-- The text of an expression begins with something, and not with an equals sign. -/
theorem Expr.chars_head : ∀ e : Expr, e.isWritable = true →
    ∃ c tail, e.chars = c :: tail ∧ c ≠ '='
  | .numeral _ value, h => by
    simp only [isWritable, Bool.and_eq_true, Bool.not_eq_true'] at h
    obtain ⟨whole, fraction, exponent, hnumeral⟩ := isNumeral_write h.1 h.2
    obtain ⟨c, tail, hwhole⟩ := List.exists_cons_of_ne_nil hnumeral.whole.1
    have hdigit := hnumeral.whole.2 c (hwhole ▸ List.mem_cons_self)
    refine ⟨c, tail ++ fraction ++ exponent, ?_, ?_⟩
    · rw [chars_numeral, hnumeral.text, hwhole]
      rfl
    · rintro rfl
      exact absurd hdigit (by decide)
  | .boolean _ value, _ => by
    have hword : IsWord (if value then "true" else "false").toList := by cases value <;> decide
    exact hword.exists_head
  | .name id, h => (isWord_of_isName h).exists_head
  | .unary site op operand, _ => ⟨'(', _, chars_unary site op operand, by decide⟩
  | .binary site op left right, _ => ⟨'(', _, chars_binary site op left right, by decide⟩
  | .call site callee args, h => by
    simp only [isWritable, Bool.and_eq_true] at h
    obtain ⟨c, tail, hcallee, hc⟩ := (isWord_of_isName h.1).exists_head
    refine ⟨c, tail ++ '(' :: (Expr.rowChars args ++ [')']), ?_, hc⟩
    rw [chars_call, hcallee]
    rfl
  | .conditional site test consequent alternate, _ =>
    ⟨'(', _, chars_conditional site test consequent alternate, by decide⟩
  | .array site elements, _ => ⟨'[', _, chars_array site elements, by decide⟩
  | .subscript site base index, h => by
    simp only [isWritable, Bool.and_eq_true] at h
    obtain ⟨c, tail, htext, hc⟩ := base.chars_head h.1
    refine ⟨c, tail ++ '[' :: (index.chars ++ [']']), ?_, hc⟩
    rw [chars_subscript, htext]
    rfl

/-- A comma, too, goes on with no word and with no numeral. -/
theorem Expr.calm_moreChars (es : List Expr) {rest : List Char} (h : Calm rest) :
    Calm (Expr.moreChars es ++ rest) := by
  cases es with
  | nil => exact h
  | cons e es => exact calm_cons (c := ',') (by decide) _

mutual

/-- **Expressions.**  In front of anything calm the text of an expression spells its lexemes. -/
theorem Expr.spells : ∀ e : Expr, e.isWritable = true → ∀ (rest : List Char) (after : List Lexeme),
    Calm rest → Spells rest after → Spells (e.chars ++ rest) (e.lexemes ++ after)
  | .numeral site value, h => by
    intro rest after hcalm hrest
    simp only [isWritable, Bool.and_eq_true, Bool.not_eq_true'] at h
    obtain ⟨whole, fraction, exponent, hnumeral⟩ := isNumeral_write h.1 h.2
    rw [chars_numeral]
    exact .lexeme (stands_numeral hnumeral hcalm) hrest
  | .boolean site value, _ => by
    intro rest after hcalm hrest
    have hword : IsWord (if value then "true" else "false").toList := by cases value <;> decide
    exact .word hword hcalm hrest
  | .name id, h => fun rest after hcalm hrest => .word (isWord_of_isName h) hcalm hrest
  | .unary site op operand, h => by
    intro rest after hcalm hrest
    simp only [isWritable, Bool.and_eq_true] at h
    obtain ⟨t, ht⟩ := Option.isSome_iff_exists.mp h.1
    obtain ⟨c, tail, hoperand, hc⟩ := operand.chars_head h.2
    have hclose : Spells (')' :: rest) (Terminal.rpar.mark :: after) :=
      .mark (t := .rpar) (by decide) hrest
    have hspells := operand.spells h.2 _ _ (calm_cons (by decide) rest) hclose
    -- `!` would run together with an equals sign, but no operand begins with one.
    have hop : Lexeme.Stands ⟨t, op.toList⟩ (operand.chars ++ ')' :: rest) := by
      rw [hoperand]
      exact stands_unary ht hc _
    rw [chars_unary, lexemes, ht]
    simp only [List.cons_append, List.append_assoc, List.nil_append, Option.getD_some]
    exact .mark (t := .lpar) (by decide) (.lexeme hop hspells)
  | .binary site op left right, h => by
    intro rest after hcalm hrest
    simp only [isWritable, Bool.and_eq_true] at h
    obtain ⟨⟨hop, hleft⟩, hright⟩ := h
    obtain ⟨t, ht⟩ := Option.isSome_iff_exists.mp hop
    have hclose : Spells (')' :: rest) (Terminal.rpar.mark :: after) :=
      .mark (t := .rpar) (by decide) hrest
    have hsecond := right.spells hright _ _ (calm_cons (by decide) rest) hclose
    have hmiddle := Spells.space (.lexeme (stands_operator ht _) (.space hsecond))
    have hfirst := left.spells hleft _ _ (calm_cons (by decide) _) hmiddle
    rw [chars_binary, lexemes, ht]
    simp only [List.cons_append, List.append_assoc, List.nil_append, Option.getD_some]
    exact .mark (t := .lpar) (by decide) hfirst
  | .call site callee args, h => by
    intro rest after hcalm hrest
    simp only [isWritable, Bool.and_eq_true] at h
    have hclose : Spells (')' :: rest) (Terminal.rpar.mark :: after) :=
      .mark (t := .rpar) (by decide) hrest
    have hrow := Expr.row_spells args h.2 _ _ (calm_cons (by decide) rest) hclose
    rw [chars_call, lexemes]
    simp only [List.cons_append, List.append_assoc, List.nil_append]
    exact .word (isWord_of_isName h.1) (calm_cons (by decide) _)
      (.mark (t := .lpar) (by decide) hrow)
  | .conditional site test consequent alternate, h => by
    intro rest after hcalm hrest
    simp only [isWritable, Bool.and_eq_true] at h
    obtain ⟨⟨htest, hconsequent⟩, halternate⟩ := h
    have hclose : Spells (')' :: rest) (Terminal.rpar.mark :: after) :=
      .mark (t := .rpar) (by decide) hrest
    have hthird := alternate.spells halternate _ _ (calm_cons (by decide) rest) hclose
    have hcolon := Spells.space (.mark (t := .colon) (by decide) (.space hthird))
    have hsecond := consequent.spells hconsequent _ _ (calm_cons (by decide) _) hcolon
    have hqmark := Spells.space (.mark (t := .qmark) (by decide) (.space hsecond))
    have hfirst := test.spells htest _ _ (calm_cons (by decide) _) hqmark
    rw [chars_conditional, lexemes]
    simp only [List.cons_append, List.append_assoc, List.nil_append]
    exact .mark (t := .lpar) (by decide) hfirst
  | .array site elements, h => by
    intro rest after hcalm hrest
    have hclose : Spells (']' :: rest) (Terminal.rsqb.mark :: after) :=
      .mark (t := .rsqb) (by decide) hrest
    have hrow := Expr.row_spells elements h _ _ (calm_cons (by decide) rest) hclose
    rw [chars_array, lexemes]
    simp only [List.cons_append, List.append_assoc, List.nil_append]
    exact .mark (t := .lsqb) (by decide) hrow
  | .subscript site base index, h => by
    intro rest after hcalm hrest
    simp only [isWritable, Bool.and_eq_true] at h
    have hclose : Spells (']' :: rest) (Terminal.rsqb.mark :: after) :=
      .mark (t := .rsqb) (by decide) hrest
    have hindex := index.spells h.2 _ _ (calm_cons (by decide) rest) hclose
    have hopen := Spells.mark (t := .lsqb) (by decide) hindex
    rw [chars_subscript, lexemes]
    simp only [List.cons_append, List.append_assoc, List.nil_append]
    exact base.spells h.1 _ _ (calm_cons (by decide) _) hopen

/-- Several expressions, with commas between them. -/
theorem Expr.row_spells : ∀ es : List Expr, Expr.areWritable es = true →
    ∀ (rest : List Char) (after : List Lexeme), Calm rest → Spells rest after →
      Spells (Expr.rowChars es ++ rest) (Expr.rowLexemes es ++ after)
  | [], _ => fun rest after _ hrest => hrest
  | e :: es, h => by
    intro rest after hcalm hrest
    simp only [areWritable, Bool.and_eq_true] at h
    have hmore := Expr.more_spells es h.2 rest after hcalm hrest
    rw [rowChars, rowLexemes, List.append_assoc, List.append_assoc]
    exact e.spells h.1 _ _ (Expr.calm_moreChars es hcalm) hmore

/-- More expressions, each after a comma. -/
theorem Expr.more_spells : ∀ es : List Expr, Expr.areWritable es = true →
    ∀ (rest : List Char) (after : List Lexeme), Calm rest → Spells rest after →
      Spells (Expr.moreChars es ++ rest) (Expr.moreLexemes es ++ after)
  | [], _ => fun rest after _ hrest => hrest
  | e :: es, h => by
    intro rest after hcalm hrest
    simp only [areWritable, Bool.and_eq_true] at h
    have hmore := Expr.more_spells es h.2 rest after hcalm hrest
    have hfirst := e.spells h.1 _ _ (Expr.calm_moreChars es hcalm) hmore
    rw [moreChars, List.flatMap_cons, moreLexemes]
    simp only [List.cons_append, List.append_assoc]
    exact .mark (t := .comma) (by decide) (.space hfirst)

end

/-! ## Statements -/

/-- The characters of a statement as it stands in a program. -/
def Stmt.chars (s : Stmt) : List Char := (s.textIn .plain).toList

/-- The characters of several statements, with spaces in front of them. -/
def Stmt.moreChars (ss : List Stmt) : List Char := ss.flatMap fun s => ' ' :: s.chars

/-- The characters of several statements, with spaces between them. -/
def Stmt.rowChars : List Stmt → List Char
  | [] => []
  | s :: rest => s.chars ++ Stmt.moreChars rest

theorem Stmt.textsIn_eq_map (style : LiteralStyle) (ss : List Stmt) :
    Stmt.textsIn style ss = ss.map (·.textIn style) := by
  induction ss with
  | nil => rfl
  | cons s rest ih => rw [textsIn, ih, List.map_cons]

theorem Stmt.toList_intercalate (ss : List Stmt) :
    (" ".intercalate (Stmt.textsIn .plain ss)).toList = Stmt.rowChars ss := by
  cases ss with
  | nil => rfl
  | cons s rest =>
    rw [textsIn, toList_intercalate_cons, textsIn_eq_map, List.flatMap_map]
    rfl

/-- The characters of several names, with commas in front of them. -/
def Name.moreChars (ids : List Name) : List Char :=
  ids.flatMap fun id => ',' :: ' ' :: id.spelling.toList

/-- The characters of several names, with commas between them. -/
def Name.rowChars : List Name → List Char
  | [] => []
  | id :: rest => id.spelling.toList ++ Name.moreChars rest

theorem Name.toList_namesText (ids : List Name) :
    (namesText (ids.map (·.spelling))).toList = Name.rowChars ids := by
  cases ids with
  | nil => rfl
  | cons id rest =>
    rw [namesText, List.map_cons, toList_intercalate_cons, List.flatMap_map]
    rfl

section

variable (site : Site)

theorem Stmt.chars_declaration (id : Name) (value : Expr) :
    (Stmt.declaration site id value).chars = "let".toList ++ ' ' :: (id.spelling.toList ++
      ' ' :: '=' :: ' ' :: (value.chars ++ [';'])) := by
  simp [chars, Expr.chars, textIn]

theorem Stmt.chars_assignment (id : Name) (value : Expr) :
    (Stmt.assignment site id value).chars =
      id.spelling.toList ++ ' ' :: '=' :: ' ' :: (value.chars ++ [';']) := by
  simp [chars, Expr.chars, textIn]

theorem Stmt.chars_function (id : Name) (params : List Name) (body : Expr) :
    (Stmt.function site id params body).chars =
      "function".toList ++ ' ' :: (id.spelling.toList ++ '(' :: (Name.rowChars params ++
        ')' :: ' ' :: '=' :: ' ' :: (body.chars ++ [';']))) := by
  simp [chars, Expr.chars, textIn, Name.toList_namesText]

theorem Stmt.chars_print (value : Expr) :
    (Stmt.print site value).chars = "print".toList ++ ' ' :: (value.chars ++ [';']) := by
  simp [chars, Expr.chars, textIn]

theorem Stmt.chars_loop (test : Expr) (blockSite : Site) (statements : List Stmt) :
    (Stmt.loop site test (.mk blockSite statements)).chars =
      "while".toList ++ ' ' :: (test.chars ++ ' ' :: '\x7b' :: ' ' :: (Stmt.rowChars statements ++
        [' ', '\x7d'])) := by
  simp [chars, Expr.chars, textIn, Block.textIn, -String.toList_intercalate, toList_intercalate]

end

theorem Name.more_spells (ids : List Name) (h : ids.all (fun id => isName id.spelling) = true)
    {rest : List Char} {after : List Lexeme} (hcalm : Calm rest) (hrest : Spells rest after) :
    Calm (Name.moreChars ids ++ rest) ∧
      Spells (Name.moreChars ids ++ rest) (Name.moreLexemes ids ++ after) := by
  induction ids with
  | nil => exact ⟨hcalm, hrest⟩
  | cons id ids ih =>
    simp only [List.all_cons, Bool.and_eq_true] at h
    obtain ⟨hmoreCalm, hmore⟩ := ih h.2
    have hword := Spells.word (isWord_of_isName h.1) hmoreCalm hmore
    rw [moreChars, List.flatMap_cons, moreLexemes, List.flatMap_cons]
    simp only [List.cons_append, List.append_assoc, List.nil_append]
    exact ⟨calm_cons (by decide) _, .mark (t := .comma) (by decide) (.space hword)⟩

/-- Several names, with commas between them. -/
theorem Name.row_spells (ids : List Name) (h : ids.all (fun id => isName id.spelling) = true)
    {rest : List Char} {after : List Lexeme} (hcalm : Calm rest) (hrest : Spells rest after) :
    Spells (Name.rowChars ids ++ rest) (Name.rowLexemes ids ++ after) := by
  cases ids with
  | nil => exact hrest
  | cons id ids =>
    simp only [List.all_cons, Bool.and_eq_true] at h
    obtain ⟨hmoreCalm, hmore⟩ := Name.more_spells ids h.2 hcalm hrest
    rw [rowChars, rowLexemes, List.append_assoc]
    exact .word (isWord_of_isName h.1) hmoreCalm hmore

/-- What ends a statement with an expression and a semicolon. -/
theorem Expr.spells_semicolon (e : Expr) (h : e.isWritable = true) {rest : List Char}
    {after : List Lexeme} (hrest : Spells rest after) :
    Spells (e.chars ++ ';' :: rest) (e.lexemes ++ Terminal.semicolon.mark :: after) :=
  e.spells h _ _ (calm_cons (by decide) rest) (.mark (t := .semicolon) (by decide) hrest)

mutual

/-- **Statements.**  The text of a statement spells its lexemes, whatever follows. -/
theorem Stmt.spells : ∀ s : Stmt, s.isWritable = true → ∀ (rest : List Char) (after : List Lexeme),
    Spells rest after → Spells (s.chars ++ rest) (s.lexemes ++ after)
  | .declaration site id value, h => by
    intro rest after hrest
    simp only [isWritable, Bool.and_eq_true] at h
    have hvalue := value.spells_semicolon h.2 hrest
    have hequal := Spells.space (.lexeme (stands_equal _) (.space hvalue))
    have hid := Spells.space (.word (isWord_of_isName h.1) (calm_cons (by decide) _) hequal)
    rw [chars_declaration, lexemes]
    simp only [List.cons_append, List.append_assoc, List.nil_append]
    exact .word (by decide) (calm_cons (by decide) _) hid
  | .assignment site id value, h => by
    intro rest after hrest
    simp only [isWritable, Bool.and_eq_true] at h
    have hvalue := value.spells_semicolon h.2 hrest
    have hequal := Spells.space (.lexeme (stands_equal _) (.space hvalue))
    rw [chars_assignment, lexemes]
    simp only [List.cons_append, List.append_assoc, List.nil_append]
    exact .word (isWord_of_isName h.1) (calm_cons (by decide) _) hequal
  | .function site id params body, h => by
    intro rest after hrest
    simp only [isWritable, Bool.and_eq_true] at h
    obtain ⟨⟨hid, hparams⟩, hbody⟩ := h
    have hvalue := body.spells_semicolon hbody hrest
    have hequal := Spells.space (.lexeme (stands_equal _) (.space hvalue))
    have hclose := Spells.mark (t := .rpar) (by decide) hequal
    have hrow := Name.row_spells params hparams (calm_cons (by decide) _) hclose
    have hopen := Spells.mark (t := .lpar) (by decide) hrow
    have hname := Spells.space (.word (isWord_of_isName hid) (calm_cons (by decide) _) hopen)
    rw [chars_function, lexemes]
    simp only [List.cons_append, List.append_assoc, List.nil_append]
    exact .word (by decide) (calm_cons (by decide) _) hname
  | .print site value, h => by
    intro rest after hrest
    have hvalue := Spells.space (value.spells_semicolon h hrest)
    rw [chars_print, lexemes]
    simp only [List.cons_append, List.append_assoc, List.nil_append]
    exact .word (by decide) (calm_cons (by decide) _) hvalue
  | .loop site test (.mk blockSite statements), h => by
    intro rest after hrest
    simp only [isWritable, Bool.and_eq_true] at h
    have hclose := Spells.space (.mark (t := .rbrace) (by decide) hrest)
    have hrow := Stmt.row_spells statements h.2 _ _ hclose
    have hopen := Spells.space (.mark (t := .lbrace) (by decide) (.space hrow))
    have htest := test.spells h.1 _ _ (calm_cons (by decide) _) hopen
    rw [chars_loop, lexemes]
    simp only [List.cons_append, List.append_assoc, List.nil_append]
    exact .word (by decide) (calm_cons (by decide) _) (.space htest)

/-- Several statements, with spaces between them. -/
theorem Stmt.row_spells : ∀ ss : List Stmt, Stmt.areWritable ss = true →
    ∀ (rest : List Char) (after : List Lexeme), Spells rest after →
      Spells (Stmt.rowChars ss ++ rest) (Stmt.rowLexemes ss ++ after)
  | [], _ => fun rest after hrest => hrest
  | s :: ss, h => by
    intro rest after hrest
    simp only [areWritable, Bool.and_eq_true] at h
    rw [rowChars, rowLexemes, List.append_assoc, List.append_assoc]
    exact s.spells h.1 _ _ (Stmt.more_spells ss h.2 rest after hrest)

/-- More statements, each after a space. -/
theorem Stmt.more_spells : ∀ ss : List Stmt, Stmt.areWritable ss = true →
    ∀ (rest : List Char) (after : List Lexeme), Spells rest after →
      Spells (Stmt.moreChars ss ++ rest) (Stmt.rowLexemes ss ++ after)
  | [], _ => fun rest after hrest => hrest
  | s :: ss, h => by
    intro rest after hrest
    simp only [areWritable, Bool.and_eq_true] at h
    have hmore := Stmt.more_spells ss h.2 rest after hrest
    rw [moreChars, List.flatMap_cons, rowLexemes, List.append_assoc, List.append_assoc]
    exact .space (s.spells h.1 _ _ hmore)

end

end BellaLang
