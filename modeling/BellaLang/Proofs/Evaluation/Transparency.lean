import BellaLang.Proofs.Evaluation.Agreement
import BellaLang.Proofs.Evaluation.Deepening

/-!
An expression can be replaced by the literal of its value.

Somewhere inside an expression there is another one, which has a number or a truth value as its
value.  The expression around it is a row of layers (`Expr.Layer`), one for each node on the way
down, and nothing that is evaluated on the way disturbs the store that the inner one is read in.  So
the literal of the value can take its place:

  1. two steps are *alike* on a store if they end alike on any two machines with this store,
     whatever else they hold (`Action.Alike`); this is closed under sequencing, as evaluations keep
     the store (`Alike.bind`);
  2. a layer around expressions that are alike makes expressions that are alike, by one case for
     each kind of layer (`AlikeWith.layer`), and so does a whole row of layers (`AlikeWith.around`).

Main statement: `eval_replaces_value`.
-/

namespace BellaLang

open Machine

/-! ## Places in an expression -/

/-- One node of an expression, apart from one of its parts. -/
inductive Expr.Layer where
  | unary (site : Site) (op : String)
  | binaryLeft (site : Site) (op : String) (right : Expr)
  | binaryRight (site : Site) (op : String) (left : Expr)
  | call (site : Site) (callee : Name) (before after : List Expr)
  | conditionalTest (site : Site) (consequent alternate : Expr)
  | conditionalConsequent (site : Site) (test alternate : Expr)
  | conditionalAlternate (site : Site) (test consequent : Expr)
  | array (site : Site) (before after : List Expr)
  | subscriptBase (site : Site) (index : Expr)
  | subscriptIndex (site : Site) (base : Expr)
  /-- A statement made around the part, where an expression belongs. -/
  | statement (make : Expr → Stmt)
  /-- A whole program made around the part, where an expression belongs. -/
  | program (make : Expr → Block)

/-- The node with this part. -/
def Expr.Layer.around : Expr.Layer → Expr → Expr
  | .unary site op, e => .unary site op e
  | .binaryLeft site op right, e => .binary site op e right
  | .binaryRight site op left, e => .binary site op left e
  | .call site callee before after, e => .call site callee (before ++ e :: after)
  | .conditionalTest site consequent alternate, e => .conditional site e consequent alternate
  | .conditionalConsequent site test alternate, e => .conditional site test e alternate
  | .conditionalAlternate site test consequent, e => .conditional site test consequent e
  | .array site before after, e => .array site (before ++ e :: after)
  | .subscriptBase site index, e => .subscript site e index
  | .subscriptIndex site base, e => .subscript site base e
  | .statement make, e => .statement (make e)
  | .program make, e => .program (make e)

/-- An expression in layers, the outermost first: it is at one place of the expression that they
    make. -/
def Expr.around (layers : List Expr.Layer) (e : Expr) : Expr :=
  layers.foldr Expr.Layer.around e

/-- The expression is a literal that is written for the value. -/
inductive Expr.IsLiteralOf : Expr → Value → Prop
  | numeral (site : Site) (x : Float) : IsLiteralOf (.numeral site x) (.number x)
  | boolean (site : Site) (b : Bool) : IsLiteralOf (.boolean site b) (.boolean b)

/-! ## Steps that are alike -/

/-- The steps end alike on any two machines with this store, with a value that is good. -/
def Action.Alike {α : Type} (store : Store) (good : α → Prop) (a b : Action α) : Prop :=
  ∀ m₁ m₂ : Machine, m₁.store = store → m₂.store = store →
    EndAlike ∅ good (a m₁).1 (b m₂).1

namespace Action.Alike

variable {α β : Type} {store : Store} {good : α → Prop} {goodNext : β → Prop}

/-- Sequencing: the first steps have kept the store, and have had the same value. -/
theorem bind {a b : Action α} {next other : α → Action β} (ha : a.Keeps) (hb : b.Keeps)
    (h : Alike store good a b) (hnext : ∀ x, good x → Alike store goodNext (next x) (other x)) :
    Alike store goodNext (a >>= next) (b >>= other) := by
  intro m₁ m₂ h₁ h₂
  have hends := h m₁ m₂ h₁ h₂
  rcases hrun₁ : a m₁ with ⟨result₁, m₁'⟩
  rcases hrun₂ : b m₂ with ⟨result₂, m₂'⟩
  rw [hrun₁, hrun₂] at hends
  cases hends with
  | value hx =>
    rw [bind_apply_ok hrun₁, bind_apply_ok hrun₂]
    exact hnext _ hx m₁' m₂' ((ha.store_eq_of_run hrun₁).trans h₁)
      ((hb.store_eq_of_run hrun₂).trans h₂)
  | stop reason =>
    rw [bind_apply_stop hrun₁, bind_apply_stop hrun₂]
    exact .stop reason
  | wanting hname calls other => exact absurd hname (Set.notMem_empty _)

theorem ite {p : Prop} [Decidable p] {a b c d : Action α} (ha : Alike store good a b)
    (hc : Alike store good c d) : Alike store good (if p then a else c) (if p then b else d) := by
  split
  · exact ha
  · exact hc

end Action.Alike

/-! ## Expressions with parts that are alike -/

/-- Two expressions are alike on a store, with values that stay in the set of all names. -/
def Expr.AlikeWith (call : Calling) (store : Store) (e other : Expr) : Prop :=
  Action.Alike store (·.StaysIn Set.univ) (e.evalWith call) (other.evalWith call)

/-- The same for rows of expressions. -/
def Expr.AllAlikeWith (call : Calling) (store : Store) (es others : List Expr) : Prop :=
  Action.Alike store (fun values => ∀ v ∈ values, v.StaysIn Set.univ) (Expr.evalAllWith call es)
    (Expr.evalAllWith call others)

/-- Calls keep the machine and are steady, and the store shows no native function that is not
    pure. -/
structure Calling.SteadyOn (call : Calling) (store : Store) : Prop where
  calls : call.Steady Set.univ ∅
  shows : store.Resembles store Set.univ ∅

/-- A steady step is like itself. -/
theorem Calling.SteadyOn.alike {call : Calling} {store : Store} (hon : call.SteadyOn store)
    {α : Type} {good : α → Prop} {a : Action α} (h : a.Steady Set.univ ∅ good) :
    a.Alike store good a := by
  intro m₁ m₂ h₁ h₂
  refine h m₁ m₂ ?_
  rw [h₁, h₂]
  exact hon.shows

namespace Expr.AlikeWith

variable {call : Calling} {store : Store} (hon : call.SteadyOn store)
include hon

/-- An expression is like itself. -/
theorem refl (e : Expr) : AlikeWith call store e e :=
  hon.alike (e.evalWith_steady hon.calls fun name _ => Set.mem_univ name)

theorem refl_all (es : List Expr) : AllAlikeWith call store es es :=
  hon.alike (Expr.evalAllWith_steady hon.calls es fun name _ => Set.mem_univ name)

variable {e other a b c a' b' c' : Expr} {es others : List Expr}

theorem unary (h : AlikeWith call store e other) (site : Site) (op : String) :
    AlikeWith call store (.unary site op e) (.unary site op other) := by
  unfold AlikeWith evalWith
  refine .bind (evalWith_keeps hon.calls.keeps e) (evalWith_keeps hon.calls.keeps other) h
    fun v _ => ?_
  refine hon.alike ?_
  cases UnaryOp.ofSymbol? op with
  | none => exact .fail _
  | some f =>
    cases f with
    | negate =>
      exact .bind (numberFor_keeps op v) (numberFor_steady op v) fun x _ => .pure (.number _)
    | not => exact .pure (.boolean _)

/-- An operand that has to be a number. -/
theorem numberFor (h : AlikeWith call store e other) (op : String) :
    Action.Alike store (fun _ => True) (e.evalWith call >>= BellaLang.numberFor op)
      (other.evalWith call >>= BellaLang.numberFor op) :=
  .bind (evalWith_keeps hon.calls.keeps e) (evalWith_keeps hon.calls.keeps other) h fun v _ =>
    hon.alike (numberFor_steady op v)

theorem binary (ha : AlikeWith call store a a') (hb : AlikeWith call store b b') (site : Site)
    (op : String) : AlikeWith call store (.binary site op a b) (.binary site op a' b') := by
  have hkeeps (e : Expr) : (e.evalWith call).Keeps := evalWith_keeps hon.calls.keeps e
  have hkeepsNumber (e : Expr) : (e.evalWith call >>= BellaLang.numberFor op).Keeps :=
    (hkeeps e).bind (numberFor_keeps op)
  have hx := ha.numberFor hon op
  have hy := hb.numberFor hon op
  unfold AlikeWith evalWith
  cases BinaryOp.ofSymbol? op with
  | none => exact hon.alike (.fail _)
  | some f =>
    cases f with
    | shortcut settledBy =>
      exact .bind (hkeeps a) (hkeeps a') ha fun v hv => .ite (hon.alike (.pure hv)) hb
    | arithmetic f =>
      refine .bind (hkeepsNumber a) (hkeepsNumber a') hx fun x _ => ?_
      refine .bind (hkeepsNumber b) (hkeepsNumber b') hy fun y _ => hon.alike ?_
      obtain ⟨z, -, hz⟩ := exists_compute f x y
      rw [hz]
      exact .pure (.number z)
    | relational r =>
      refine .bind (hkeepsNumber a) (hkeepsNumber a') hx fun x _ => ?_
      exact .bind (hkeepsNumber b) (hkeepsNumber b') hy fun y _ =>
        hon.alike (.pure (.boolean _))
    | equality wanted =>
      exact .bind (hkeeps a) (hkeeps a') ha fun v _ => .bind (hkeeps b) (hkeeps b') hb fun w _ =>
        hon.alike (.pure (.boolean _))

theorem conditional (ha : AlikeWith call store a a')
    (hb : AlikeWith call store b b') (hc : AlikeWith call store c c') (site : Site) :
    AlikeWith call store (.conditional site a b c) (.conditional site a' b' c') := by
  unfold AlikeWith evalWith
  exact .bind (evalWith_keeps hon.calls.keeps a) (evalWith_keeps hon.calls.keeps a') ha fun v _ =>
    .ite hb hc

theorem subscript (ha : AlikeWith call store a a') (hb : AlikeWith call store b b') (site : Site) :
    AlikeWith call store (.subscript site a b) (.subscript site a' b') := by
  unfold AlikeWith evalWith
  refine .bind (evalWith_keeps hon.calls.keeps a) (evalWith_keeps hon.calls.keeps a') ha
    fun v hv => ?_
  exact .bind (evalWith_keeps hon.calls.keeps b) (evalWith_keeps hon.calls.keeps b') hb fun i _ =>
    hon.alike (pick_steady hv i)

theorem cons (h : AlikeWith call store e other) (hs : AllAlikeWith call store es others) :
    AllAlikeWith call store (e :: es) (other :: others) := by
  unfold AllAlikeWith evalAllWith
  refine .bind (evalWith_keeps hon.calls.keeps e) (evalWith_keeps hon.calls.keeps other) h
    fun v hv => ?_
  refine .bind (evalAllWith_keeps hon.calls.keeps es)
    (evalAllWith_keeps hon.calls.keeps others) hs ?_
  exact fun values hvalues => hon.alike (.pure (List.forall_mem_cons.mpr ⟨hv, hvalues⟩))

/-- In a row of expressions, one can be replaced by another one that is like it. -/
theorem within (h : AlikeWith call store e other) (before after : List Expr) :
    AllAlikeWith call store (before ++ e :: after) (before ++ other :: after) := by
  induction before with
  | nil => exact h.cons hon (refl_all hon after)
  | cons first before ih => exact (refl hon first).cons hon ih

theorem array (hs : AllAlikeWith call store es others) (site : Site) :
    AlikeWith call store (.array site es) (.array site others) := by
  unfold AlikeWith evalWith
  exact .bind (evalAllWith_keeps hon.calls.keeps es) (evalAllWith_keeps hon.calls.keeps others) hs
    fun values hvalues => hon.alike (.pure (.array hvalues))

/-- Calls: the name is looked up before the arguments, so it is the same function that gets them. -/
theorem application (hs : AllAlikeWith call store es others) (hlength : es.length = others.length)
    (site : Site) (callee : Name) :
    AlikeWith call store (.call site callee es) (.call site callee others) := by
  have hkeeps (es : List Expr) : (evalAllWith call es).Keeps := evalAllWith_keeps hon.calls.keeps es
  unfold AlikeWith evalWith
  refine .bind (.lookup _) (.lookup _) (hon.alike (.lookup (Set.mem_univ _))) fun v hv => ?_
  cases v with
  | native f =>
    exact .bind (hkeeps es) (hkeeps others) hs fun values _ =>
      hon.alike (.callNative hv values)
  | user f =>
    dsimp only
    rw [hlength]
    refine .ite (.bind (hkeeps es) (hkeeps others) hs fun values hvalues => ?_)
      (hon.alike (.fail _))
    exact hon.alike (hon.calls.steady f values (hv _ rfl .self) hvalues)
  | number x => exact hon.alike (.fail _)
  | boolean b => exact hon.alike (.fail _)
  | array elements => exact hon.alike (.fail _)

/-- A layer around expressions that are alike makes expressions that are alike. -/
theorem layer (h : AlikeWith call store e other) (l : Layer) :
    AlikeWith call store (l.around e) (l.around other) := by
  have hsame := refl hon
  cases l with
  | unary site op => exact h.unary hon site op
  | binaryLeft site op right => exact h.binary hon (hsame right) site op
  | binaryRight site op left => exact (hsame left).binary hon h site op
  | call site callee before after =>
    refine AlikeWith.application hon (h.within hon before after) ?_ site callee
    rw [List.length_append, List.length_append, List.length_cons, List.length_cons]
  | conditionalTest site consequent alternate =>
    exact h.conditional hon (hsame consequent) (hsame alternate) site
  | conditionalConsequent site test alternate =>
    exact (hsame test).conditional hon h (hsame alternate) site
  | conditionalAlternate site test consequent =>
    exact (hsame test).conditional hon (hsame consequent) h site
  | array site before after => exact AlikeWith.array hon (h.within hon _ _) site
  | subscriptBase site index => exact h.subscript hon (hsame index) site
  | subscriptIndex site base => exact (hsame base).subscript hon h site
  | statement make => exact fun _ _ _ _ => .stop .misfit
  | program make => exact fun _ _ _ _ => .stop .misfit

/-- So does a whole row of layers. -/
theorem around (h : AlikeWith call store e other) (layers : List Layer) :
    AlikeWith call store (Expr.around layers e) (Expr.around layers other) := by
  induction layers with
  | nil => exact h
  | cons l layers ih => exact ih.layer hon l

end Expr.AlikeWith

/-! ## Replacing an expression by a literal -/

/-- A literal ends with its value, which stays in any set of names. -/
theorem Expr.IsLiteralOf.evalWithin {lit : Expr} {v : Value} (h : lit.IsLiteralOf v) (depth : Nat)
    (m : Machine) : (lit.evalWithin depth m).1 = .ok v ∧ v.StaysIn Set.univ := by
  cases h with
  | numeral site x => exact ⟨rfl, .number x⟩
  | boolean site b => exact ⟨rfl, .boolean b⟩

/-- With so many calls to go that the inner expression has its value, the outcome around it is the
    one around the literal. -/
theorem Expr.evalWithin_around {m : Machine} {e lit : Expr} {v : Value} {depth : Nat}
    (hpure : ∀ name w, m.store.get? name = some w →
      ∀ f, (Value.native f).AppearsIn w → f.IsPure)
    (hlit : lit.IsLiteralOf v) (hvalue : (e.evalWithin depth m).1 = .ok v)
    (layers : List Layer) :
    ((Expr.around layers e).evalWithin depth m).1 =
      ((Expr.around layers lit).evalWithin depth m).1 := by
  have hon : (callWithin depth).SteadyOn m.store :=
    ⟨callWithin_steady depth, fun _ _ => .inl rfl,
      fun name _ w hw => Value.staysIn (fun _ _ _ _ => Set.mem_univ _) (hpure name w hw)⟩
  -- The expression has its value on every machine with this store, and the literal has it on all.
  have halike : AlikeWith (callWithin depth) m.store e lit := by
    intro m₁ m₂ h₁ h₂
    have hsame : (e.evalWithin depth m).1 = (e.evalWithin depth m₁).1 :=
      (AlikeWith.refl hon e m m₁ rfl h₁).eq_of_empty
    obtain ⟨hends, hstays⟩ := hlit.evalWithin depth m₂
    show EndAlike ∅ _ (e.evalWithin depth m₁).1 (lit.evalWithin depth m₂).1
    rw [← hsame, hvalue, hends]
    exact .value hstays
  exact (halike.around hon layers m m rfl rfl).eq_of_empty

/-- **Referential transparency.**  On a machine that shows no native function that is not pure, let
    an expression have a number or a truth value as its value, and let it stand anywhere in another
    expression.  Then the literal of the value can take its place: the whole has the same outcome,
    a value or a failure with the same cause and the same calls, or no end of nested calls.  Within
    a number of calls that the inner expression gets along with, the two ways are the same too. -/
theorem eval_replaces_value (m : Machine) (e lit : Expr) (v : Value)
    (hpure : ∀ name w, m.store.get? name = some w →
      ∀ f, (Value.native f).AppearsIn w → f.IsPure)
    (hlit : lit.IsLiteralOf v) (hvalue : e.HasOutcome m (.ok v)) (layers : List Expr.Layer) :
    let whole := Expr.around layers e
    let replaced := Expr.around layers lit
    (∀ result, whole.HasOutcome m result ↔ replaced.HasOutcome m result) ∧
      ((∀ depth, (whole.evalWithin depth m).1 = .error .tooDeep) ↔
        ∀ depth, (replaced.evalWithin depth m).1 = .error .tooDeep) ∧
      ∀ depth, (e.evalWithin depth m).1 = .ok v →
        (whole.evalWithin depth m).1 = (replaced.evalWithin depth m).1 := by
  intro whole replaced
  obtain ⟨enough, henough⟩ := hvalue.exists_depth
  have hsame (depth : Nat) (h : (e.evalWithin depth m).1 = .ok v) :
      (whole.evalWithin depth m).1 = (replaced.evalWithin depth m).1 :=
    Expr.evalWithin_around hpure hlit h layers
  have houtcome (result : Except Stop Value) :
      whole.HasOutcome m result ↔ replaced.HasOutcome m result := by
    constructor
    · intro h
      obtain ⟨depth, hdepth⟩ := h.exists_depth
      refine ⟨h.1, max enough depth, ?_⟩
      rw [← hsame _ (henough _ (Nat.le_max_left ..)), hdepth _ (Nat.le_max_right ..)]
    · intro h
      obtain ⟨depth, hdepth⟩ := h.exists_depth
      refine ⟨h.1, max enough depth, ?_⟩
      rw [hsame _ (henough _ (Nat.le_max_left ..)), hdepth _ (Nat.le_max_right ..)]
  refine ⟨houtcome, ?_, hsame⟩
  rw [← Expr.no_outcome_iff, ← Expr.no_outcome_iff]
  exact forall_congr' fun result => not_congr (houtcome result)

/-- A function that reads a name of its callers. -/
def readFlag : UserFunction where
  identity := 8
  name := "isSet"
  params := []
  body := .name ⟨"flag", none⟩

/-- A call that answers a truth value, as the test in an argument of a call that fails. -/
theorem eval_replaces_value_readFlag :
    let m : Machine := ⟨⟨#[⟨[("isSet", .user readFlag), ("flag", .boolean true),
      ("f", .user addRate)], none⟩], [0]⟩, #[], #[], none, .fresh⟩
    let e : Expr := .call none ⟨"isSet", none⟩ []
    let lit : Expr := .boolean none true
    let layers : List Expr.Layer := [.call none ⟨"f", none⟩ [] [],
      .conditionalTest none (.numeral none 2) (.name ⟨"rate", none⟩)]
    (∀ name w, m.store.get? name = some w → ∀ f, (Value.native f).AppearsIn w → f.IsPure) ∧
      lit.IsLiteralOf (.boolean true) ∧ e.HasOutcome m (.ok (.boolean true)) ∧
      ∀ result, (Expr.around layers e).HasOutcome m result ↔
        (Expr.around layers lit).HasOutcome m result := by
  intro m e lit layers
  have hpure : ∀ name w, m.store.get? name = some w →
      ∀ f, (Value.native f).AppearsIn w → f.IsPure := by
    intro name w hw f hf
    have hglobals : m.store.get? name = Bindings.get? [("isSet", .user readFlag),
        ("flag", .boolean true), ("f", .user addRate)] name := by
      rw [Store.get?_eq_findSome?]
      exact List.findSome?_singleton
    obtain ⟨front, back, hentries, -⟩ := List.lookup_eq_some_iff.mp (hglobals.symm.trans hw)
    have hmem : (name, w) ∈ front ++ (name, w) :: back :=
      List.mem_append_right front List.mem_cons_self
    rw [← hentries] at hmem
    simp only [List.mem_cons, Prod.mk.injEq, List.not_mem_nil, or_false] at hmem
    rcases hmem with ⟨-, rfl⟩ | ⟨-, rfl⟩ | ⟨-, rfl⟩ <;> cases hf
  have hvalue : e.HasOutcome m (.ok (.boolean true)) := ⟨nofun, 1, rfl⟩
  exact ⟨hpure, .boolean none true, hvalue,
    (eval_replaces_value m e lit (.boolean true) hpure (.boolean none true) hvalue layers).1⟩

end BellaLang
