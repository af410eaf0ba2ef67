import BellaLang.Proofs.Evaluation.Agreement

/-!
Where the functions in a value come from.

A function is made when a program declares it, or when the machine starts over; an evaluation makes
none.  So every function in the value of an expression, at any depth of arrays, has been found under
some name, or was answered by a native function that has.

  1. A store *shows* nothing but certain functions if what each name shows is made of them
     (`Store.Shows`).
  2. A step *yields* good answers if on such a store it does, whenever it ends with an answer
     (`Action.Yields`).  This is closed under sequencing and under calls, where parameters show the
     arguments (`Yields.bind`, `Yields.during`).
  3. So expressions yield values made of those functions if calls do, by induction on the tree, and
     calls do, by induction on the number of calls that may still be nested.

Main statement: `evalWithin_yields`.
-/

namespace BellaLang

open Machine

/-! ## Stores made of certain functions -/

/-- No functions but known ones are shown by the names of the store. -/
def Store.Shows (store : Store) (known : Value → Prop) : Prop :=
  ∀ name v, store.get? name = some v → v.MadeOf known

section
variable {known : Value → Prop}

/-- Inside a call whose arguments are made of known functions, nothing else is shown. -/
theorem Store.Shows.entered {store : Store} (h : store.Shows known) (f : UserFunction)
    {args : List Value} (hargs : ∀ v ∈ args, v.MadeOf known) :
    (store.entered f args).Shows known := by
  intro name v hv
  rw [get?_entered, FlatMap.overwrite_apply] at hv
  cases hparam : FlatMap.overwrite (fun _ => none) (f.params.zip args) name with
  | some w =>
    rw [hparam] at hv
    obtain rfl : w = v := Option.some.inj hv
    have hmem : (name, w) ∈ f.params.zip args := FlatMap.mem_of_overwrite_empty hparam
    exact hargs w (List.of_mem_zip hmem).2
  | none =>
    rw [hparam, Option.none_or] at hv
    exact h name v hv

/-! ## Steps that yield good answers -/

/-- A step that on a store with known functions only has a good answer, if it has one. -/
def Action.Yields {α : Type} (known : Value → Prop) (good : α → Prop) (a : Action α) : Prop :=
  ∀ m : Machine, m.store.Shows known → ∀ x, (a m).1 = .ok x → good x

namespace Action.Yields

variable {α β : Type} {good : α → Prop} {goodNext : β → Prop}

theorem pure {x : α} (hx : good x) : Yields known good (Pure.pure x) := by
  intro m _ y hy
  obtain rfl : x = y := Except.ok.inj hy
  exact hx

theorem stop (reason : Stop) : Yields known good (Action.stop reason) := by
  intro m _ x hx
  cases hx

theorem fail (cause : Cause) : Yields known good (Action.fail cause) := stop _

/-- Sequencing: the first step keeps the store, so the second one starts on what the first one
    started on. -/
theorem bind {a : Action α} {next : α → Action β} (hkeeps : a.Keeps) (ha : Yields known good a)
    (hnext : ∀ x, good x → Yields known goodNext (next x)) :
    Yields known goodNext (a >>= next) := by
  intro m hm y hy
  obtain ⟨x, hx, hrest⟩ := exists_of_bind_eq_ok hy
  have hm' : (a m).2.store.Shows known := by
    rw [hkeeps.store_eq m]
    exact hm
  exact hnext x (ha m hm x hx) (a m).2 hm' y hrest

theorem ite {p : Prop} [Decidable p] {a b : Action α} (ha : Yields known good a)
    (hb : Yields known good b) : Yields known good (if p then a else b) := by
  split
  · exact ha
  · exact hb

theorem lookup (name : String) : Yields known (Value.MadeOf known) (Machine.lookup name) := by
  intro m hm v hv
  unfold Machine.lookup Store.lookup at hv
  cases hget : m.store.get? name with
  | some w =>
    rw [hget] at hv
    obtain rfl : w = v := Except.ok.inj hv
    exact hm name w hget
  | none =>
    rw [hget] at hv
    cases hv

/-- What a native function answers is made of functions that it leads to itself. -/
theorem callNative {f : Native} (hf : (Value.native f).MadeOf known) (args : List Value) :
    Yields known (Value.MadeOf known) (Machine.callNative f args) := by
  intro m _ v hv
  unfold Machine.callNative at hv
  cases hnumbers : f.numbers args with
  | error cause =>
    rw [hnumbers] at hv
    cases hv
  | ok numbers =>
    rw [hnumbers] at hv
    dsimp only at hv
    cases hrun : f.run (m.host.callsOf f.identity) (fitTo f.arity numbers) with
    | ok answer =>
      rw [hrun] at hv
      obtain rfl : answer = v := Except.ok.inj hv
      exact hf.answer hrun
    | error fault =>
      rw [hrun] at hv
      cases hv

/-- A call answers what its body answers on the store inside it. -/
theorem during {f : UserFunction} {args : List Value} {body : Action α} (hkeeps : body.Keeps)
    (hargs : ∀ v ∈ args, v.MadeOf known) (hbody : Yields known good body) :
    Yields known good (Machine.during f args body) := by
  intro m hm x hx
  by_cases hcount : f.params.length = args.length
  · rw [during_eq hcount hkeeps] at hx
    have hinside := hbody { m with store := m.store.entered f args } (hm.entered f hargs)
    dsimp only at hx
    generalize (body { m with store := m.store.entered f args }).1 = result at hinside hx
    cases result with
    | ok y => exact hinside x hx
    | error stop => cases stop <;> cases hx
  · have hnone : m.store.enter? f args = none := if_neg hcount
    unfold Machine.during at hx
    rw [hnone] at hx
    cases hx

end Action.Yields

/-! ## Expressions and calls make no functions -/

/-- Any answer will do. -/
theorem Action.Yields.anything {α : Type} (a : Action α) : a.Yields known fun _ => True :=
  fun _ _ _ _ => trivial

/-- A subscript picks an element of an array. -/
theorem pick_yields {base : Value} (hbase : base.MadeOf known) (index : Value) :
    (pick base index).Yields known (Value.MadeOf known) := by
  rcases pick_cases base index with ⟨elements, element, rfl, hmem, hpick⟩ | ⟨cause, -, hpick⟩
  · rw [hpick]
    exact .pure (hbase.of_mem hmem)
  · rw [hpick]
    exact .fail cause

/-- How calls have to behave for an evaluation to make no functions: they keep the machine, and with
    arguments made of known functions they yield such values. -/
structure Calling.Yields (call : Calling) (known : Value → Prop) : Prop where
  keeps : ∀ f args, (call f args).Keeps
  yields : ∀ f args, (∀ v ∈ args, v.MadeOf known) →
    (call f args).Yields known (Value.MadeOf known)

variable {call : Calling}

mutual

/-- The value of an expression is made of known functions if those of calls are. -/
theorem Expr.evalWith_yields (hcall : call.Yields known) :
    ∀ e : Expr, (e.evalWith call).Yields known (Value.MadeOf known)
  | .numeral _ x => .pure (.number x)
  | .boolean _ b => .pure (.boolean b)
  | .name id => .lookup id.spelling
  | .unary _ op operand => by
    have hkeeps := evalWith_keeps hcall.keeps operand
    unfold evalWith
    refine .bind hkeeps (evalWith_yields hcall operand) fun v _ => ?_
    cases UnaryOp.ofSymbol? op with
    | none => exact .fail _
    | some f =>
      cases f with
      | negate => exact .bind (numberFor_keeps op v) (.anything _) fun x _ => .pure (.number _)
      | not => exact .pure (.boolean _)
  | .binary _ op left right => by
    have hleft := evalWith_keeps hcall.keeps left
    have hright := evalWith_keeps hcall.keeps right
    unfold evalWith
    cases BinaryOp.ofSymbol? op with
    | none => exact .fail _
    | some f =>
      cases f with
      | shortcut settledBy =>
        refine .bind hleft (evalWith_yields hcall left) fun v hv => ?_
        exact .ite (.pure hv) (evalWith_yields hcall right)
      | arithmetic f =>
        refine .bind (hleft.bind (numberFor_keeps op)) (.anything _) fun x _ => ?_
        refine .bind (hright.bind (numberFor_keeps op)) (.anything _) fun y _ => ?_
        obtain ⟨z, -, hz⟩ := exists_compute f x y
        rw [hz]
        exact .pure (.number z)
      | relational r =>
        refine .bind (hleft.bind (numberFor_keeps op)) (.anything _) fun x _ => ?_
        exact .bind (hright.bind (numberFor_keeps op)) (.anything _) fun y _ => .pure (.boolean _)
      | equality wanted =>
        refine .bind hleft (.anything _) fun v _ => ?_
        exact .bind hright (.anything _) fun w _ => .pure (.boolean _)
  | .call _ callee args => by
    have hargs := Expr.evalAllWith_yields hcall args
    have hkeeps := Expr.evalAllWith_keeps hcall.keeps args
    unfold evalWith
    refine .bind (Action.Keeps.lookup _) (.lookup _) fun v hv => ?_
    cases v with
    | native f => exact .bind hkeeps hargs fun values _ => .callNative hv values
    | user f =>
      refine .ite ?_ (.fail _)
      exact .bind hkeeps hargs fun values hvalues => hcall.yields f values hvalues
    | number x => exact .fail _
    | boolean b => exact .fail _
    | array elements => exact .fail _
  | .conditional _ test consequent alternate => by
    have hkeeps := evalWith_keeps hcall.keeps test
    unfold evalWith
    refine .bind hkeeps (.anything _) fun v _ => ?_
    exact .ite (evalWith_yields hcall consequent) (evalWith_yields hcall alternate)
  | .array _ elements => by
    have hkeeps := Expr.evalAllWith_keeps hcall.keeps elements
    unfold evalWith
    exact .bind hkeeps (Expr.evalAllWith_yields hcall elements) fun values hvalues =>
      .pure (.array hvalues)
  | .subscript _ base index => by
    have hkeeps := evalWith_keeps hcall.keeps base
    unfold evalWith
    refine .bind hkeeps (evalWith_yields hcall base) fun v hv => ?_
    exact .bind (evalWith_keeps hcall.keeps index) (.anything _) fun i _ => pick_yields hv i
  | .nothing | .statement _ | .program _ => .stop _

theorem Expr.evalAllWith_yields (hcall : call.Yields known) :
    ∀ es : List Expr,
      (Expr.evalAllWith call es).Yields known fun values => ∀ v ∈ values, v.MadeOf known
  | [] => by
    refine .pure fun v hv => ?_
    cases hv
  | e :: rest => by
    have hkeeps := Expr.evalWith_keeps hcall.keeps e
    unfold Expr.evalAllWith
    refine .bind hkeeps (Expr.evalWith_yields hcall e) fun v hv => ?_
    refine .bind (Expr.evalAllWith_keeps hcall.keeps rest) (Expr.evalAllWith_yields hcall rest)
      fun values hvalues => .pure fun w hw => ?_
    rcases List.mem_cons.mp hw with rfl | hw
    · exact hv
    · exact hvalues w hw

end

/-- Calls make no functions, however deeply they nest. -/
theorem callWithin_yields (depth : Nat) : (callWithin depth).Yields known := by
  induction depth with
  | zero => exact ⟨callWithin_keeps 0, fun _ _ _ => .stop _⟩
  | succ depth ih =>
    refine ⟨callWithin_keeps (depth + 1), fun f args hargs => ?_⟩
    exact .during (f.body.evalWith_keeps ih.keeps) hargs (f.body.evalWith_yields ih)

/-- **An evaluation makes no functions.**  Every function in its value is one of those that the
    store shows. -/
theorem Expr.evalWithin_yields (depth : Nat) (e : Expr) :
    (e.evalWithin depth).Yields known (Value.MadeOf known) :=
  e.evalWith_yields (callWithin_yields depth)

end

end BellaLang
