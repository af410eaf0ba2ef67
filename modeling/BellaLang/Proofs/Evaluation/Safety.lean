import BellaLang.Proofs.Evaluation.Agreement

/-!
Evaluating a proper expression stops in a way of the language's own.

An evaluation can come to a halt for reasons that no program should ever see: something is to be
evaluated that is no expression, an operator is unknown, a frame is to be made for a wrong number of
arguments, or an operation of the host ends with an error that nothing catches.  None of them is
within reach if the expression is *proper*, and so is every function that can be called on the way.

  1. An expression is proper if nothing in it is out of place and all its operators are known
     (`Expr.isProper`); a value is, if all functions that can be got out of it have proper bodies
     or, being native, answer whatever they are given (`Value.IsProper`); a store is, if everything
     held by the frames in force is (`Store.HoldsProper`).

  2. A step is *safe* if on a proper store it ends with a good value or stops in an own way
     (`Action.Safe`).  This is closed under sequencing and under calls, where the number of
     arguments has been checked before.

  3. Proper expressions are safe if calls of proper functions are, by induction on the tree; and
     calls are, by induction on the number of calls that may still be nested (`callWithin_safe`).

Main statement: `Expr.evalWithin_safe`.
-/

namespace BellaLang

open Machine

/-! ## Proper expressions, values and stores -/

mutual

/-- Nothing in the expression is out of place, and all its operators are known. -/
def Expr.isProper : Expr → Bool
  | .numeral _ _ | .boolean _ _ | .name _ => true
  | .unary _ op operand => (UnaryOp.ofSymbol? op).isSome && operand.isProper
  | .binary _ op left right =>
    (BinaryOp.ofSymbol? op).isSome && (left.isProper && right.isProper)
  | .call _ _ args => Expr.areProper args
  | .conditional _ test consequent alternate =>
    test.isProper && (consequent.isProper && alternate.isProper)
  | .array _ elements => Expr.areProper elements
  | .subscript _ base index => base.isProper && index.isProper
  | .nothing | .statement _ | .program _ => false

/-- All these expressions are proper. -/
def Expr.areProper : List Expr → Bool
  | [] => true
  | e :: rest => e.isProper && Expr.areProper rest

end

/-- What is asked of a function: a proper body, or an answer in place of an error of the host. -/
def Value.Behaves : Value → Prop
  | .user f => f.body.isProper = true
  | .native f => ∀ callsBefore numbers, ∃ answer, f.run callsBefore numbers = .ok answer
  | .number _ | .boolean _ | .array _ => True

/-- Every function that can be got out of the value behaves. -/
abbrev Value.IsProper (v : Value) : Prop := v.MadeOf Value.Behaves

/-- All values that the bindings hold are proper. -/
def Bindings.HoldProper (bindings : Bindings) : Prop :=
  ∀ name v, bindings.get? name = some v → v.IsProper

/-- All values that the frames in force hold are proper, whether they can be seen or are hidden. -/
def Store.HoldsProper (store : Store) : Prop :=
  ∀ id ∈ store.chain, (store.bindingsOf id).HoldProper

/-- What a name shows is proper. -/
theorem Store.HoldsProper.get? {store : Store} (h : store.HoldsProper) {name : String} {v : Value}
    (hv : store.get? name = some v) : v.IsProper := Store.Hold.get? h hv

/-- Inside a call with proper arguments everything is proper. -/
theorem Store.HoldsProper.entered {store : Store} (h : store.HoldsProper) (f : UserFunction)
    {args : List Value} (hargs : ∀ v ∈ args, v.IsProper) : (store.entered f args).HoldsProper := by
  intro id hid name v hv
  by_cases hnew : id = store.frames.size
  · rw [hnew, bindingsOf_entered_size, Bindings.ofPairs_get?] at hv
    have hmem : (name, v) ∈ f.params.zip args := FlatMap.mem_of_overwrite_empty hv
    exact hargs v (List.of_mem_zip hmem).2
  · rw [store.bindingsOf_entered_of_ne f args hnew] at hv
    have hold : id ∈ store.chain := (List.mem_cons.mp hid).resolve_left hnew
    exact h id hold name v hv

/-- What a native function blames is the kind of an argument. -/
theorem Native.exists_of_numbers_error (f : Native) {args : List Value} {cause : Cause}
    (h : f.numbers args = .error cause) : ∃ kind, cause = .parameterType f.name kind := by
  induction args with
  | nil => cases h
  | cons v rest ih =>
    cases v with
    | number x =>
      unfold numbers at h
      cases hrest : f.numbers rest with
      | error other =>
        rw [hrest] at h
        obtain rfl : other = cause := Except.error.inj h
        exact ih hrest
      | ok numbers =>
        rw [hrest] at h
        cases h
    | boolean _ | array _ | native _ | user _ => exact ⟨_, (Except.error.inj h).symm⟩

/-! ## Own ways to stop -/

/-- The ways to stop that belong to the language: a failure that is not about an unknown operator,
    too many nested calls or arrays, and a loop without an end.  No error of the host is among
    them. -/
def Stop.IsOwn : Stop → Prop
  | .failure f => f.cause.kind ≠ .invalidOperator
  | .tooDeep | .endless => True
  | .misfit | .mismatch | .host _ => False

/-- A result that is good, or a stop in an own way. -/
def EndsWell {α : Type} (good : α → Prop) : Except Stop α → Prop
  | .ok x => good x
  | .error stop => stop.IsOwn

/-- A step that ends well on every machine with a proper store. -/
def Action.Safe {α : Type} (good : α → Prop) (a : Action α) : Prop :=
  ∀ m : Machine, m.store.HoldsProper → EndsWell good (a m).1

namespace Action.Safe

variable {α β : Type} {good : α → Prop} {goodNext : β → Prop}

theorem pure {x : α} (hx : good x) : Safe good (Pure.pure x) := fun _ _ => hx

theorem fail {cause : Cause} (h : cause.kind ≠ .invalidOperator) :
    Safe good (Action.fail cause) := fun _ _ => h

/-- Sequencing: the first step keeps the store, so the second one starts on a proper store too. -/
theorem bind {a : Action α} {next : α → Action β} (hkeeps : a.Keeps) (ha : Safe good a)
    (hnext : ∀ x, good x → Safe goodNext (next x)) : Safe goodNext (a >>= next) := by
  intro m hm
  have hends := ha m hm
  rcases hrun : a m with ⟨result, m'⟩
  rw [hrun] at hends
  cases result with
  | ok x =>
    rw [bind_apply_ok hrun]
    have hm' : m'.store.HoldsProper := by
      rw [hkeeps.store_eq_of_run hrun]
      exact hm
    exact hnext x hends m' hm'
  | error stop =>
    rw [bind_apply_stop hrun]
    exact hends

theorem ite {p : Prop} [Decidable p] {a b : Action α} (ha : Safe good a) (hb : Safe good b) :
    Safe good (if p then a else b) := by
  split
  · exact ha
  · exact hb

theorem lookup (name : String) : Safe Value.IsProper (Machine.lookup name) := by
  intro m hm
  unfold Machine.lookup Store.lookup
  cases hget : m.store.get? name with
  | some v => exact hm.get? hget
  | none => exact nofun

/-- A native function that behaves blames an argument, or answers. -/
theorem callNative {f : Native} (hf : (Value.native f).IsProper) (args : List Value) :
    Safe Value.IsProper (Machine.callNative f args) := by
  have hbehaves : (Value.native f).Behaves := hf _ rfl .self
  intro m _
  unfold Machine.callNative
  cases hnumbers : f.numbers args with
  | error cause =>
    obtain ⟨kind, rfl⟩ := f.exists_of_numbers_error hnumbers
    exact nofun
  | ok numbers =>
    obtain ⟨answer, hrun⟩ := hbehaves (m.host.callsOf f.identity) (fitTo f.arity numbers)
    dsimp only
    rw [hrun]
    exact hf.answer hrun

/-- A call with as many arguments as parameters ends as its body does on the store inside it. -/
theorem during {f : UserFunction} {args : List Value} {body : Action α} (hkeeps : body.Keeps)
    (hcount : f.params.length = args.length) (hargs : ∀ v ∈ args, v.IsProper)
    (hbody : Safe good body) : Safe good (Machine.during f args body) := by
  intro m hm
  rw [during_eq hcount hkeeps]
  have hends := hbody { m with store := m.store.entered f args } (hm.entered f hargs)
  dsimp only
  generalize (body { m with store := m.store.entered f args }).1 = result at hends ⊢
  cases result with
  | ok x => exact hends
  | error stop => cases stop <;> exact hends

end Action.Safe

/-! ## Expressions and calls are safe -/

theorem numberFor_safe (op : String) (v : Value) : (numberFor op v).Safe fun _ => True := by
  cases v with
  | number x => exact .pure trivial
  | boolean _ | array _ | native _ | user _ => exact .fail nofun

/-- A subscript picks an element of a proper array, or fails. -/
theorem pick_safe {base : Value} (hbase : base.IsProper) (index : Value) :
    (pick base index).Safe Value.IsProper := by
  rcases pick_cases base index with ⟨elements, element, rfl, hmem, hpick⟩ | ⟨cause, hcause, hpick⟩
  · rw [hpick]
    exact .pure (hbase.of_mem hmem)
  · rw [hpick]
    exact .fail hcause

/-- How calls have to behave for an evaluation to be safe: they keep the machine, and calling a
    function with a proper body and with as many proper arguments as it has parameters is safe. -/
structure Calling.Safe (call : Calling) : Prop where
  keeps : ∀ f args, (call f args).Keeps
  safe : ∀ f args, f.body.isProper = true → f.params.length = args.length →
    (∀ v ∈ args, v.IsProper) → (call f args).Safe Value.IsProper

section

variable {call : Calling}

mutual

/-- A proper expression is safe if the calls in it are. -/
theorem Expr.evalWith_safe (hcall : call.Safe) :
    ∀ e : Expr, e.isProper = true → (e.evalWith call).Safe Value.IsProper
  | .numeral _ x, _ => .pure (.number x)
  | .boolean _ b, _ => .pure (.boolean b)
  | .name id, _ => .lookup id.spelling
  | .unary _ op operand, hproper => by
    obtain ⟨hop, hoperand⟩ := Bool.and_eq_true_iff.mp hproper
    unfold evalWith
    refine .bind (evalWith_keeps hcall.keeps operand) (evalWith_safe hcall operand hoperand) ?_
    intro v _
    cases hsymbol : UnaryOp.ofSymbol? op with
    | none =>
      rw [hsymbol] at hop
      cases hop
    | some f =>
      cases f with
      | negate =>
        exact .bind (numberFor_keeps op v) (numberFor_safe op v) fun x _ => .pure (.number _)
      | not => exact .pure (.boolean _)
  | .binary _ op left right, hproper => by
    obtain ⟨hop, hoperands⟩ := Bool.and_eq_true_iff.mp hproper
    obtain ⟨hleft, hright⟩ := Bool.and_eq_true_iff.mp hoperands
    have hleft := evalWith_safe hcall left hleft
    have hright := evalWith_safe hcall right hright
    have hleftKeeps := evalWith_keeps hcall.keeps left
    have hrightKeeps := evalWith_keeps hcall.keeps right
    have hx : (left.evalWith call >>= numberFor op).Safe fun _ => True :=
      .bind hleftKeeps hleft fun v _ => numberFor_safe op v
    have hy : (right.evalWith call >>= numberFor op).Safe fun _ => True :=
      .bind hrightKeeps hright fun v _ => numberFor_safe op v
    unfold evalWith
    cases hsymbol : BinaryOp.ofSymbol? op with
    | none =>
      rw [hsymbol] at hop
      cases hop
    | some f =>
      cases f with
      | shortcut settledBy => exact .bind hleftKeeps hleft fun v hv => .ite (.pure hv) hright
      | arithmetic f =>
        refine .bind (hleftKeeps.bind (numberFor_keeps op)) hx fun x _ => ?_
        refine .bind (hrightKeeps.bind (numberFor_keeps op)) hy fun y _ => ?_
        obtain ⟨z, -, hz⟩ := exists_compute f x y
        rw [hz]
        exact .pure (.number z)
      | relational r =>
        refine .bind (hleftKeeps.bind (numberFor_keeps op)) hx fun x _ => ?_
        exact .bind (hrightKeeps.bind (numberFor_keeps op)) hy fun y _ => .pure (.boolean _)
      | equality wanted =>
        exact .bind hleftKeeps hleft fun v _ => .bind hrightKeeps hright fun w _ =>
          .pure (.boolean _)
  | .call _ callee args, hproper => by
    have hargs := Expr.evalAllWith_safe hcall args hproper
    have hargsKeep := Expr.evalAllWith_keeps hcall.keeps args
    unfold evalWith
    refine .bind (Action.Keeps.lookup _) (.lookup _) fun v hv => ?_
    cases v with
    | native f => exact .bind hargsKeep hargs fun values _ => .callNative hv values
    | user f =>
      by_cases hcount : args.length = f.params.length
      · dsimp only
        rw [if_pos hcount]
        refine .bind hargsKeep hargs fun values ⟨hvalues, hlength⟩ => ?_
        exact hcall.safe f values (hv _ rfl .self) (by omega) hvalues
      · dsimp only
        rw [if_neg hcount]
        exact .fail nofun
    | number x => exact .fail nofun
    | boolean b => exact .fail nofun
    | array elements => exact .fail nofun
  | .conditional _ test consequent alternate, hproper => by
    obtain ⟨htest, hbranches⟩ := Bool.and_eq_true_iff.mp hproper
    obtain ⟨hconsequent, halternate⟩ := Bool.and_eq_true_iff.mp hbranches
    unfold evalWith
    refine .bind (evalWith_keeps hcall.keeps test) (evalWith_safe hcall test htest) fun v _ => ?_
    exact .ite (evalWith_safe hcall consequent hconsequent)
      (evalWith_safe hcall alternate halternate)
  | .array _ elements, hproper => by
    unfold evalWith
    exact .bind (Expr.evalAllWith_keeps hcall.keeps elements)
      (Expr.evalAllWith_safe hcall elements hproper) fun values hvalues => .pure (.array hvalues.1)
  | .subscript _ base index, hproper => by
    obtain ⟨hbase, hindex⟩ := Bool.and_eq_true_iff.mp hproper
    unfold evalWith
    refine .bind (evalWith_keeps hcall.keeps base) (evalWith_safe hcall base hbase) fun v hv => ?_
    exact .bind (evalWith_keeps hcall.keeps index) (evalWith_safe hcall index hindex) fun i _ =>
      pick_safe hv i
  | .nothing, hproper | .statement _, hproper | .program _, hproper => nomatch hproper

/-- Proper expressions in a row are safe, and have as many values. -/
theorem Expr.evalAllWith_safe (hcall : call.Safe) :
    ∀ es : List Expr, Expr.areProper es = true →
      (Expr.evalAllWith call es).Safe fun values =>
        (∀ v ∈ values, v.IsProper) ∧ values.length = es.length
  | [], _ => .pure ⟨nofun, rfl⟩
  | e :: rest, hproper => by
    obtain ⟨he, hrest⟩ := Bool.and_eq_true_iff.mp hproper
    unfold Expr.evalAllWith
    refine .bind (Expr.evalWith_keeps hcall.keeps e) (Expr.evalWith_safe hcall e he) fun v hv => ?_
    refine .bind (Expr.evalAllWith_keeps hcall.keeps rest) (Expr.evalAllWith_safe hcall rest hrest)
      fun values hvalues => ?_
    refine .pure ⟨fun w hw => ?_, congrArg Nat.succ hvalues.2⟩
    exact (List.mem_cons.mp hw).elim (fun h => h ▸ hv) (hvalues.1 w)

end

/-- Calls of proper functions are safe, however deeply they nest. -/
theorem callWithin_safe (depth : Nat) : (callWithin depth).Safe := by
  induction depth with
  | zero => exact ⟨callWithin_keeps 0, fun _ _ _ _ _ _ _ => trivial⟩
  | succ depth ih =>
    refine ⟨callWithin_keeps (depth + 1), fun f args hbody hcount hargs => ?_⟩
    exact .during (f.body.evalWith_keeps ih.keeps) hcount hargs (f.body.evalWith_safe ih hbody)

/-- **A proper expression stops in own ways only**: on a proper store it has a proper value, or it
    fails without an unknown operator, or too many calls are nested. -/
theorem Expr.evalWithin_safe (depth : Nat) {e : Expr} (h : e.isProper = true) :
    (e.evalWithin depth).Safe Value.IsProper := e.evalWith_safe (callWithin_safe depth) h

end

end BellaLang
