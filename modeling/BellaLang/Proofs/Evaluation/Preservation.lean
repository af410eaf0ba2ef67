import BellaLang.Machine.Evaluation

/-!
Evaluating an expression leaves the machine as it was.

A call of a user function puts a frame in front of the chain, and leaving the call takes it away
again, so in between the store is another one.  That nothing of this survives is shown in three
steps:

  1. entering a call and leaving it again gives back the store, the heap of frames included
     (`leaveForGood_entered`);
  2. a step that *keeps* the machine changes nothing but the tally of the calls of native functions,
     and keeping is closed under sequencing and under `during` (`Keeps.bind`, `Keeps.during`);
  3. expressions keep the machine if calls do, by induction on the tree, and calls do, by induction
     on the number of calls that may still be nested (`callWithin_keeps`).

Main statement: `evalWithin_keeps_machine`, for every way in which an evaluation can stop.
-/

namespace BellaLang

open Machine

/-! ## Entering a call and leaving it -/

/-- The store inside a call: a new frame with the parameters of the function, in front of the
    chain. -/
def Store.entered (store : Store) (f : UserFunction) (args : List Value) : Store :=
  ⟨store.frames.push ⟨Bindings.ofPairs (f.params.zip args), some f⟩,
   store.frames.size :: store.chain⟩

/-- The record of a call that has just been entered. -/
def Store.activation (store : Store) (f : UserFunction) : Activation :=
  ⟨store.frames.size, f, store.chain⟩

theorem Store.enter?_eq (store : Store) {f : UserFunction} {args : List Value}
    (h : f.params.length = args.length) :
    store.enter? f args = some (store.activation f, store.entered f args) := by
  rw [enter?, if_pos h]; rfl

@[simp]
theorem Store.leaveForGood_entered (store : Store) (f : UserFunction) (args : List Value) :
    (store.entered f args).leaveForGood (store.activation f) = store := by
  show (⟨(store.frames.push _).pop, store.chain⟩ : Store) = store
  rw [Array.pop_push]

/-- The frame of the call just entered holds the parameters with their arguments. -/
@[simp]
theorem Store.bindingsOf_entered_size (store : Store) (f : UserFunction) (args : List Value) :
    (store.entered f args).bindingsOf store.frames.size = Bindings.ofPairs (f.params.zip args) := by
  rw [bindingsOf, entered, Array.getElem?_push_size]

/-! ## Steps in sequence -/

theorem Action.bind_apply_ok {α β : Type} {a : Action α} {next : α → Action β} {m m' : Machine}
    {x : α} (h : a m = (.ok x, m')) : (a >>= next) m = next x m' := by
  show Action.bind a next m = _
  rw [Action.bind, h]

theorem Action.bind_apply_stop {α β : Type} {a : Action α} {next : α → Action β} {m m' : Machine}
    {stop : Stop} (h : a m = (.error stop, m')) : (a >>= next) m = (.error stop, m') := by
  show Action.bind a next m = _
  rw [Action.bind, h]

/-- A sequence of two steps that ends with a value has had a value in between. -/
theorem Action.exists_of_bind_eq_ok {α β : Type} {a : Action α} {next : α → Action β}
    {m : Machine} {y : β} (h : ((a >>= next) m).1 = .ok y) :
    ∃ x, (a m).1 = .ok x ∧ (next x (a m).2).1 = .ok y := by
  rcases hrun : a m with ⟨result, m'⟩
  cases result with
  | error stop =>
    rw [bind_apply_stop hrun] at h
    cases h
  | ok x =>
    rw [bind_apply_ok hrun] at h
    exact ⟨x, rfl, h⟩

theorem Action.bind_apply_error {α β : Type} {a : Action α} {next : α → Action β} {m : Machine}
    {stop : Stop} (h : (a m).1 = .error stop) : ((a >>= next) m).1 = .error stop := by
  have hrun : a m = (.error stop, (a m).2) := Prod.ext h rfl
  rw [bind_apply_stop hrun]

/-- A sequence that stops has stopped in its first step, or in its second one after a value. -/
theorem Action.of_bind_eq_error {α β : Type} {a : Action α} {next : α → Action β} {m : Machine}
    {stop : Stop} (h : ((a >>= next) m).1 = .error stop) :
    (a m).1 = .error stop ∨ ∃ x m', a m = (.ok x, m') ∧ (next x m').1 = .error stop := by
  rcases hrun : a m with ⟨result, m'⟩
  cases result with
  | ok x =>
    rw [bind_apply_ok hrun] at h
    exact .inr ⟨x, m', rfl, h⟩
  | error reason =>
    have hfirst : (a m).1 = .error reason := by rw [hrun]
    rw [bind_apply_error hfirst] at h
    exact .inl (congrArg Except.error (Except.error.inj h))

/-- A sequence that ends with a value has had a value, and a machine, in between. -/
theorem Action.of_bind_eq_ok {α β : Type} {a : Action α} {next : α → Action β} {m m'' : Machine}
    {y : β} (h : (a >>= next) m = (.ok y, m'')) :
    ∃ x m', a m = (.ok x, m') ∧ next x m' = (.ok y, m'') := by
  obtain ⟨x, hx, -⟩ := exists_of_bind_eq_ok (congrArg Prod.fst h)
  have hrun : a m = (.ok x, (a m).2) := Prod.ext hx rfl
  rw [bind_apply_ok hrun] at h
  exact ⟨x, (a m).2, hrun, h⟩

/-- As many expressions, as many values. -/
theorem Expr.length_of_evalAllWith {call : Calling} : ∀ {es : List Expr} {m : Machine}
    {values : List Value}, (Expr.evalAllWith call es m).1 = .ok values → values.length = es.length
  | [], m, values, h => by
    have hnil : [] = values := Except.ok.inj h
    rw [← hnil]
    rfl
  | e :: rest, m, values, h => by
    unfold Expr.evalAllWith at h
    obtain ⟨v, -, h⟩ := Action.exists_of_bind_eq_ok h
    obtain ⟨tail, htail, h⟩ := Action.exists_of_bind_eq_ok h
    have hcons : v :: tail = values := Except.ok.inj h
    rw [← hcons, List.length_cons, List.length_cons, Expr.length_of_evalAllWith htail]

/-! ## Steps that keep the machine -/

/-- A step keeps the machine if, however it ends, nothing but the tally of the calls of native
    functions has changed. -/
def Action.Keeps {α : Type} (a : Action α) : Prop :=
  ∀ m : Machine, ∃ calls, (a m).2 = { m with host := { m.host with calls } }

namespace Action.Keeps

variable {α β : Type}

theorem store_eq {a : Action α} (ha : Keeps a) (m : Machine) : (a m).2.store = m.store := by
  obtain ⟨calls, h⟩ := ha m
  rw [h]

theorem store_eq_of_run {a : Action α} (ha : Keeps a) {m m' : Machine} {result : Except Stop α}
    (hrun : a m = (result, m')) : m'.store = m.store := by
  have hstore := ha.store_eq m
  rw [hrun] at hstore
  exact hstore

theorem pure (x : α) : Keeps (Pure.pure x : Action α) := fun m => ⟨m.host.calls, rfl⟩

theorem stop (reason : Stop) : Keeps (Action.stop reason : Action α) :=
  fun m => ⟨m.host.calls, rfl⟩

theorem fail (cause : Cause) : Keeps (Action.fail cause : Action α) := stop _

theorem lookup (name : String) : Keeps (Machine.lookup name) := by
  intro m
  unfold Machine.lookup
  cases m.store.lookup name with
  | ok value => exact pure value m
  | error cause => exact fail cause m

theorem ofHost (result : Except HostFault α) : Keeps (Action.ofHost result) := by
  cases result with
  | ok x => exact pure x
  | error fault => exact stop _

theorem callNative (f : Native) (args : List Value) : Keeps (Machine.callNative f args) := by
  intro m
  unfold Machine.callNative
  cases f.numbers args with
  | ok numbers =>
    obtain ⟨calls, h⟩ := ofHost (f.run (m.host.callsOf f.identity) (fitTo f.arity numbers))
      { m with host := m.host.note f.identity }
    exact ⟨calls, h⟩
  | error cause => exact fail cause m

/-- Keeping is closed under sequencing: the second step starts from what the first one kept, or
    does not take place. -/
theorem bind {a : Action α} {next : α → Action β} (ha : Keeps a) (hnext : ∀ x, Keeps (next x)) :
    Keeps (a >>= next) := by
  intro m
  obtain ⟨calls, h⟩ := ha m
  rcases hrun : a m with ⟨result, m'⟩
  rw [hrun] at h
  cases result with
  | error stop =>
    rw [bind_apply_stop hrun]
    exact ⟨calls, h⟩
  | ok x =>
    rw [bind_apply_ok hrun]
    obtain ⟨calls', h'⟩ := hnext x m'
    have hm' : m' = { m with host := { m.host with calls } } := h
    exact ⟨calls', by rw [h', hm']⟩

theorem ite {p : Prop} [Decidable p] {a b : Action α} (ha : Keeps a) (hb : Keeps b) :
    Keeps (if p then a else b) := by
  split
  · exact ha
  · exact hb

theorem shown (nesting : Nat) (v : Value) : Keeps (Machine.shown nesting v) :=
  ite (pure v.text) (stop .tooDeep)

end Action.Keeps

/-- What a call does whose body keeps the machine: the body runs in the entered store, a failure
    takes down the parameters of the call, and the store is the caller's again. -/
theorem during_eq {α : Type} {f : UserFunction} {args : List Value} {body : Action α}
    (hargs : f.params.length = args.length) (hbody : body.Keeps) (m : Machine) :
    during f args body m =
      let inside := body { m with store := m.store.entered f args }
      (match inside.1 with
        | .error (.failure failure) =>
          .error (.failure { failure with
            calls := failure.calls ++ [⟨f, Bindings.ofPairs (f.params.zip args)⟩] })
        | other => other,
       { m with host := inside.2.host }) := by
  unfold during
  rw [m.store.enter?_eq hargs]
  obtain ⟨calls, h⟩ := hbody { m with store := m.store.entered f args }
  rcases hrun : body { m with store := m.store.entered f args } with ⟨result, m'⟩
  rw [hrun] at h
  have hm' : m' = { m with
    store := m.store.entered f args, host := { m.host with calls } } := h
  have hrecord : m'.store.record (m.store.activation f) =
      ⟨f, Bindings.ofPairs (f.params.zip args)⟩ := by
    rw [hm']
    exact congrArg (CallRecord.mk f) (m.store.bindingsOf_entered_size f args)
  have hleft : { m' with store := m'.store.leaveForGood (m.store.activation f) } =
      { m with host := m'.host } := by
    rw [hm']
    simp only [Store.leaveForGood_entered]
  dsimp only
  rw [hrun]
  dsimp only
  rw [hrecord, hleft]
  split
  · rfl
  · rename_i other hne
    cases result with
    | ok x => rfl
    | error stop =>
      cases stop with
      | failure failure => exact absurd rfl (hne failure)
      | _ => rfl

theorem Action.Keeps.during {α : Type} (f : UserFunction) (args : List Value) {body : Action α}
    (hbody : body.Keeps) : (Machine.during f args body).Keeps := by
  intro m
  by_cases hargs : f.params.length = args.length
  · obtain ⟨calls, h⟩ := hbody { m with store := m.store.entered f args }
    rw [during_eq hargs hbody m]
    dsimp only
    exact ⟨calls, by rw [h]⟩
  · have hnone : m.store.enter? f args = none := if_neg hargs
    unfold Machine.during
    rw [hnone]
    exact ⟨m.host.calls, rfl⟩

/-! ## Expressions and calls keep the machine -/

theorem numberFor_keeps (op : String) (v : Value) : (numberFor op v).Keeps := by
  cases v with
  | number x => exact .pure x
  | boolean _ | array _ | native _ | user _ => exact .fail _

theorem compute_keeps (f : Number.ArithmeticOp) (x y : Float) : (compute f x y).Keeps :=
  (Action.Keeps.ofHost _).bind fun _ => .pure _

theorem pick_keeps (base index : Value) : (pick base index).Keeps := by
  unfold pick
  split
  · exact .ite ((Action.Keeps.ofHost _).bind fun position => .ofHost _) (.fail _)
  all_goals exact .fail _

mutual

/-- An expression keeps the machine if the calls in it do, whatever the expression is made of. -/
theorem Expr.evalWith_keeps {call : Calling} (hcall : ∀ f args, (call f args).Keeps) :
    ∀ e : Expr, (e.evalWith call).Keeps
  | .numeral _ x => .pure _
  | .boolean _ b => .pure _
  | .name id => .lookup _
  | .unary _ op operand => by
    unfold evalWith
    refine (evalWith_keeps hcall operand).bind fun v => ?_
    cases UnaryOp.ofSymbol? op with
    | none => exact .fail _
    | some f =>
      cases f with
      | negate => exact (numberFor_keeps op v).bind fun x => .pure _
      | not => exact .pure _
  | .binary _ op left right => by
    unfold evalWith
    cases BinaryOp.ofSymbol? op with
    | none => exact .fail _
    | some f =>
      cases f with
      | shortcut settledBy =>
        exact (evalWith_keeps hcall left).bind fun v => .ite (.pure v) (evalWith_keeps hcall right)
      | arithmetic f =>
        refine ((evalWith_keeps hcall left).bind (numberFor_keeps op)).bind fun x => ?_
        refine ((evalWith_keeps hcall right).bind (numberFor_keeps op)).bind fun y => ?_
        exact compute_keeps f x y
      | relational r =>
        refine ((evalWith_keeps hcall left).bind (numberFor_keeps op)).bind fun x => ?_
        exact ((evalWith_keeps hcall right).bind (numberFor_keeps op)).bind fun y => .pure _
      | equality wanted =>
        exact (evalWith_keeps hcall left).bind fun v =>
          (evalWith_keeps hcall right).bind fun w => .pure _
  | .call _ callee args => by
    unfold evalWith
    refine (Action.Keeps.lookup _).bind fun v => ?_
    cases v with
    | native f => exact (Expr.evalAllWith_keeps hcall args).bind fun values => .callNative f values
    | user f =>
      exact .ite ((Expr.evalAllWith_keeps hcall args).bind fun values => hcall f values) (.fail _)
    | number x => exact .fail _
    | boolean b => exact .fail _
    | array elements => exact .fail _
  | .conditional _ test consequent alternate => by
    unfold evalWith
    refine (evalWith_keeps hcall test).bind fun v => ?_
    exact .ite (evalWith_keeps hcall consequent) (evalWith_keeps hcall alternate)
  | .array _ elements => by
    unfold evalWith
    exact (Expr.evalAllWith_keeps hcall elements).bind fun values => .pure _
  | .subscript _ base index => by
    unfold evalWith
    exact (evalWith_keeps hcall base).bind fun v =>
      (evalWith_keeps hcall index).bind fun i => pick_keeps v i
  | .nothing | .statement _ | .program _ => .stop _

theorem Expr.evalAllWith_keeps {call : Calling} (hcall : ∀ f args, (call f args).Keeps) :
    ∀ es : List Expr, (Expr.evalAllWith call es).Keeps
  | [] => .pure _
  | e :: rest => by
    unfold Expr.evalAllWith
    refine (Expr.evalWith_keeps hcall e).bind fun v => ?_
    exact (Expr.evalAllWith_keeps hcall rest).bind fun values => .pure _

end

/-- Calls keep the machine, however deeply they nest and even when they nest too deeply. -/
theorem callWithin_keeps (depth : Nat) (f : UserFunction) (args : List Value) :
    (callWithin depth f args).Keeps := by
  induction depth generalizing f args with
  | zero => exact .stop _
  | succ depth ih => exact .during f args (f.body.evalWith_keeps ih)

theorem Expr.evalWithin_keeps (depth : Nat) (e : Expr) : (e.evalWithin depth).Keeps :=
  e.evalWith_keeps (callWithin_keeps depth)

/-! ## The machine after an evaluation -/

/-- **Evaluation changes nothing.**  Whether it ends with a value, fails inside any number of calls,
    meets what is no expression or nests its calls too deeply: the newest frame, the chain, the
    bindings of every frame, the output, what the listener got and the statement at work are what
    they were. -/
theorem evalWithin_keeps_machine (depth : Nat) (e : Expr) (m : Machine) :
    let after := (e.evalWithin depth m).2
    after.store.top = m.store.top ∧ after.store.chain = m.store.chain ∧
      (∀ id, after.store.bindingsOf id = m.store.bindingsOf id) ∧ after.store = m.store ∧
      after.output = m.output ∧ after.echoed = m.echoed ∧ after.atWork = m.atWork ∧
      after.host.nextIdentity = m.host.nextIdentity := by
  obtain ⟨calls, h⟩ := e.evalWithin_keeps depth m
  simp only [h, implies_true, and_self]

end BellaLang
