import BellaLang.Proofs.Evaluation.FlatStore
import Mathlib.Logic.Relation

/-!
The calls of a failure are those that were in progress when it was raised.

A failure collects its calls on the way out, one after the other, as the calls are left.  This file
goes the other way: it follows an evaluation down to the place where it fails, and keeps a list of
the calls that have been entered and not left.

  1. A *point* is an expression under evaluation, with the machine, and with the calls in progress.
     From a point the evaluation comes to the *next* ones: to an operand, once the operands before
     it have their values, or to the body of a function, once its arguments have (`Point.Next`).
  2. What fails at a point fails at every point it was reached from, for the same cause, and each
     entered call in between adds itself to the list (`Next.passes`, `failure_of_reaches`).
  3. Conversely a failure comes from a next point, or else it was raised at this one, and then it
     has no calls (`Point.raises_or_next`).  Going on from point to point comes to an end, because
     bodies have fewer calls to go and operands are smaller (`Next.decreases`).
  4. On the way nothing happens to the frames: the calls in progress are the front of the chain,
     each frame holds the parameters that it was made with, and all of them are different frames
     (`Point.Sound`).

Main statement: `failure_traces_calls`.
-/

namespace BellaLang

open Machine
open Relation (ReflTransGen)

/-! ## Operands -/

/-- Once its first operand has this value, does an operator look at the second one? -/
def BinaryOp.goesOn : BinaryOp → Value → Bool
  | .shortcut settledBy, v => v.truthy != settledBy
  | .arithmetic _, v | .relational _, v => v.number?.isSome
  | .equality _, _ => true

/-- Does calling this value with so many arguments come to evaluating them? -/
def Value.accepts : Value → Nat → Bool
  | .native _, _ => true
  | .user f, count => count == f.params.length
  | .number _, _ | .boolean _, _ | .array _, _ => false

/-- On a machine, evaluating an expression comes to evaluating one of its operands on another
    machine: those before it have been evaluated, and this one is wanted. -/
inductive Expr.Asks (depth : Nat) (m : Machine) : Expr → Expr → Machine → Prop
  | operand {site : Site} {op : String} {operand : Expr} :
    Asks depth m (.unary site op operand) operand m
  | left {site : Site} {op : String} {left right : Expr} {f : BinaryOp}
    (hop : BinaryOp.ofSymbol? op = some f) :
    Asks depth m (.binary site op left right) left m
  | right {site : Site} {op : String} {left right : Expr} {f : BinaryOp} {v : Value} {m' : Machine}
    (hop : BinaryOp.ofSymbol? op = some f) (hleft : left.evalWithin depth m = (.ok v, m'))
    (hgo : f.goesOn v = true) :
    Asks depth m (.binary site op left right) right m'
  | argument {site : Site} {callee : Name} {done rest : List Expr} {e : Expr} {f : Value}
    {values : List Value} {m' : Machine} (hcallee : m.store.lookup callee.spelling = .ok f)
    (haccepts : f.accepts (done ++ e :: rest).length = true)
    (hdone : Expr.evalAllWith (callWithin depth) done m = (.ok values, m')) :
    Asks depth m (.call site callee (done ++ e :: rest)) e m'
  | test {site : Site} {test consequent alternate : Expr} :
    Asks depth m (.conditional site test consequent alternate) test m
  | branch {site : Site} {test consequent alternate : Expr} {v : Value} {m' : Machine}
    (htest : test.evalWithin depth m = (.ok v, m')) :
    Asks depth m (.conditional site test consequent alternate)
      (if v.truthy then consequent else alternate) m'
  | element {site : Site} {done rest : List Expr} {e : Expr} {values : List Value} {m' : Machine}
    (hdone : Expr.evalAllWith (callWithin depth) done m = (.ok values, m')) :
    Asks depth m (.array site (done ++ e :: rest)) e m'
  | base {site : Site} {base index : Expr} :
    Asks depth m (.subscript site base index) base m
  | index {site : Site} {base index : Expr} {v : Value} {m' : Machine}
    (hbase : base.evalWithin depth m = (.ok v, m')) :
    Asks depth m (.subscript site base index) index m'

/-! ## Points of an evaluation -/

/-- A call in progress: its frame, the function, and the values of its arguments. -/
structure LiveCall where
  frame : FrameId
  function : UserFunction
  args : List Value

/-- Where an evaluation is: so many calls may still be nested, this expression is to be evaluated on
    this machine, and these calls have been entered and not left, the innermost first. -/
structure Point where
  depth : Nat
  expr : Expr
  machine : Machine
  live : List LiveCall

/-- The point at which an evaluation starts. -/
def Point.start (depth : Nat) (e : Expr) (m : Machine) : Point := ⟨depth, e, m, []⟩

/-- How the evaluation of the expression at a point ends. -/
def Point.outcome (p : Point) : Except Stop Value := (p.expr.evalWithin p.depth p.machine).1

/-- From a point the evaluation comes to another one: to an operand, or into the body of a function
    whose arguments have their values, where one more call is in progress. -/
inductive Point.Next : Point → Point → Prop
  | operand {depth : Nat} {e e' : Expr} {m m' : Machine} {live : List LiveCall}
    (h : e.Asks depth m e' m') : Next ⟨depth, e, m, live⟩ ⟨depth, e', m', live⟩
  | body {depth : Nat} {site : Site} {callee : Name} {args : List Expr} {m m' : Machine}
    {live : List LiveCall} {f : UserFunction} {values : List Value} {call : Activation}
    {store : Store} (hcallee : m.store.lookup callee.spelling = .ok (.user f))
    (hcount : args.length = f.params.length)
    (hargs : Expr.evalAllWith (callWithin (depth + 1)) args m = (.ok values, m'))
    (henter : m'.store.enter? f values = some (call, store)) :
    Next ⟨depth + 1, .call site callee args, m, live⟩
      ⟨depth, f.body, { m' with store }, ⟨call.frame, f, values⟩ :: live⟩

/-- The evaluation that starts at one point comes to the other one. -/
abbrev Point.Reaches : Point → Point → Prop := ReflTransGen Point.Next

/-- A failure is raised at a point itself: the expression fails there, no call is blamed, and all
    that it had to evaluate for it has a value. -/
structure Point.Raises (p : Point) (cause : Cause) : Prop where
  fails : p.outcome = .error (.failure ⟨cause, []⟩)
  next_ok : ∀ q, p.Next q → ∃ v, q.outcome = .ok v

/-- The calls in progress at a point, as a failure takes them down. -/
def Point.records (p : Point) : List CallRecord :=
  p.live.map fun call => ⟨call.function, p.machine.store.bindingsOf call.frame⟩

/-! ## Sequences that stop -/

section
variable {call : Calling} {stop : Stop}

/-- Several expressions stop where the first one of them does that has no value. -/
theorem Expr.evalAllWith_append_error {e : Expr} {rest : List Expr} :
    ∀ {done : List Expr} {values : List Value} {m m' : Machine},
      Expr.evalAllWith call done m = (.ok values, m') → (e.evalWith call m').1 = .error stop →
      (Expr.evalAllWith call (done ++ e :: rest) m).1 = .error stop
  | [], values, m, m', hdone, he => by
    have hm : m = m' := congrArg Prod.snd hdone
    rw [← hm] at he
    unfold Expr.evalAllWith
    exact Action.bind_apply_error he
  | first :: done, values, m, m', hdone, he => by
    unfold Expr.evalAllWith at hdone
    obtain ⟨v, m₁, hfirst, hdone⟩ := Action.of_bind_eq_ok hdone
    obtain ⟨tail, m₂, htail, hdone⟩ := Action.of_bind_eq_ok hdone
    have hm : m₂ = m' := congrArg Prod.snd hdone
    rw [hm] at htail
    show (Expr.evalAllWith call (first :: (done ++ e :: rest)) m).1 = _
    unfold Expr.evalAllWith
    rw [Action.bind_apply_ok hfirst]
    exact Action.bind_apply_error (Expr.evalAllWith_append_error htail he)

/-- If several expressions stop, then one of them does, after values for those before it. -/
theorem Expr.exists_of_evalAllWith_error :
    ∀ {es : List Expr} {m : Machine}, (Expr.evalAllWith call es m).1 = .error stop →
      ∃ done e rest values m', es = done ++ e :: rest ∧
        Expr.evalAllWith call done m = (.ok values, m') ∧ (e.evalWith call m').1 = .error stop
  | [], m, h => nomatch h
  | first :: others, m, h => by
    unfold Expr.evalAllWith at h
    rcases Action.of_bind_eq_error h with hfirst | ⟨v, m₁, hfirst, h⟩
    · exact ⟨[], first, others, [], m, rfl, rfl, hfirst⟩
    · rcases Action.of_bind_eq_error h with htail | ⟨tail, m₂, -, h⟩
      · obtain ⟨done, e, rest, values, m', heq, hdone, he⟩ :=
          Expr.exists_of_evalAllWith_error htail
        refine ⟨first :: done, e, rest, v :: values, m', by rw [heq]; rfl, ?_, he⟩
        unfold Expr.evalAllWith
        rw [Action.bind_apply_ok hfirst, Action.bind_apply_ok hdone]
        rfl
      · cases h

end

/-! ## A stop is passed on -/

theorem Machine.lookup_apply_ok {m : Machine} {name : String} {v : Value}
    (h : m.store.lookup name = .ok v) : Machine.lookup name m = (.ok v, m) := by
  unfold Machine.lookup
  rw [h]
  rfl

/-- An operand with a number for its value is handed on as that number. -/
theorem numberFor_apply_ok {a : Action Value} {v : Value} {x : Float} {m m' : Machine} {op : String}
    (hx : v.number? = some x) (h : a m = (.ok v, m')) :
    (a >>= numberFor op) m = (.ok x, m') := by
  rw [Action.bind_apply_ok h]
  cases v with
  | number y =>
    have hy : y = x := Option.some.inj hx
    rw [hy]
    rfl
  | boolean b => cases hx
  | array elements => cases hx
  | native f => cases hx
  | user f => cases hx

/-- What stops the arguments of a call stops the call, which is not entered then. -/
theorem Expr.evalWithin_call_of_args {depth : Nat} {site : Site} {callee : Name} {args : List Expr}
    {m : Machine} {f : Value} {stop : Stop} (hcallee : m.store.lookup callee.spelling = .ok f)
    (haccepts : f.accepts args.length = true)
    (hargs : (Expr.evalAllWith (callWithin depth) args m).1 = .error stop) :
    ((Expr.call site callee args).evalWithin depth m).1 = .error stop := by
  unfold evalWithin evalWith
  rw [Action.bind_apply_ok (Machine.lookup_apply_ok hcallee)]
  cases f with
  | native f => exact Action.bind_apply_error hargs
  | user f =>
    have hcount := beq_iff_eq.mp haccepts
    dsimp only
    rw [if_pos hcount]
    exact Action.bind_apply_error hargs
  | number x => cases haccepts
  | boolean b => cases haccepts
  | array elements => cases haccepts

/-- A call fails by itself if its name shows nothing that can be called so. -/
theorem Expr.evalWithin_call_of_refused {callee : Name} {args : List Expr} {m : Machine}
    (depth : Nat) (site : Site)
    (hrefused : ∀ f, m.store.lookup callee.spelling = .ok f → f.accepts args.length = false) :
    ∃ cause, ((Expr.call site callee args).evalWithin depth m).1 =
      .error (.failure ⟨cause, []⟩) := by
  unfold evalWithin evalWith
  cases hcallee : m.store.lookup callee.spelling with
  | error cause =>
    have hlookup : (Machine.lookup callee.spelling m).1 = .error (.failure ⟨cause, []⟩) := by
      unfold Machine.lookup
      rw [hcallee]
      rfl
    exact ⟨cause, Action.bind_apply_error hlookup⟩
  | ok f =>
    rw [Action.bind_apply_ok (Machine.lookup_apply_ok hcallee)]
    have haccepts := hrefused f hcallee
    cases f with
    | native f => cases haccepts
    | user f =>
      have hcount : ¬ args.length = f.params.length := beq_eq_false_iff_ne.mp haccepts
      dsimp only
      rw [if_neg hcount]
      exact ⟨_, rfl⟩
    | number x => exact ⟨_, rfl⟩
    | boolean b => exact ⟨_, rfl⟩
    | array elements => exact ⟨_, rfl⟩

/-- What stops an operand stops the whole expression. -/
theorem Expr.Asks.outcome_error {depth : Nat} {m m' : Machine} {e e' : Expr} {stop : Stop}
    (h : e.Asks depth m e' m') (hstop : (e'.evalWithin depth m').1 = .error stop) :
    (e.evalWithin depth m).1 = .error stop := by
  cases h with
  | operand =>
    unfold evalWithin evalWith
    exact Action.bind_apply_error hstop
  | left hop =>
    rename_i f
    unfold evalWithin evalWith
    rw [hop]
    cases f with
    | shortcut settledBy => exact Action.bind_apply_error hstop
    | arithmetic f => exact Action.bind_apply_error (Action.bind_apply_error hstop)
    | relational r => exact Action.bind_apply_error (Action.bind_apply_error hstop)
    | equality wanted => exact Action.bind_apply_error hstop
  | right hop hleft hgo =>
    rename_i f v
    unfold evalWithin at hleft
    unfold evalWithin evalWith
    rw [hop]
    cases f with
    | shortcut settledBy =>
      have hne : v.truthy ≠ settledBy := by simpa [BinaryOp.goesOn] using hgo
      dsimp only
      rw [Action.bind_apply_ok hleft, if_neg hne]
      exact hstop
    | arithmetic f =>
      obtain ⟨x, hx⟩ := Option.isSome_iff_exists.mp hgo
      dsimp only
      rw [Action.bind_apply_ok (numberFor_apply_ok hx hleft)]
      exact Action.bind_apply_error (Action.bind_apply_error hstop)
    | relational r =>
      obtain ⟨x, hx⟩ := Option.isSome_iff_exists.mp hgo
      dsimp only
      rw [Action.bind_apply_ok (numberFor_apply_ok hx hleft)]
      exact Action.bind_apply_error (Action.bind_apply_error hstop)
    | equality wanted =>
      dsimp only
      rw [Action.bind_apply_ok hleft]
      exact Action.bind_apply_error hstop
  | argument hcallee haccepts hdone =>
    exact evalWithin_call_of_args hcallee haccepts (Expr.evalAllWith_append_error hdone hstop)
  | test =>
    unfold evalWithin evalWith
    exact Action.bind_apply_error hstop
  | branch htest =>
    rename_i v
    unfold evalWithin at htest hstop
    unfold evalWithin evalWith
    rw [Action.bind_apply_ok htest]
    split at hstop
    · rename_i hv
      rw [if_pos hv]
      exact hstop
    · rename_i hv
      rw [if_neg hv]
      exact hstop
  | element hdone =>
    unfold evalWithin evalWith
    exact Action.bind_apply_error (Expr.evalAllWith_append_error hdone hstop)
  | base =>
    unfold evalWithin evalWith
    exact Action.bind_apply_error hstop
  | index hbase =>
    unfold evalWithin at hbase
    unfold evalWithin evalWith
    rw [Action.bind_apply_ok hbase]
    exact Action.bind_apply_error hstop

/-- What an outcome becomes on the way out of a call: a failure takes down the call. -/
def CallRecord.leave {α : Type} (record : CallRecord) : Except Stop α → Except Stop α
  | .error (.failure failure) => .error (.failure ⟨failure.cause, failure.calls ++ [record]⟩)
  | other => other

theorem during_fst {α : Type} {f : UserFunction} {args : List Value} {body : Action α}
    (hargs : f.params.length = args.length) (hbody : body.Keeps) (m : Machine) :
    (during f args body m).1 = CallRecord.leave ⟨f, Bindings.ofPairs (f.params.zip args)⟩
      (body { m with store := m.store.entered f args }).1 := by
  rw [during_eq hargs hbody]
  dsimp only
  cases (body { m with store := m.store.entered f args }).1 with
  | ok x => rfl
  | error stop => cases stop <;> rfl

/-- A call ends as the body of its function does, but a failure takes down the call as well. -/
theorem Expr.evalWithin_call {depth : Nat} {callee : Name} {args : List Expr} {m m' : Machine}
    {f : UserFunction} {values : List Value} (site : Site)
    (hcallee : m.store.lookup callee.spelling = .ok (.user f))
    (hcount : args.length = f.params.length)
    (hargs : Expr.evalAllWith (callWithin (depth + 1)) args m = (.ok values, m')) :
    ((Expr.call site callee args).evalWithin (depth + 1) m).1 =
      CallRecord.leave ⟨f, Bindings.ofPairs (f.params.zip values)⟩
        (f.body.evalWithin depth { m' with store := m'.store.entered f values }).1 := by
  have hvalues : f.params.length = values.length := by
    rw [Expr.length_of_evalAllWith (congrArg Prod.fst hargs), hcount]
  unfold evalWithin
  rw [evalWith, Action.bind_apply_ok (Machine.lookup_apply_ok hcallee)]
  dsimp only
  rw [if_pos hcount, Action.bind_apply_ok hargs]
  exact during_fst hvalues (f.body.evalWithin_keeps depth) m'

/-! ## Where a failure is raised -/

/-- A step whose failures are its own: they come without calls. -/
def Action.FailsItself {α : Type} (a : Action α) : Prop :=
  ∀ m failure, (a m).1 = .error (.failure failure) → failure.calls = []

namespace Action.FailsItself

theorem fail {α : Type} (cause : Cause) : FailsItself (Action.fail cause : Action α) := by
  intro m failure h
  have hfailure : (⟨cause, []⟩ : Failure) = failure := Stop.failure.inj (Except.error.inj h)
  rw [← hfailure]

theorem pure {α : Type} (x : α) : FailsItself (Pure.pure x : Action α) :=
  fun _ _ h => nomatch h

theorem lookup (name : String) : FailsItself (Machine.lookup name) := by
  intro m failure h
  unfold Machine.lookup at h
  cases hname : m.store.lookup name with
  | ok v =>
    rw [hname] at h
    cases h
  | error cause =>
    rw [hname] at h
    exact fail cause m failure h

/-- An error of the host is no failure. -/
theorem ofHost {α : Type} (result : Except HostFault α) : FailsItself (Action.ofHost result) := by
  intro m failure h
  cases result <;> cases h

theorem callNative (f : Native) (args : List Value) : FailsItself (Machine.callNative f args) := by
  intro m failure h
  unfold Machine.callNative at h
  cases hnumbers : f.numbers args with
  | ok numbers =>
    rw [hnumbers] at h
    exact ofHost _ _ failure h
  | error cause =>
    rw [hnumbers] at h
    exact fail cause m failure h

theorem numberFor (op : String) (v : Value) : FailsItself (numberFor op v) := by
  cases v with
  | number x => exact pure x
  | boolean _ | array _ | native _ | user _ => exact fail _

theorem pick (base index : Value) : FailsItself (pick base index) := by
  rcases pick_cases base index with ⟨elements, element, -, -, hpick⟩ | ⟨cause, -, hpick⟩
  · rw [hpick]
    exact pure element
  · rw [hpick]
    exact fail cause

theorem compute (f : Number.ArithmeticOp) (x y : Float) : FailsItself (compute f x y) := by
  obtain ⟨z, -, hz⟩ := exists_compute f x y
  rw [hz]
  exact pure (Value.number z)

end Action.FailsItself

open BellaLang.Action (FailsItself)

/-- Two numbers in a row: if both operands have values, only the demand for numbers can fail, or
    what is done with them. -/
theorem calls_eq_nil_of_numbers {left right : Action Value} {op : String}
    {k : Float → Float → Action Value} {m : Machine} {failure : Failure}
    (hk : ∀ x y, FailsItself (k x y))
    (hleft : ∀ stop, (left m).1 ≠ .error stop)
    (hright : ∀ v m' stop, left m = (.ok v, m') → v.number?.isSome → (right m').1 ≠ .error stop)
    (h : ((do
      let x ← left >>= numberFor op
      let y ← right >>= numberFor op
      k x y : Action Value) m).1 = .error (.failure failure)) : failure.calls = [] := by
  rcases Action.of_bind_eq_error h with h | ⟨x, m', hx, h⟩
  · rcases Action.of_bind_eq_error h with h | ⟨v, m', -, h⟩
    · exact absurd h (hleft _)
    · exact FailsItself.numberFor op v m' failure h
  · obtain ⟨v, m₁, hv, hx⟩ := Action.of_bind_eq_ok hx
    have hnumber : v.number?.isSome ∧ m₁ = m' := by
      cases v with
      | number y => exact ⟨rfl, congrArg Prod.snd hx⟩
      | boolean b => cases hx
      | array elements => cases hx
      | native f => cases hx
      | user f => cases hx
    rw [hnumber.2] at hv
    rcases Action.of_bind_eq_error h with h | ⟨y, m₂, -, h⟩
    · rcases Action.of_bind_eq_error h with h | ⟨w, m₃, -, h⟩
      · exact absurd h (hright v m' _ hv hnumber.1)
      · exact FailsItself.numberFor op w m₃ failure h
    · exact hk x y m₂ failure h

section
variable {depth : Nat} {m : Machine} {failure : Failure}

/-- A binary expression whose operands have values as far as they are wanted. -/
theorem Expr.calls_eq_nil_of_binary {site : Site} {op : String} {left right : Expr}
    (hasks : ∀ {e' m' stop}, (Expr.binary site op left right).Asks depth m e' m' →
      (e'.evalWithin depth m').1 ≠ .error stop)
    (h : ((Expr.binary site op left right).evalWithin depth m).1 = .error (.failure failure)) :
    failure.calls = [] := by
  rw [evalWithin, evalWith] at h
  cases hop : BinaryOp.ofSymbol? op with
  | none =>
    rw [hop] at h
    exact FailsItself.fail _ m failure h
  | some f =>
    rw [hop] at h
    have hleft : ∀ stop, (left.evalWith (callWithin depth) m).1 ≠ .error stop :=
      fun stop => hasks (.left hop)
    have hright : ∀ v m' stop, left.evalWith (callWithin depth) m = (.ok v, m') →
        f.goesOn v = true → (right.evalWith (callWithin depth) m').1 ≠ .error stop :=
      fun v m' stop hv hgo => hasks (.right hop hv hgo)
    cases f with
    | shortcut settledBy =>
      rcases Action.of_bind_eq_error h with h | ⟨v, m', hv, h⟩
      · exact absurd h (hleft _)
      · split at h
        · cases h
        · rename_i hne
          exact absurd h (hright v m' _ hv (by simpa [BinaryOp.goesOn] using hne))
    | arithmetic f =>
      exact calls_eq_nil_of_numbers (FailsItself.compute f) hleft
        (fun v m' stop hv hx => hright v m' stop hv hx) h
    | relational r =>
      exact calls_eq_nil_of_numbers (fun x y => FailsItself.pure (Value.boolean (r.apply x y)))
        hleft (fun v m' stop hv hx => hright v m' stop hv hx) h
    | equality wanted =>
      rcases Action.of_bind_eq_error h with h | ⟨v, m', hv, h⟩
      · exact absurd h (hleft _)
      · rcases Action.of_bind_eq_error h with h | ⟨w, m'', -, h⟩
        · exact absurd h (hright v m' _ hv rfl)
        · cases h

/-- A call whose arguments have values if they are wanted, and whose function does not fail with
    them. -/
theorem Expr.calls_eq_nil_of_call {site : Site} {callee : Name} {args : List Expr}
    (hasks : ∀ {e' m' stop}, (Expr.call site callee args).Asks depth m e' m' →
      (e'.evalWithin depth m').1 ≠ .error stop)
    (hbody : ∀ f values m', m.store.lookup callee.spelling = .ok (.user f) →
      args.length = f.params.length →
      Expr.evalAllWith (callWithin depth) args m = (.ok values, m') →
      (callWithin depth f values m').1 ≠ .error (.failure failure))
    (h : ((Expr.call site callee args).evalWithin depth m).1 = .error (.failure failure)) :
    failure.calls = [] := by
  have hargs : ∀ f, m.store.lookup callee.spelling = .ok f → f.accepts args.length = true →
      ∀ stop, (Expr.evalAllWith (callWithin depth) args m).1 ≠ .error stop := by
    intro f hcallee haccepts stop hstop
    obtain ⟨done, e, rest, values, m', rfl, hdone, he⟩ := Expr.exists_of_evalAllWith_error hstop
    exact absurd he (hasks (.argument hcallee haccepts hdone))
  rw [evalWithin, evalWith] at h
  cases hcallee : m.store.lookup callee.spelling with
  | error cause =>
    have hlookup : (Machine.lookup callee.spelling m).1 = .error (.failure ⟨cause, []⟩) := by
      unfold Machine.lookup
      rw [hcallee]
      rfl
    rw [Action.bind_apply_error hlookup] at h
    exact FailsItself.fail cause m failure h
  | ok f =>
    rw [Action.bind_apply_ok (Machine.lookup_apply_ok hcallee)] at h
    cases f with
    | native f =>
      rcases Action.of_bind_eq_error h with h | ⟨values, m', -, h⟩
      · exact absurd h (hargs _ hcallee rfl _)
      · exact FailsItself.callNative f values m' failure h
    | user f =>
      dsimp only at h
      split at h
      · rename_i hcount
        rcases Action.of_bind_eq_error h with h | ⟨values, m', hvalues, h⟩
        · exact absurd h (hargs _ hcallee (beq_iff_eq.mpr hcount) _)
        · exact absurd h (hbody f values m' hcallee hcount hvalues)
      · exact FailsItself.fail _ m failure h
    | number x => exact FailsItself.fail _ m failure h
    | boolean b => exact FailsItself.fail _ m failure h
    | array elements => exact FailsItself.fail _ m failure h

end

/-- If everything that is evaluated next has a value, a failure comes without calls. -/
theorem Point.calls_eq_nil {p : Point} {failure : Failure}
    (hnext : ∀ q, p.Next q → ∃ v, q.outcome = .ok v)
    (h : p.outcome = .error (.failure failure)) : failure.calls = [] := by
  obtain ⟨depth, e, m, live⟩ := p
  have hasks : ∀ {e' m' stop}, e.Asks depth m e' m' → (e'.evalWithin depth m').1 ≠ .error stop := by
    intro e' m' stop hask hstop
    obtain ⟨v, hv⟩ := hnext _ (.operand hask)
    have hbad : (Except.ok v : Except Stop Value) = .error stop := hv.symm.trans hstop
    cases hbad
  unfold outcome at h
  dsimp only at h
  cases e with
  | numeral site x => cases h
  | boolean site b => cases h
  | name id => exact FailsItself.lookup id.spelling m failure h
  | unary site op operand =>
    rw [Expr.evalWithin, Expr.evalWith] at h
    rcases Action.of_bind_eq_error h with h | ⟨v, m', -, h⟩
    · exact absurd h (hasks .operand)
    · cases hop : UnaryOp.ofSymbol? op with
      | none =>
        rw [hop] at h
        exact FailsItself.fail _ m' failure h
      | some f =>
        rw [hop] at h
        cases f with
        | negate =>
          rcases Action.of_bind_eq_error h with h | ⟨x, m'', -, h⟩
          · exact FailsItself.numberFor op v m' failure h
          · cases h
        | not => cases h
  | binary site op left right => exact Expr.calls_eq_nil_of_binary hasks h
  | call site callee args =>
    refine Expr.calls_eq_nil_of_call hasks ?_ h
    intro f values m' hcallee hcount hvalues hfails
    cases depth with
    | zero => cases hfails
    | succ depth =>
      have hlength : f.params.length = values.length := by
        rw [Expr.length_of_evalAllWith (congrArg Prod.fst hvalues), hcount]
      obtain ⟨v, hv⟩ := hnext _ (.body hcallee hcount hvalues (m'.store.enter?_eq hlength))
      have hcall : (callWithin (depth + 1) f values m').1 = _ :=
        during_fst hlength (f.body.evalWithin_keeps depth) m'
      have hbody : (f.body.evalWithin depth
        { m' with store := m'.store.entered f values }).1 = .ok v := hv
      rw [hcall, hbody] at hfails
      cases hfails
  | conditional site test consequent alternate =>
    rw [Expr.evalWithin, Expr.evalWith] at h
    rcases Action.of_bind_eq_error h with h | ⟨v, m', hv, h⟩
    · exact absurd h (hasks .test)
    · have hbranch : ((if v.truthy then consequent else alternate).evalWithin depth m').1 ≠
        .error (.failure failure) := hasks (.branch hv)
      unfold Expr.evalWithin at hbranch
      split at h
      · rename_i hv
        rw [if_pos hv] at hbranch
        exact absurd h hbranch
      · rename_i hv
        rw [if_neg hv] at hbranch
        exact absurd h hbranch
  | array site elements =>
    rw [Expr.evalWithin, Expr.evalWith] at h
    rcases Action.of_bind_eq_error h with h | ⟨values, m', -, h⟩
    · obtain ⟨done, e, rest, values, m', rfl, hdone, he⟩ := Expr.exists_of_evalAllWith_error h
      exact absurd he (hasks (.element hdone))
    · cases h
  | subscript site base index =>
    rw [Expr.evalWithin, Expr.evalWith] at h
    rcases Action.of_bind_eq_error h with h | ⟨v, m', hv, h⟩
    · exact absurd h (hasks .base)
    · rcases Action.of_bind_eq_error h with h | ⟨i, m'', -, h⟩
      · exact absurd h (hasks (.index hv))
      · exact FailsItself.pick v i m'' failure h
  | nothing => cases h
  | statement misfit => cases h
  | program misfit => cases h

/-! ## From point to point -/

/-- What is needed of entering a call that has been entered. -/
theorem Store.of_enter?_eq_some {store inside : Store} {f : UserFunction} {args : List Value}
    {call : Activation} (h : store.enter? f args = some (call, inside)) :
    f.params.length = args.length ∧ call.frame = store.frames.size ∧
      inside = store.entered f args := by
  by_cases hargs : f.params.length = args.length
  · rw [store.enter?_eq hargs] at h
    have hpair := Option.some.inj h
    exact ⟨hargs, (congrArg (fun pair => pair.1.frame) hpair).symm, (congrArg Prod.snd hpair).symm⟩
  · rw [enter?, if_neg hargs] at h
    cases h

/-- Coming to an operand leaves the store alone. -/
theorem Expr.Asks.store_eq {depth : Nat} {m m' : Machine} {e e' : Expr} (h : e.Asks depth m e' m') :
    m'.store = m.store := by
  have hkeeps (e : Expr) : (e.evalWithin depth).Keeps := e.evalWithin_keeps depth
  have hkeepsAll (es : List Expr) : (Expr.evalAllWith (callWithin depth) es).Keeps :=
    Expr.evalAllWith_keeps (callWithin_keeps depth) es
  cases h with
  | operand => rfl
  | left hop => rfl
  | right hop hleft hgo => exact (hkeeps _).store_eq_of_run hleft
  | argument hcallee haccepts hdone => exact (hkeepsAll _).store_eq_of_run hdone
  | test => rfl
  | branch htest => exact (hkeeps _).store_eq_of_run htest
  | element hdone => exact (hkeepsAll _).store_eq_of_run hdone
  | base => rfl
  | index hbase => exact (hkeeps _).store_eq_of_run hbase

theorem Expr.Asks.sizeOf_lt {depth : Nat} {m m' : Machine} {e e' : Expr}
    (h : e.Asks depth m e' m') : sizeOf e' < sizeOf e := by
  have hrow : ∀ done rest : List Expr, sizeOf e' < sizeOf (done ++ e' :: rest) := fun done rest =>
    List.sizeOf_lt_of_mem (List.mem_append_right done List.mem_cons_self)
  cases h with
  | operand => simp only [unary.sizeOf_spec]; omega
  | left hop => simp only [binary.sizeOf_spec]; omega
  | right hop hleft hgo => simp only [binary.sizeOf_spec]; omega
  | argument hcallee haccepts hdone =>
    rw [call.sizeOf_spec]
    exact Nat.lt_of_lt_of_le (hrow _ _) (Nat.le_add_left _ _)
  | test => simp only [conditional.sizeOf_spec]; omega
  | branch htest => split <;> simp only [conditional.sizeOf_spec] <;> omega
  | element hdone =>
    rw [array.sizeOf_spec]
    exact Nat.lt_of_lt_of_le (hrow _ _) (Nat.le_add_left _ _)
  | base => simp only [subscript.sizeOf_spec]; omega
  | index hbase => simp only [subscript.sizeOf_spec]; omega

/-- A next point has fewer calls to go, or as many and a smaller expression. -/
theorem Point.Next.decreases {p q : Point} (h : p.Next q) :
    Prod.Lex (· < ·) (· < ·) (q.depth, sizeOf q.expr) (p.depth, sizeOf p.expr) := by
  cases h with
  | operand h => exact .right _ h.sizeOf_lt
  | body hcallee hcount hargs henter => exact .left _ _ (Nat.lt_succ_self _)

/-! ## The calls in progress -/

/-- The calls in progress since a store was found: their frames are the front of the chain, the
    newest first, no two are the same and none was there before, and each frame is the one that was
    made for its function and its arguments. -/
structure Point.Sound (origin : Store) (p : Point) : Prop where
  chain_eq : p.machine.store.chain = p.live.map (·.frame) ++ origin.chain
  size_le : origin.frames.size ≤ p.machine.store.frames.size
  newest_first : (p.live.map (·.frame)).Pairwise (· > ·)
  fresh : ∀ call ∈ p.live, origin.frames.size ≤ call.frame ∧
    call.frame < p.machine.store.frames.size
  counts : ∀ call ∈ p.live, call.function.params.length = call.args.length
  frame_eq : ∀ call ∈ p.live, p.machine.store.frames[call.frame]? =
    some ⟨Bindings.ofPairs (call.function.params.zip call.args), some call.function⟩

theorem Point.Sound.start (depth : Nat) (e : Expr) (m : Machine) :
    (Point.start depth e m).Sound m.store :=
  ⟨rfl, Nat.le_refl _, .nil, nofun, nofun, nofun⟩

theorem Point.Sound.next {origin : Store} {p q : Point} (hp : p.Sound origin) (h : p.Next q) :
    q.Sound origin := by
  cases h with
  | operand h =>
    have hstore := h.store_eq
    obtain ⟨hchain, hsize, hnewest, hfresh, hcounts, hframe⟩ := hp
    dsimp only at hchain hsize hfresh hframe
    rw [← hstore] at hchain hsize hfresh hframe
    exact ⟨hchain, hsize, hnewest, hfresh, hcounts, hframe⟩
  | body hcallee hcount hargs henter =>
    rename_i depth site callee args m m' live f values call inside
    have hstore : m'.store = m.store :=
      (Expr.evalAllWith_keeps (callWithin_keeps (depth + 1)) args).store_eq_of_run hargs
    obtain ⟨hlength, hframe, hinside⟩ := Store.of_enter?_eq_some henter
    rw [hstore] at hframe hinside
    rw [hframe, hinside]
    obtain ⟨hchain, hsize, hnewest, hfresh, hcounts, hheld⟩ := hp
    have hframes : (m.store.entered f values).frames =
        m.store.frames.push ⟨Bindings.ofPairs (f.params.zip values), some f⟩ := rfl
    constructor
    · exact congrArg (m.store.frames.size :: ·) hchain
    · dsimp only at hsize ⊢
      rw [hframes, Array.size_push]
      omega
    · refine List.pairwise_cons.mpr ⟨?_, hnewest⟩
      intro frame hmem
      obtain ⟨older, holder, rfl⟩ := List.mem_map.mp hmem
      exact (hfresh older holder).2
    · rw [hframes, Array.size_push]
      intro call hmem
      rcases List.mem_cons.mp hmem with rfl | hmem
      · exact ⟨hsize, Nat.lt_succ_self _⟩
      · exact ⟨(hfresh call hmem).1, Nat.lt_succ_of_lt (hfresh call hmem).2⟩
    · intro call hmem
      rcases List.mem_cons.mp hmem with rfl | hmem
      · exact hlength
      · exact hcounts call hmem
    · rw [hframes]
      intro call hmem
      rcases List.mem_cons.mp hmem with rfl | hmem
      · exact Array.getElem?_push_size
      · have hold : call.frame ≠ m.store.frames.size := Nat.ne_of_lt (hfresh call hmem).2
        rw [Array.getElem?_push, if_neg hold]
        exact hheld call hmem

/-- Wherever an evaluation comes, its calls in progress are sound. -/
theorem Point.sound_of_reaches {depth : Nat} {e : Expr} {m : Machine} {p : Point}
    (h : (Point.start depth e m).Reaches p) : p.Sound m.store := by
  induction h with
  | refl => exact .start depth e m
  | tail _ hnext ih => exact ih.next hnext

/-- The frames of the calls in progress hold what they were made with. -/
theorem Point.Sound.bindingsOf_eq {origin : Store} {p : Point} (hp : p.Sound origin)
    {call : LiveCall} (hmem : call ∈ p.live) :
    p.machine.store.bindingsOf call.frame =
      Bindings.ofPairs (call.function.params.zip call.args) := by
  unfold Store.bindingsOf
  rw [hp.frame_eq call hmem]

theorem Point.Sound.records_eq {origin : Store} {p : Point} (hp : p.Sound origin) :
    p.records = p.live.map fun call =>
      ⟨call.function, Bindings.ofPairs (call.function.params.zip call.args)⟩ :=
  List.map_congr_left fun call hmem => by rw [hp.bindingsOf_eq hmem]

/-- Parameters bound one after the other to as many arguments: each of them has the argument of its
    last occurrence. -/
theorem Bindings.exists_last_of_mem_params {param : String} :
    ∀ {params : List String} {args : List Value}, params.length = args.length → param ∈ params →
      ∃ (k : Nat) (v : Value), params[k]? = some param ∧
        (∀ later, k < later → params[later]? ≠ some param) ∧ args[k]? = some v ∧
        (Bindings.ofPairs (params.zip args)).get? param = some v
  | [], args, _, hmem => nomatch hmem
  | first :: params, [], hlength, _ => nomatch hlength
  | first :: params, arg :: args, hlength, hmem => by
    have hlength : params.length = args.length := Nat.succ.inj hlength
    rw [List.zip_cons_cons, ofPairs_get?, FlatMap.overwrite_cons, FlatMap.overwrite_apply,
      ← ofPairs_get?]
    by_cases hlast : param ∈ params
    · obtain ⟨k, v, hk, hlater, hv, hget⟩ := exists_last_of_mem_params hlength hlast
      refine ⟨k + 1, v, hk, ?_, hv, by rw [hget]; rfl⟩
      intro later hlt
      cases later with
      | zero => omega
      | succ later => exact hlater later (by omega)
    · have hfirst : param = first := (List.mem_cons.mp hmem).resolve_right hlast
      have hnone : (Bindings.ofPairs (params.zip args)).get? param = none := by
        cases hget : (Bindings.ofPairs (params.zip args)).get? param with
        | none => rfl
        | some w =>
          rw [ofPairs_get?] at hget
          exact absurd (List.of_mem_zip (FlatMap.mem_of_overwrite_empty hget)).1 hlast
      refine ⟨0, arg, by rw [hfirst]; rfl, ?_, rfl, ?_⟩
      · intro later hlt hlater
        cases later with
        | zero => omega
        | succ later => exact hlast (List.mem_of_getElem? hlater)
      · rw [hnone, Option.none_or, hfirst, Function.update_self]

/-! ## From the raise outwards -/

/-- A failure at the next point is one at this point, for the same cause and with the same calls in
    all, whether they have been left or are in progress. -/
theorem Point.Next.passes {origin : Store} {p q : Point} (hp : p.Sound origin) (h : p.Next q)
    {inner : Failure} (hq : q.outcome = .error (.failure inner)) :
    ∃ outer : Failure, p.outcome = .error (.failure outer) ∧ outer.cause = inner.cause ∧
      outer.calls ++ p.records = inner.calls ++ q.records := by
  have hrecords := (hp.next h).records_eq
  rw [hp.records_eq, hrecords]
  cases h with
  | operand h => exact ⟨inner, h.outcome_error hq, rfl, rfl⟩
  | body hcallee hcount hargs henter =>
    rename_i depth site callee args m m' live f values call inside
    obtain ⟨-, -, hinside⟩ := Store.of_enter?_eq_some henter
    rw [hinside] at hq
    have hbody : (f.body.evalWithin depth { m' with store := m'.store.entered f values }).1 =
      .error (.failure inner) := hq
    let record : CallRecord := ⟨f, Bindings.ofPairs (f.params.zip values)⟩
    refine ⟨⟨inner.cause, inner.calls ++ [record]⟩, ?_, rfl, ?_⟩
    · exact (Expr.evalWithin_call site hcallee hcount hargs).trans (by rw [hbody]; rfl)
    · rw [List.append_assoc]
      rfl

/-- A failure anywhere on the way is the failure of the whole, which has the calls that the failure
    has left there, and then those in progress there. -/
theorem Point.failure_of_reaches {depth : Nat} {e : Expr} {m : Machine} {p : Point}
    (h : (Point.start depth e m).Reaches p) :
    ∀ {inner : Failure}, p.outcome = .error (.failure inner) →
      (e.evalWithin depth m).1 = .error (.failure ⟨inner.cause, inner.calls ++ p.records⟩) := by
  induction h with
  | refl =>
    intro inner hinner
    have hnone : (Point.start depth e m).records = [] := rfl
    rw [hnone, List.append_nil]
    exact hinner
  | tail hreach hnext ih =>
    intro inner hinner
    obtain ⟨outer, houter, hcause, hcalls⟩ := hnext.passes (sound_of_reaches hreach) hinner
    rw [← hcause, ← hcalls]
    exact ih houter

/-! ## From the failure inwards -/

/-- If a next point stops and this one fails, the stop is a failure for the same cause. -/
theorem Point.Next.failure_of_stop {p q : Point} (h : p.Next q) {stop : Stop} {failure : Failure}
    (hq : q.outcome = .error stop) (hp : p.outcome = .error (.failure failure)) :
    ∃ inner, stop = .failure inner ∧ inner.cause = failure.cause := by
  cases h with
  | operand h =>
    have hstop : stop = .failure failure := Except.error.inj ((h.outcome_error hq).symm.trans hp)
    exact ⟨failure, hstop, rfl⟩
  | body hcallee hcount hargs henter =>
    rename_i depth site callee args m m' live f values call inside
    obtain ⟨-, -, hinside⟩ := Store.of_enter?_eq_some henter
    rw [hinside] at hq
    have hbody : (f.body.evalWithin depth { m' with store := m'.store.entered f values }).1 =
      .error stop := hq
    have hleft := (Expr.evalWithin_call site hcallee hcount hargs).symm.trans hp
    rw [hbody] at hleft
    cases stop with
    | failure inner =>
      have hfailure := Stop.failure.inj (Except.error.inj hleft)
      exact ⟨inner, rfl, by rw [← hfailure]⟩
    | misfit => cases hleft
    | mismatch => cases hleft
    | tooDeep => cases hleft
    | host fault => cases hleft
    | endless => cases hleft

/-- A failure at a point was raised there, or else at a next point there is one for the same
    cause. -/
theorem Point.raises_or_next {p : Point} {failure : Failure}
    (h : p.outcome = .error (.failure failure)) :
    p.Raises failure.cause ∨
      ∃ q inner, p.Next q ∧ q.outcome = .error (.failure inner) ∧ inner.cause = failure.cause := by
  by_cases hall : ∀ q, p.Next q → ∃ v, q.outcome = .ok v
  · have hcalls := calls_eq_nil hall h
    refine .inl ⟨?_, hall⟩
    rw [← hcalls]
    exact h
  · obtain ⟨q, hq⟩ := not_forall.mp hall
    obtain ⟨hnext, hq⟩ := Classical.not_imp.mp hq
    refine .inr ?_
    cases hstop : q.outcome with
    | ok v => exact absurd ⟨v, hstop⟩ hq
    | error stop =>
      obtain ⟨inner, rfl, hcause⟩ := hnext.failure_of_stop hstop h
      exact ⟨q, inner, hnext, hstop, hcause⟩

/-- Every failure was raised somewhere on the way. -/
theorem Point.exists_raises (p : Point) {failure : Failure}
    (h : p.outcome = .error (.failure failure)) : ∃ q, p.Reaches q ∧ q.Raises failure.cause := by
  rcases p.raises_or_next h with hraises | ⟨q, inner, hnext, hinner, hcause⟩
  · exact ⟨p, .refl, hraises⟩
  · have hdecreases := hnext.decreases
    obtain ⟨r, hreach, hr⟩ := q.exists_raises hinner
    rw [hcause] at hr
    exact ⟨r, .head hnext hreach, hr⟩
termination_by (p.depth, sizeOf p.expr)
decreasing_by exact hdecreases

/-! ## The calls of a failure -/

/-- The calls of a failure are explained by the evaluation that starts at a point. -/
structure Failure.Traces (failure : Failure) (start : Point) : Prop where
  /-- The evaluation came to a point where the failure was raised. -/
  raised : ∃ p, start.Reaches p ∧ p.Raises failure.cause
  /-- The calls in progress where it was raised are its calls, the innermost first. -/
  calls_eq : ∀ p cause, start.Reaches p → p.Raises cause → failure = ⟨cause, p.records⟩
  /-- The calls in progress are those whose frames are in front of the chain of the start, -/
  chain_eq : ∀ p, start.Reaches p →
    p.machine.store.chain = p.live.map (·.frame) ++ start.machine.store.chain
  /-- each of them once, -/
  nodup : ∀ p, start.Reaches p → (p.live.map (·.frame)).Nodup
  /-- with a frame that was made since the start, for this function. -/
  made : ∀ p, start.Reaches p → ∀ call ∈ p.live, start.machine.store.frames.size ≤ call.frame ∧
    ∃ frame, p.machine.store.frames[call.frame]? = some frame ∧ frame.caller = some call.function
  /-- Every parameter is still bound to its argument, the last one if it is repeated. -/
  bound : ∀ p, start.Reaches p → ∀ call ∈ p.live, ∀ param ∈ call.function.params,
    ∃ (k : Nat) (v : Value), call.function.params[k]? = some param ∧
      (∀ later, k < later → call.function.params[later]? ≠ some param) ∧ call.args[k]? = some v ∧
      (p.machine.store.bindingsOf call.frame).get? param = some v
  /-- A call that is refused, since its name shows nothing, or no function, or one that wants
      another number of arguments, is not among the calls; those around it are. -/
  refused : ∀ p, start.Reaches p → ∀ site callee args, p.expr = .call site callee args →
    (∀ f, p.machine.store.lookup callee.spelling = .ok f → f.accepts args.length = false) →
    failure.calls = p.records
  /-- Nor is a call whose arguments fail: first come the calls left in them, then those around. -/
  argument : ∀ p, start.Reaches p → ∀ site callee args, p.expr = .call site callee args →
    ∀ f, p.machine.store.lookup callee.spelling = .ok f → f.accepts args.length = true →
    ∀ inner, (Expr.evalAllWith (callWithin p.depth) args p.machine).1 = .error (.failure inner) →
    failure = ⟨inner.cause, inner.calls ++ p.records⟩

/-- **The calls of a failure are the calls in progress.**  However an evaluation comes to fail, it
    has come to a point where the failure was raised, and the calls of the failure are exactly those
    that had been entered and not left there: innermost first, each once, each with the frame that
    still binds the parameters to the arguments. -/
theorem failure_traces_calls {depth : Nat} {e : Expr} {m : Machine} {failure : Failure}
    (h : (e.evalWithin depth m).1 = .error (.failure failure)) :
    failure.Traces (.start depth e m) := by
  have hfailure : ∀ {p inner}, (Point.start depth e m).Reaches p →
      p.outcome = .error (.failure inner) → failure = ⟨inner.cause, inner.calls ++ p.records⟩ := by
    intro p inner hreach hinner
    have hwhole := Point.failure_of_reaches hreach hinner
    exact Stop.failure.inj (Except.error.inj (h.symm.trans hwhole))
  have hsound : ∀ {p}, (Point.start depth e m).Reaches p → p.Sound m.store :=
    Point.sound_of_reaches
  constructor
  · exact (Point.start depth e m).exists_raises h
  · intro p cause hreach hraises
    exact hfailure hreach hraises.fails
  · intro p hreach
    exact (hsound hreach).chain_eq
  · intro p hreach
    exact (hsound hreach).newest_first.imp fun hlt => Nat.ne_of_gt hlt
  · intro p hreach call hmem
    exact ⟨((hsound hreach).fresh call hmem).1, _, (hsound hreach).frame_eq call hmem, rfl⟩
  · intro p hreach call hmem param hparam
    rw [(hsound hreach).bindingsOf_eq hmem]
    exact Bindings.exists_last_of_mem_params ((hsound hreach).counts call hmem) hparam
  · rintro ⟨depth', e', m', live⟩ hreach site callee args rfl hrefused
    obtain ⟨cause, hcause⟩ := Expr.evalWithin_call_of_refused depth' site hrefused
    exact congrArg Failure.calls (hfailure hreach hcause)
  · rintro ⟨depth', e', m', live⟩ hreach site callee args rfl f hcallee haccepts inner hargs
    exact hfailure hreach (Expr.evalWithin_call_of_args hcallee haccepts hargs)

/-- A function with a repeated parameter, which it takes for an array. -/
def pickFirst : UserFunction where
  identity := 7
  name := "first"
  params := ["x", "x"]
  body := .subscript none (.name ⟨"x", none⟩) (.numeral none 0)

/-- A function that hands its parameter on, behind another argument. -/
def callFirst : UserFunction where
  identity := 8
  name := "again"
  params := ["y"]
  body := .call none ⟨"first", none⟩ [.boolean none true, .name ⟨"y", none⟩]

/-- Two calls are in progress; of the repeated parameter the last argument is bound. -/
theorem failure_traces_calls_pickFirst :
    let e : Expr := .array none [.call none ⟨"again", none⟩ [.boolean none false]]
    let m : Machine := ⟨⟨#[⟨[("first", .user pickFirst), ("again", .user callFirst)], none⟩], [0]⟩,
      #[], #[], none, .fresh⟩
    let failure : Failure := ⟨.notAnArray .boolean,
      [⟨pickFirst, [("x", .boolean false)]⟩, ⟨callFirst, [("y", .boolean false)]⟩]⟩
    (e.eval m).1 = .error (.failure failure) ∧ failure.Traces (.start callLimit e m) := by
  intro e m failure
  have hfails : (e.eval m).1 = .error (.failure failure) := rfl
  exact ⟨hfails, failure_traces_calls hfails⟩

end BellaLang
