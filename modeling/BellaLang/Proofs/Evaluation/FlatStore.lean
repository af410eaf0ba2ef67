import BellaLang.Proofs.Evaluation.Guards
import BellaLang.Proofs.Evaluation.Preservation
import BellaLang.Proofs.Store.Lookup
import Mathlib.Logic.Function.Basic

/-!
The chain of frames against one flat map.

Calls can be explained without any frames.  There is one map from names to values.  A call of a user
function keeps a copy of the map, overwrites the entries of its parameters, evaluates the body, and
puts the copy back.  This file writes that evaluator down (`Expr.flatWithin`) and shows that the
chain of frames is only another way to keep the same map:

  1. the flat map of a store lets the nearest frame win, which is what a look-up does
     (`Store.flat_eq_get?`);
  2. a frame in front of the chain is the flat map with the parameters overwritten
     (`Store.get?_entered`), whatever it shadows and however often a parameter is repeated;
  3. a step *refines* a flat step if from a machine and its flat map both have the same outcome, and
     after a value the map is still that of the machine; this is closed under sequencing and under
     calls (`Refines.bind`, `Refines.during`), because a call gives the caller's store back.

Main statement: `eval_refines_flat`.
-/

namespace BellaLang

/-! ## The flat evaluator -/

/-- One map from names to values. -/
abbrev FlatMap := String → Option Value

/-- Overwrite entries one after the other: of a name that is repeated, the last value stays. -/
def FlatMap.overwrite (map : FlatMap) (pairs : List (String × Value)) : FlatMap :=
  pairs.foldl (fun map pair => Function.update map pair.1 (some pair.2)) map

/-- What the flat evaluator works against. -/
structure FlatState where
  map : FlatMap
  host : Host

/-- Why a flat step ended without a value. -/
inductive FlatStop where
  | failure (cause : Cause)
  | misfit
  | tooDeep
  | host (fault : HostFault)

/-- A step on a flat state. -/
def FlatAction (α : Type) := FlatState → Except FlatStop α × FlatState

/-- One step, and another that depends on its answer. -/
def FlatAction.bind {α β : Type} (first : FlatAction α) (next : α → FlatAction β) : FlatAction β :=
  fun s =>
    match first s with
    | (.ok a, s') => next a s'
    | (.error stop, s') => (.error stop, s')

instance : Monad FlatAction where
  pure a := fun s => (.ok a, s)
  bind := FlatAction.bind

namespace FlatAction

/-- Stop for a reason. -/
def stop {α : Type} (reason : FlatStop) : FlatAction α := fun s => (.error reason, s)

/-- Fail for a cause. -/
def fail {α : Type} (cause : Cause) : FlatAction α := stop (.failure cause)

/-- The step that answers what the host does, or stops for the error that it ends with. -/
def ofHost {α : Type} : Except HostFault α → FlatAction α
  | .ok a => pure a
  | .error fault => stop (.host fault)

/-- The map in force. -/
def getMap : FlatAction FlatMap := fun s => (.ok s.map, s)

/-- Put another map into force. -/
def setMap (map : FlatMap) : FlatAction Unit := fun s => (.ok (), { s with map })

/-- The value of a name. -/
def lookup (name : String) : FlatAction Value := do
  match (← getMap) name with
  | some value => pure value
  | none => fail (.notDeclared name)

/-- The number that an operand of `op` has to be. -/
def numeric (op : String) (v : Value) : FlatAction Float :=
  match v.number? with
  | some x => pure x
  | none => fail (.operandType op v.kind)

/-- The element of an array that a subscript picks. -/
def element (base index : Value) : FlatAction Value :=
  match index.number? with
  | none => fail (.subscriptType index.kind)
  | some x =>
    match base with
    | .user f => fail (.functionSubscripted f)
    | .array elements =>
      match (Number.natural? x).bind (elements[·]?) with
      | some element => pure element
      | none => fail (.outOfRange x elements.length)
    | other => fail (.notAnArray other.kind)

/-- Call a native function. -/
def callNative (f : Native) (args : List Value) : FlatAction Value := fun s =>
  match f.numbers args with
  | .ok numbers =>
    ofHost (f.run (s.host.callsOf f.identity) (fitTo f.arity numbers))
      { s with host := s.host.note f.identity }
  | .error cause => fail cause s

/-- Call a user function: keep a copy of the map, overwrite the parameters, evaluate the body, and
    put the copy back. -/
def callUser (f : UserFunction) (args : List Value) (body : FlatAction Value) :
    FlatAction Value := do
  let snapshot ← getMap
  setMap (snapshot.overwrite (f.params.zip args))
  let value ← body
  setMap snapshot
  pure value

end FlatAction

open FlatAction in
mutual

/-- The value of an expression on a flat map, where `call` calls user functions. -/
def Expr.flatWith (call : UserFunction → List Value → FlatAction Value) : Expr → FlatAction Value
  | .numeral _ x => pure (.number x)
  | .boolean _ b => pure (.boolean b)
  | .name id => lookup id.spelling
  | .unary _ op operand => do
    let v ← operand.flatWith call
    match UnaryOp.ofSymbol? op with
    | some .negate => do
      let x ← numeric op v
      pure (.number (-x))
    | some .not => pure (.boolean !v.truthy)
    | none => fail (.unknownUnary op)
  | .binary _ op left right =>
    match BinaryOp.ofSymbol? op with
    | some (.shortcut settledBy) => do
      let v ← left.flatWith call
      if v.truthy = settledBy then pure v else right.flatWith call
    | some (.arithmetic f) => do
      let x ← left.flatWith call >>= numeric op
      let y ← right.flatWith call >>= numeric op
      let z ← ofHost (f.apply x y)
      pure (.number z)
    | some (.relational r) => do
      let x ← left.flatWith call >>= numeric op
      let y ← right.flatWith call >>= numeric op
      pure (.boolean (r.apply x y))
    | some (.equality wanted) => do
      let v ← left.flatWith call
      let w ← right.flatWith call
      pure (.boolean (v.equals w == wanted))
    | none => fail (.unknownBinary op)
  | .call _ callee args => do
    match ← lookup callee.spelling with
    | .native f => do
      let values ← Expr.flatAllWith call args
      callNative f values
    | .user f =>
      if args.length = f.params.length then do
        let values ← Expr.flatAllWith call args
        call f values
      else fail (.argumentCount f.name f.params.length args.length)
    | other => fail (.notAFunction callee.spelling other.kind)
  | .conditional _ test consequent alternate => do
    let v ← test.flatWith call
    if v.truthy then consequent.flatWith call else alternate.flatWith call
  | .array _ elements => do
    let values ← Expr.flatAllWith call elements
    pure (.array values)
  | .subscript _ base index => do
    let v ← base.flatWith call
    let i ← index.flatWith call
    element v i
  | .nothing | .statement _ | .program _ => stop .misfit

/-- The values of several expressions on a flat map, from left to right. -/
def Expr.flatAllWith (call : UserFunction → List Value → FlatAction Value) :
    List Expr → FlatAction (List Value)
  | [] => pure []
  | e :: rest => do
    let v ← e.flatWith call
    let values ← Expr.flatAllWith call rest
    pure (v :: values)

end

/-- Call a user function on a flat map, where `depth` calls may be nested. -/
def flatCallWithin : (depth : Nat) → UserFunction → List Value → FlatAction Value
  | 0, _, _ => .stop .tooDeep
  | depth + 1, f, args => .callUser f args (f.body.flatWith (flatCallWithin depth))

/-- The value of an expression on a flat map, where `depth` calls may be nested. -/
def Expr.flatWithin (depth : Nat) (e : Expr) : FlatAction Value :=
  e.flatWith (flatCallWithin depth)

/-! ## The flat map of a store -/

/-- The flat map of a chain of frames: for each name the nearest frame that has it wins. -/
def Store.flat (store : Store) : FlatMap :=
  store.chain.foldr (fun id older name => ((store.bindingsOf id).get? name).or (older name))
    fun _ => none

theorem Store.flat_eq_get? (store : Store) : store.flat = store.get? := by
  funext name
  rw [get?_eq_findSome?, flat]
  induction store.chain with
  | nil => rfl
  | cons id older ih =>
    rw [List.foldr_cons, List.findSome?_cons, ih]
    cases (store.bindingsOf id).get? name <;> rfl

/-! ## Parameters in front of a map -/

theorem FlatMap.overwrite_cons (map : FlatMap) (name : String) (value : Value)
    (pairs : List (String × Value)) :
    map.overwrite ((name, value) :: pairs) =
      FlatMap.overwrite (Function.update map name (some value)) pairs := rfl

/-- Overwriting a map shows what overwriting an empty one would show, and the map behind it. -/
theorem FlatMap.overwrite_apply (pairs : List (String × Value)) (map : FlatMap) (name : String) :
    map.overwrite pairs name = (FlatMap.overwrite (fun _ => none) pairs name).or (map name) := by
  induction pairs generalizing map with
  | nil => rfl
  | cons pair rest ih =>
    obtain ⟨key, value⟩ := pair
    rw [overwrite_cons, ih, overwrite_cons, ih (Function.update _ _ _)]
    by_cases h : name = key
    · subst h
      simp only [Function.update_self]
      cases overwrite (fun _ => none) rest name <;> rfl
    · simp only [Function.update_of_ne h]
      cases overwrite (fun _ => none) rest name <;> rfl

/-- What overwriting puts in front of an empty map comes from one of the pairs. -/
theorem FlatMap.mem_of_overwrite_empty {pairs : List (String × Value)} {name : String} {v : Value}
    (h : FlatMap.overwrite (fun _ => none) pairs name = some v) : (name, v) ∈ pairs := by
  induction pairs with
  | nil => cases h
  | cons pair rest ih =>
    obtain ⟨key, value⟩ := pair
    rw [overwrite_cons, overwrite_apply] at h
    cases hrest : FlatMap.overwrite (fun _ => none) rest name with
    | some w =>
      rw [hrest] at h
      have hw : w = v := Option.some.inj h
      rw [hw] at hrest
      exact List.mem_cons_of_mem _ (ih hrest)
    | none =>
      rw [hrest, Option.none_or, Function.update_apply] at h
      split at h
      · rename_i hkey
        have hv : value = v := Option.some.inj h
        rw [hkey, hv]
        exact List.mem_cons_self
      · cases h

/-- Binding names one after the other is overwriting, seen from the outside. -/
theorem Bindings.foldl_put_get? (pairs : List (String × Value)) (bindings : Bindings) :
    (pairs.foldl (fun bound pair => bound.put pair.1 pair.2) bindings).get? =
      FlatMap.overwrite bindings.get? pairs := by
  induction pairs generalizing bindings with
  | nil => rfl
  | cons pair rest ih =>
    obtain ⟨key, value⟩ := pair
    rw [List.foldl_cons, ih, FlatMap.overwrite_cons]
    congr 1
    funext name
    rw [get?_put, Function.update_apply]

theorem Bindings.ofPairs_get? (pairs : List (String × Value)) :
    (Bindings.ofPairs pairs).get? = FlatMap.overwrite (fun _ => none) pairs :=
  Bindings.foldl_put_get? pairs []

/-- Any frame but the new one shows inside a call what it showed outside; a number that stands for
    no frame outside can only stand for the new frame inside, which comes first anyway. -/
theorem Store.bindingsOf_entered_of_ne (store : Store) (f : UserFunction) (args : List Value)
    {id : FrameId} (h : id ≠ store.frames.size) :
    (store.entered f args).bindingsOf id = store.bindingsOf id := by
  unfold bindingsOf entered
  rw [Array.getElem?_push, if_neg h]

/-- What a name shows inside a call: the parameters, and behind them what the caller sees. -/
theorem Store.get?_entered (store : Store) (f : UserFunction) (args : List Value) :
    (store.entered f args).get? = FlatMap.overwrite store.get? (f.params.zip args) := by
  funext name
  rw [FlatMap.overwrite_apply, ← Bindings.ofPairs_get?, get?_eq_findSome?]
  show (store.frames.size :: store.chain).findSome? _ = _
  rw [List.findSome?_cons, bindingsOf_entered_size]
  cases hparam : (Bindings.ofPairs (f.params.zip args)).get? name with
  | some value => rfl
  | none =>
    rw [Option.none_or, get?_eq_findSome?]
    refine congrArg store.chain.findSome? (funext fun id => ?_)
    by_cases h : id = store.frames.size
    · subst h
      have hfree : store.bindingsOf store.frames.size = [] := by
        rw [bindingsOf, Array.getElem?_size]
      rw [bindingsOf_entered_size, hparam, hfree]
      rfl
    · rw [store.bindingsOf_entered_of_ne f args h]

theorem FlatAction.bind_apply_ok {α β : Type} {b : FlatAction α} {next : α → FlatAction β}
    {s s' : FlatState} {x : α} (h : b s = (.ok x, s')) : (b >>= next) s = next x s' := by
  show FlatAction.bind b next s = _
  rw [FlatAction.bind, h]

theorem FlatAction.bind_apply_stop {α β : Type} {b : FlatAction α} {next : α → FlatAction β}
    {s s' : FlatState} {stop : FlatStop} (h : b s = (.error stop, s')) :
    (b >>= next) s = (.error stop, s') := by
  show FlatAction.bind b next s = _
  rw [FlatAction.bind, h]

/-- What a call on a flat map does, seen as a whole. -/
theorem FlatAction.callUser_apply (f : UserFunction) (args : List Value) (body : FlatAction Value)
    (s : FlatState) :
    callUser f args body s =
      match body ⟨s.map.overwrite (f.params.zip args), s.host⟩ with
      | (.ok value, s') => (.ok value, { s' with map := s.map })
      | (.error stop, s') => (.error stop, s') := by
  simp only [callUser, Bind.bind, FlatAction.bind, getMap, setMap]
  rcases body ⟨s.map.overwrite (f.params.zip args), s.host⟩ with ⟨_ | _, s'⟩ <;> rfl

/-! ## Refinement -/

/-- The flat state of a machine. -/
def Machine.flat (m : Machine) : FlatState := ⟨m.store.flat, m.host⟩

/-- The same outcome: the same value, or a failure for the same cause, or something in the place of
    an expression, or too many nested calls, or the same error of the host, on both sides. -/
inductive SameOutcome {α : Type} : Except Stop α → Except FlatStop α → Prop
  | value (a : α) : SameOutcome (.ok a) (.ok a)
  | failure (f : Failure) : SameOutcome (.error (.failure f)) (.error (.failure f.cause))
  | misfit : SameOutcome (.error .misfit) (.error .misfit)
  | tooDeep : SameOutcome (.error .tooDeep) (.error .tooDeep)
  | host (fault : HostFault) : SameOutcome (.error (.host fault)) (.error (.host fault))

/-- A step refines a flat step: they have the same outcome, and after a value the flat state is
    still that of the machine. -/
def Refines {α : Type} (a : Action α) (b : FlatAction α) : Prop :=
  ∀ m : Machine, SameOutcome (a m).1 (b m.flat).1 ∧
    ∀ v, (a m).1 = .ok v → (b m.flat).2 = (a m).2.flat

namespace Refines

variable {α β : Type}

theorem pure (x : α) : Refines (Pure.pure x) (Pure.pure x) :=
  fun _ => ⟨.value x, fun _ _ => rfl⟩

theorem fail (cause : Cause) : Refines (Action.fail cause : Action α) (FlatAction.fail cause) :=
  fun _ => ⟨.failure ⟨cause, []⟩, fun _ h => nomatch h⟩

theorem ofHost (result : Except HostFault α) :
    Refines (Action.ofHost result) (FlatAction.ofHost result) := by
  cases result with
  | ok x => exact pure x
  | error fault => exact fun _ => ⟨.host fault, fun _ h => nomatch h⟩

/-- Sequencing: after a value both sides go on from states that belong together, and after anything
    else both are at their end. -/
theorem bind_of_ok {a : Action α} {b : FlatAction α} {next : α → Action β}
    {flatNext : α → FlatAction β} (hab : Refines a b)
    (hnext : ∀ m x, (a m).1 = .ok x → Refines (next x) (flatNext x)) :
    Refines (a >>= next) (b >>= flatNext) := by
  intro m
  obtain ⟨hsame, hflat⟩ := hab m
  have hgo := hnext m
  rcases ha : a m with ⟨result, m'⟩
  rcases hb : b m.flat with ⟨flatResult, s'⟩
  rw [ha, hb] at hsame hflat
  rw [ha] at hgo
  cases hsame with
  | value x =>
    have hs' : s' = m'.flat := hflat x rfl
    rw [Action.bind_apply_ok ha, FlatAction.bind_apply_ok hb, hs']
    exact hgo x rfl m'
  | failure f =>
    rw [Action.bind_apply_stop ha, FlatAction.bind_apply_stop hb]
    exact ⟨.failure f, fun _ h => nomatch h⟩
  | misfit =>
    rw [Action.bind_apply_stop ha, FlatAction.bind_apply_stop hb]
    exact ⟨.misfit, fun _ h => nomatch h⟩
  | tooDeep =>
    rw [Action.bind_apply_stop ha, FlatAction.bind_apply_stop hb]
    exact ⟨.tooDeep, fun _ h => nomatch h⟩
  | host fault =>
    rw [Action.bind_apply_stop ha, FlatAction.bind_apply_stop hb]
    exact ⟨.host fault, fun _ h => nomatch h⟩

theorem bind {a : Action α} {b : FlatAction α} {next : α → Action β} {flatNext : α → FlatAction β}
    (hab : Refines a b) (hnext : ∀ x, Refines (next x) (flatNext x)) :
    Refines (a >>= next) (b >>= flatNext) :=
  hab.bind_of_ok fun _ x _ => hnext x

theorem ite {p : Prop} [Decidable p] {a b : Action α} {a' b' : FlatAction α}
    (ha : Refines a a') (hb : Refines b b') :
    Refines (if p then a else b) (if p then a' else b') := by
  split
  · exact ha
  · exact hb

theorem lookup (name : String) : Refines (Machine.lookup name) (FlatAction.lookup name) := by
  intro m
  show SameOutcome (Action.ofExcept (m.store.lookup name) m).1
      ((match m.store.flat name with
        | some value => (Pure.pure value : FlatAction Value)
        | none => FlatAction.fail (.notDeclared name)) m.flat).1 ∧ ∀ v,
      (Action.ofExcept (m.store.lookup name) m).1 = .ok v →
      ((match m.store.flat name with
        | some value => (Pure.pure value : FlatAction Value)
        | none => FlatAction.fail (.notDeclared name)) m.flat).2 = _
  rw [m.store.flat_eq_get?]
  unfold Machine.lookup Store.lookup
  cases m.store.get? name with
  | some value => exact pure value m
  | none => exact fail (.notDeclared name) m

theorem numeric (op : String) (v : Value) :
    Refines (numberFor op v) (FlatAction.numeric op v) := by
  cases v with
  | number x => exact pure x
  | boolean _ | array _ | native _ | user _ => exact fail _

theorem element (base index : Value) :
    Refines (pick base index) (FlatAction.element base index) := by
  cases index with
  | number x =>
    cases base with
    | array elements =>
      unfold FlatAction.element
      simp only [Value.number?]
      cases hpicked : (Number.natural? x).bind (elements[·]?) with
      | some element =>
        rw [pick_array_eq_pure hpicked]
        exact pure element
      | none =>
        rw [pick_array_eq_fail hpicked]
        exact fail _
    | number _ | boolean _ | native _ | user _ => exact fail _
  | boolean _ | array _ | native _ | user _ => cases base <;> exact fail _

theorem callNative (f : Native) (args : List Value) :
    Refines (Machine.callNative f args) (FlatAction.callNative f args) := by
  intro m
  unfold Machine.callNative FlatAction.callNative
  have hhost : m.flat.host = m.host := rfl
  rw [hhost]
  cases f.numbers args with
  | ok numbers => exact ofHost _ { m with host := m.host.note f.identity }
  | error cause => exact fail cause m

/-- Calls: inside, the chain with the new frame is the flat map with the parameters overwritten; and
    outside, the caller's store is back on one side as the copy of the map is on the other. -/
theorem during {f : UserFunction} {args : List Value} {body : Action Value}
    {flatBody : FlatAction Value} (hargs : f.params.length = args.length) (hkeeps : body.Keeps)
    (hbody : Refines body flatBody) :
    Refines (Machine.during f args body) (FlatAction.callUser f args flatBody) := by
  intro m
  rw [during_eq hargs hkeeps]
  have hinside : ({ m with store := m.store.entered f args } : Machine).flat =
      ⟨m.store.flat.overwrite (f.params.zip args), m.host⟩ := by
    unfold Machine.flat
    rw [Store.flat_eq_get?, Store.get?_entered, ← Store.flat_eq_get?]
  obtain ⟨hsame, hflat⟩ := hbody { m with store := m.store.entered f args }
  rw [hinside] at hsame hflat
  rw [FlatAction.callUser_apply]
  dsimp only [Machine.flat]
  rcases hrun : body { m with store := m.store.entered f args } with ⟨result, m'⟩
  rcases hflatRun : flatBody ⟨m.store.flat.overwrite (f.params.zip args), m.host⟩ with
    ⟨flatResult, s⟩
  rw [hrun, hflatRun] at hsame hflat
  cases hsame with
  | value v =>
    have hs : s = m'.flat := hflat v rfl
    rw [hs]
    exact ⟨.value v, fun _ _ => rfl⟩
  | failure failure => exact ⟨.failure _, fun _ h => nomatch h⟩
  | misfit => exact ⟨.misfit, fun _ h => nomatch h⟩
  | tooDeep => exact ⟨.tooDeep, fun _ h => nomatch h⟩
  | host fault => exact ⟨.host fault, fun _ h => nomatch h⟩

end Refines

/-! ## Expressions and calls refine the flat evaluator -/

section
variable {call : Calling} {flatCall : UserFunction → List Value → FlatAction Value}

mutual

/-- An expression refines its flat evaluation if the calls in it do that are made with as many
    arguments as there are parameters. -/
theorem Expr.evalWith_refines
    (hcall : ∀ f args, f.params.length = args.length → Refines (call f args) (flatCall f args)) :
    ∀ e : Expr, Refines (e.evalWith call) (e.flatWith flatCall)
  | .numeral _ x => .pure _
  | .boolean _ b => .pure _
  | .name id => .lookup _
  | .unary _ op operand => by
    unfold evalWith flatWith
    refine (evalWith_refines hcall operand).bind fun v => ?_
    cases UnaryOp.ofSymbol? op with
    | none => exact .fail _
    | some f =>
      cases f with
      | negate => exact (Refines.numeric op v).bind fun x => .pure _
      | not => exact .pure _
  | .binary _ op left right => by
    have hleft := evalWith_refines hcall left
    have hright := evalWith_refines hcall right
    unfold evalWith flatWith
    cases BinaryOp.ofSymbol? op with
    | none => exact .fail _
    | some f =>
      cases f with
      | shortcut settledBy => exact hleft.bind fun v => .ite (.pure v) hright
      | arithmetic f =>
        refine (hleft.bind (Refines.numeric op)).bind fun x => ?_
        refine (hright.bind (Refines.numeric op)).bind fun y => ?_
        exact (Refines.ofHost (f.apply x y)).bind fun z => .pure _
      | relational r =>
        refine (hleft.bind (Refines.numeric op)).bind fun x => ?_
        exact (hright.bind (Refines.numeric op)).bind fun y => .pure _
      | equality wanted =>
        refine hleft.bind fun v => hright.bind fun w => ?_
        rw [Value.sharedEquals_eq]
        exact .pure _
  | .call _ callee args => by
    unfold evalWith flatWith
    refine (Refines.lookup _).bind fun v => ?_
    cases v with
    | native f =>
      exact (Expr.evalAllWith_refines hcall args).bind fun values => .callNative f values
    | user f =>
      dsimp only
      by_cases hcount : args.length = f.params.length
      · rw [if_pos hcount, if_pos hcount]
        refine (Expr.evalAllWith_refines hcall args).bind_of_ok fun m values hvalues => ?_
        exact hcall f values (by rw [Expr.length_of_evalAllWith hvalues, hcount])
      · rw [if_neg hcount, if_neg hcount]
        exact .fail _
    | number x => exact .fail _
    | boolean b => exact .fail _
    | array elements => exact .fail _
  | .conditional _ test consequent alternate => by
    unfold evalWith flatWith
    refine (evalWith_refines hcall test).bind fun v => ?_
    exact .ite (evalWith_refines hcall consequent) (evalWith_refines hcall alternate)
  | .array _ elements => by
    unfold evalWith flatWith
    exact (Expr.evalAllWith_refines hcall elements).bind fun values => .pure _
  | .subscript _ base index => by
    unfold evalWith flatWith
    refine (evalWith_refines hcall base).bind fun v => ?_
    exact (evalWith_refines hcall index).bind fun i => .element v i
  | .nothing | .statement _ | .program _ => fun _ => ⟨.misfit, fun _ h => nomatch h⟩

theorem Expr.evalAllWith_refines
    (hcall : ∀ f args, f.params.length = args.length → Refines (call f args) (flatCall f args)) :
    ∀ es : List Expr, Refines (Expr.evalAllWith call es) (Expr.flatAllWith flatCall es)
  | [] => .pure _
  | e :: rest => by
    unfold Expr.evalAllWith Expr.flatAllWith
    refine (Expr.evalWith_refines hcall e).bind fun v => ?_
    exact (Expr.evalAllWith_refines hcall rest).bind fun values => .pure _

end

end

theorem callWithin_refines (depth : Nat) (f : UserFunction) (args : List Value)
    (hargs : f.params.length = args.length) :
    Refines (callWithin depth f args) (flatCallWithin depth f args) := by
  induction depth generalizing f args with
  | zero => exact fun _ => ⟨.tooDeep, fun _ h => nomatch h⟩
  | succ depth ih =>
    exact .during hargs (f.body.evalWith_keeps (callWithin_keeps depth))
      (f.body.evalWith_refines ih)

/-! ## The chain and the flat map -/

/-- **The chain of frames refines the flat map.**  With the same number of calls that may be nested,
    evaluating on the chain and evaluating on the flat map of the chain have the same outcome; so
    one of them nests its calls without end exactly if the other one does. -/
theorem eval_refines_flat (e : Expr) (m : Machine) :
    (∀ depth, SameOutcome (e.evalWithin depth m).1 (e.flatWithin depth m.flat).1) ∧
      ((∀ depth, (e.evalWithin depth m).1 = .error .tooDeep) ↔
        ∀ depth, (e.flatWithin depth m.flat).1 = .error .tooDeep) := by
  have hsame : ∀ depth, SameOutcome (e.evalWithin depth m).1 (e.flatWithin depth m.flat).1 :=
    fun depth => (e.evalWith_refines (callWithin_refines depth) m).1
  refine ⟨hsame, ?_, ?_⟩
  · intro h depth
    have hd := hsame depth
    rw [h depth] at hd
    rcases hflat : (e.flatWithin depth m.flat).1 with _ | _ <;> rw [hflat] at hd <;> cases hd
    rfl
  · intro h depth
    have hd := hsame depth
    rw [h depth] at hd
    rcases hchain : (e.evalWithin depth m).1 with _ | _ <;> rw [hchain] at hd <;> cases hd
    rfl

end BellaLang
