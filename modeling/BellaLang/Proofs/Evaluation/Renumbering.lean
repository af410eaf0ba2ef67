import BellaLang.Proofs.Evaluation.Agreement

/-!
Other identities for the same functions.

A function gets the next free identity when it is made, so its identity tells how many functions
were made before, in this run or in earlier ones.  A program can only ask whether two functions are
the same one.  So if all identities are counted on by one and the same number then nothing that a
program can notice changes.

  1. Values, causes of failures and stops are *renumbered* by counting on the identities that occur
     in them.  No text, no kind and no comparison changes by that (`Value.text_renumber`,
     `Value.equals_renumber`, `Cause.detail_renumber`, `CallRecord.text_renumber`).
  2. One store is another one renumbered if that is so for what each name shows
     (`Store.Renumbered`), wherever the bindings are; calls keep that (`Renumbered.entered`).
  3. A step *mirrors* another one if from such stores it ends as the other one does, renumbered
     (`Action.Mirrors`).  The native functions have to be steady, because how often a function has
     been called is noted under its identity, and to answer numbers, because the functions that they
     might answer are not renumbered.  This is closed under sequencing and under calls.

Main statement: `evalWithin_mirrors`, every evaluation mirrors itself.
-/

namespace BellaLang

open Machine

/-! ## Counting identities on -/

/-- The function with another identity. -/
def Native.renumber (k : Nat) (f : Native) : Native := { f with identity := f.identity + k }

/-- The function with another identity. -/
def UserFunction.renumber (k : Nat) (f : UserFunction) : UserFunction :=
  { f with identity := f.identity + k }

mutual

/-- A value whose functions have other identities. -/
def Value.renumber (k : Nat) : Value → Value
  | .number x => .number x
  | .boolean b => .boolean b
  | .array elements => .array (Value.renumberAll k elements)
  | .native f => .native (f.renumber k)
  | .user f => .user (f.renumber k)

/-- Values whose functions have other identities. -/
def Value.renumberAll (k : Nat) : List Value → List Value
  | [] => []
  | v :: rest => v.renumber k :: Value.renumberAll k rest

end

/-- Bindings to renumbered values. -/
def Bindings.renumber (k : Nat) (bindings : Bindings) : Bindings :=
  bindings.map fun entry => (entry.1, entry.2.renumber k)

/-- The only cause that holds a function has it renumbered. -/
def Cause.renumber (k : Nat) : Cause → Cause
  | .functionSubscripted f => .functionSubscripted (f.renumber k)
  | other => other

/-- A call whose function and whose arguments are renumbered. -/
def CallRecord.renumber (k : Nat) (call : CallRecord) : CallRecord :=
  ⟨call.function.renumber k, Bindings.renumber k call.bindings⟩

/-- A failure with everything in it renumbered. -/
def Failure.renumber (k : Nat) (failure : Failure) : Failure :=
  ⟨failure.cause.renumber k, failure.calls.map (CallRecord.renumber k)⟩

/-- A stop with everything in it renumbered. -/
def Stop.renumber (k : Nat) : Stop → Stop
  | .failure f => .failure (f.renumber k)
  | other => other

/-! ## What does not change -/

section
variable (k : Nat)

theorem Value.renumberAll_eq_map (vs : List Value) :
    Value.renumberAll k vs = vs.map (Value.renumber k) := by
  induction vs with
  | nil => rfl
  | cons v rest ih => rw [Value.renumberAll, ih, List.map_cons]

@[simp]
theorem Value.kind_renumber (v : Value) : (v.renumber k).kind = v.kind := by
  cases v <;> rfl

@[simp]
theorem Value.truthy_renumber (v : Value) : (v.renumber k).truthy = v.truthy := by
  cases v <;> rfl

@[simp]
theorem Native.text_renumber (f : Native) : (f.renumber k).text = f.text := rfl

@[simp]
theorem UserFunction.text_renumber (f : UserFunction) : (f.renumber k).text = f.text := rfl

mutual

/-- What is printed does not change. -/
theorem Value.text_renumber : ∀ v : Value, (v.renumber k).text = v.text
  | .number _ | .boolean _ | .native _ | .user _ => rfl
  | .array elements => by rw [Value.renumber, Value.text, Value.texts_renumberAll, Value.text]

theorem Value.texts_renumberAll : ∀ vs : List Value,
    Value.texts (Value.renumberAll k vs) = Value.texts vs
  | [] => rfl
  | v :: rest => by
    rw [Value.renumberAll, Value.texts, Value.text_renumber, Value.texts_renumberAll, Value.texts]

end

mutual

/-- How deep arrays nest does not change. -/
theorem Value.depth_renumber : ∀ v : Value, (v.renumber k).depth = v.depth
  | .number _ | .boolean _ | .native _ | .user _ => rfl
  | .array elements => by
    rw [Value.renumber, Value.depth, Value.greatestDepth_renumberAll, Value.depth]

theorem Value.greatestDepth_renumberAll : ∀ vs : List Value,
    Value.greatestDepth (Value.renumberAll k vs) = Value.greatestDepth vs
  | [] => rfl
  | v :: rest => by
    rw [Value.renumberAll, Value.greatestDepth, Value.depth_renumber,
      Value.greatestDepth_renumberAll, Value.greatestDepth]

end

mutual

/-- Comparisons do not change: identities that are the same, or not, stay so. -/
theorem Value.equals_renumber : ∀ v w : Value, (v.renumber k).equals (w.renumber k) = v.equals w
  | .array vs, .array ws => by
    simp only [Value.renumber, Value.equals, Value.allEqual_renumberAll vs ws]
  | .native f, w => by
    cases w <;> simp [Value.renumber, Value.equals, Native.renumber]
  | .user f, w => by
    cases w <;> simp [Value.renumber, Value.equals, UserFunction.renumber]
  | .number x, w => by
    cases w <;> simp [Value.renumber, Value.equals]
  | .boolean b, w => by
    cases w <;> simp [Value.renumber, Value.equals]
  | .array vs, .number _ | .array vs, .boolean _ | .array vs, .native _ | .array vs, .user _ => by
    simp only [Value.renumber, Value.equals]

theorem Value.allEqual_renumberAll : ∀ vs ws : List Value,
    Value.allEqual (Value.renumberAll k vs) (Value.renumberAll k ws) = Value.allEqual vs ws
  | [], [] | [], _ :: _ | _ :: _, [] => by simp only [Value.renumberAll, Value.allEqual]
  | v :: vs, w :: ws => by
    simp only [Value.renumberAll, Value.allEqual, Value.equals_renumber v w,
      Value.allEqual_renumberAll vs ws]

end

@[simp]
theorem Cause.kind_renumber (cause : Cause) : (cause.renumber k).kind = cause.kind := by
  cases cause <;> rfl

@[simp]
theorem Cause.detail_renumber (cause : Cause) : (cause.renumber k).detail = cause.detail := by
  cases cause <;> rfl

/-- Renumbered bindings show renumbered values. -/
theorem Bindings.get?_renumber (bindings : Bindings) (name : String) :
    (Bindings.renumber k bindings).get? name = (bindings.get? name).map (Value.renumber k) := by
  induction bindings with
  | nil => rfl
  | cons entry rest ih =>
    obtain ⟨key, held⟩ := entry
    rw [get?] at ih ⊢
    by_cases h : name = key
    · simp [renumber, get?, h]
    · simpa [renumber, get?, List.lookup_cons, beq_eq_false_iff_ne.mpr h] using ih

@[simp]
theorem Bindings.names_renumber (bindings : Bindings) :
    (Bindings.renumber k bindings).names = bindings.names := by
  simp [renumber, names, Function.comp_def]

theorem Bindings.renumber_put (bindings : Bindings) (name : String) (value : Value) :
    Bindings.renumber k (bindings.put name value) =
      (Bindings.renumber k bindings).put name (value.renumber k) := by
  induction bindings with
  | nil => rfl
  | cons entry rest ih =>
    obtain ⟨key, held⟩ := entry
    by_cases h : key = name
    · simp [put, renumber, h]
    · simpa [put, renumber, h] using ih

/-- The frame of a call with renumbered arguments. -/
theorem Bindings.renumber_ofPairs_zip (params : List String) (args : List Value) :
    Bindings.renumber k (Bindings.ofPairs (params.zip args)) =
      Bindings.ofPairs (params.zip (args.map (Value.renumber k))) := by
  rw [List.zip_map_right, ofPairs, ofPairs, List.foldl_map]
  refine (List.foldl_hom (renumber k) fun bound pair => ?_).symm
  exact (renumber_put k bound pair.1 pair.2).symm

/-- No function is to blame for an argument that is no number. -/
theorem Native.numbers_error_renumber (f : Native) {args : List Value} {cause : Cause}
    (h : f.numbers args = .error cause) : cause.renumber k = cause := by
  induction args with
  | nil => cases h
  | cons v rest ih =>
    cases v with
    | number x =>
      cases hrest : f.numbers rest with
      | error reason =>
        rw [Native.numbers, hrest] at h
        exact ih (hrest.trans h)
      | ok numbers =>
        rw [Native.numbers, hrest] at h
        cases h
    | boolean b => cases h; rfl
    | array elements => cases h; rfl
    | native g => cases h; rfl
    | user g => cases h; rfl

/-- The description of a call does not change. -/
@[simp]
theorem CallRecord.text_renumber (call : CallRecord) : (call.renumber k).text = call.text := by
  have hparam : (call.renumber k).parameterText = call.parameterText := by
    funext param
    have hget : (Bindings.renumber k call.bindings).lookup param =
        (call.bindings.lookup param).map (Value.renumber k) :=
      Bindings.get?_renumber k call.bindings param
    unfold parameterText renumber
    dsimp only
    rw [hget]
    cases call.bindings.lookup param with
    | none => rfl
    | some v => exact congrArg (param ++ "=" ++ ·) (v.text_renumber k)
  unfold text
  rw [hparam]
  rfl

end

/-! ## Stores -/

/-- What is asked of a native function: answers that are numbers, and do not hang on how often it
    has been called. -/
def Value.KeepsToNumbers : Value → Prop
  | .native f => f.IsSteady ∧ f.AnswersNumbers
  | .number _ | .boolean _ | .array _ | .user _ => True

/-- All native functions that can be got out of the value are steady and answer numbers. -/
abbrev Value.Tame (v : Value) : Prop := v.MadeOf Value.KeepsToNumbers

/-- Under each name the second store shows what the first one does, renumbered; and the native
    functions that can be got hold of there are steady and answer numbers. -/
structure Store.Renumbered (k : Nat) (first second : Store) : Prop where
  shows : ∀ name, second.get? name = (first.get? name).map (Value.renumber k)
  stays : ∀ name v, first.get? name = some v → v.Tame

/-- Inside a call of a function, and of the same function renumbered, with such arguments. -/
theorem Store.Renumbered.entered {k : Nat} {first second : Store} (h : first.Renumbered k second)
    (f : UserFunction) {args : List Value} (hargs : ∀ v ∈ args, v.Tame) :
    (first.entered f args).Renumbered k
      (second.entered (f.renumber k) (args.map (Value.renumber k))) := by
  have hparams (name : String) :
      FlatMap.overwrite (fun _ => none) (f.params.zip (args.map (Value.renumber k))) name =
        (FlatMap.overwrite (fun _ => none) (f.params.zip args) name).map (Value.renumber k) := by
    rw [← Bindings.ofPairs_get?, ← Bindings.ofPairs_get?, ← Bindings.renumber_ofPairs_zip,
      Bindings.get?_renumber]
  constructor
  · intro name
    rw [get?_entered, get?_entered, FlatMap.overwrite_apply, FlatMap.overwrite_apply _ first.get?]
    show (FlatMap.overwrite _ (f.params.zip _) name).or _ = _
    rw [hparams, h.shows]
    cases FlatMap.overwrite (fun _ => none) (f.params.zip args) name <;> rfl
  · intro name v hv
    rw [get?_entered, FlatMap.overwrite_apply] at hv
    cases hparam : FlatMap.overwrite (fun _ => none) (f.params.zip args) name with
    | some w =>
      rw [hparam] at hv
      obtain rfl : w = v := Option.some.inj hv
      exact hargs w (List.of_mem_zip (FlatMap.mem_of_overwrite_empty hparam)).2
    | none =>
      rw [hparam, Option.none_or] at hv
      exact h.stays name v hv

/-! ## Steps that mirror each other -/

/-- The second end is the first one renumbered, where `ren` renumbers values of this type and the
    value is good. -/
inductive EndRenumbered (k : Nat) {α : Type} (ren : α → α) (good : α → Prop) :
    Except Stop α → Except Stop α → Prop
  | value {x : α} (hx : good x) : EndRenumbered k ren good (.ok x) (.ok (ren x))
  | stop (reason : Stop) : EndRenumbered k ren good (.error reason) (.error (reason.renumber k))

theorem EndRenumbered.stop_of_eq {k : Nat} {α : Type} {ren : α → α} {good : α → Prop}
    {reason mirrored : Stop} (h : reason.renumber k = mirrored) :
    EndRenumbered k ren good (.error reason) (.error mirrored) :=
  h ▸ .stop reason

/-- From stores of which one is the other renumbered, the second step ends as the first one does,
    renumbered. -/
def Action.Mirrors (k : Nat) {α : Type} (ren : α → α) (good : α → Prop) (a b : Action α) : Prop :=
  ∀ m₁ m₂ : Machine, m₁.store.Renumbered k m₂.store →
    EndRenumbered k ren good (a m₁).1 (b m₂).1

/-- Nothing is asked of a value. -/
abbrev anyValue {α : Type} : α → Prop := fun _ => True

namespace Action.Mirrors

variable {k : Nat} {α β : Type} {ren : α → α} {good : α → Prop} {renNext : β → β}
  {goodNext : β → Prop}

theorem pure {x : α} (hx : good x) : Mirrors k ren good (Pure.pure x) (Pure.pure (ren x)) :=
  fun _ _ _ => .value hx

theorem stop (reason : Stop) :
    Mirrors k ren good (Action.stop reason) (Action.stop (reason.renumber k)) :=
  fun _ _ _ => .stop reason

theorem fail (cause : Cause) :
    Mirrors k ren good (Action.fail cause) (Action.fail (cause.renumber k)) := stop _

/-- Sequencing: the first steps have kept both stores. -/
theorem bind {a b : Action α} {next nextMirror : α → Action β} (hkeepsFirst : a.Keeps)
    (hkeepsSecond : b.Keeps) (hmirrors : Mirrors k ren good a b)
    (hnext : ∀ x, good x → Mirrors k renNext goodNext (next x) (nextMirror (ren x))) :
    Mirrors k renNext goodNext (a >>= next) (b >>= nextMirror) := by
  intro m₁ m₂ h
  have hends := hmirrors m₁ m₂ h
  rcases hrun₁ : a m₁ with ⟨result₁, m₁'⟩
  rcases hrun₂ : b m₂ with ⟨result₂, m₂'⟩
  rw [hrun₁, hrun₂] at hends
  cases hends with
  | value hx =>
    rw [bind_apply_ok hrun₁, bind_apply_ok hrun₂]
    have hstores : m₁'.store.Renumbered k m₂'.store := by
      rw [hkeepsFirst.store_eq_of_run hrun₁, hkeepsSecond.store_eq_of_run hrun₂]
      exact h
    exact hnext _ hx m₁' m₂' hstores
  | stop reason =>
    rw [bind_apply_stop hrun₁, bind_apply_stop hrun₂]
    exact .stop reason

theorem ite {p : Prop} [Decidable p] {a b a' b' : Action α} (h : Mirrors k ren good a b)
    (h' : Mirrors k ren good a' b') :
    Mirrors k ren good (if p then a else a') (if p then b else b') := by
  split
  · exact h
  · exact h'

theorem lookup (name : String) :
    Mirrors k (Value.renumber k) Value.Tame (Machine.lookup name) (Machine.lookup name) := by
  intro m₁ m₂ h
  unfold Machine.lookup Store.lookup
  rw [h.shows]
  cases hget : m₁.store.get? name with
  | some v => exact .value (h.stays name v hget)
  | none => exact .stop (.failure ⟨.notDeclared name, []⟩)

/-- A steady native function gives the same answer, whatever has been noted under its identity; and
    a number has no identity to count on. -/
theorem callNative {f : Native} (hf : (Value.native f).Tame) (args : List Value) :
    Mirrors k (Value.renumber k) Value.Tame (Machine.callNative f args)
      (Machine.callNative (f.renumber k) (args.map (Value.renumber k))) := by
  have hnumbers : (f.renumber k).numbers (args.map (Value.renumber k)) = f.numbers args := by
    induction args with
    | nil => rfl
    | cons v rest ih =>
      cases v with
      | number x => exact congrArg (Except.map (x :: ·)) ih
      | boolean b => rfl
      | array elements => rfl
      | native g => rfl
      | user g => rfl
  intro m₁ m₂ _
  obtain ⟨hsteady, hanswers⟩ : f.IsSteady ∧ f.AnswersNumbers := hf _ rfl .self
  unfold Machine.callNative
  rw [hnumbers]
  cases hargs : f.numbers args with
  | error cause =>
    have hcause : cause.renumber k = cause := f.numbers_error_renumber k hargs
    exact .stop_of_eq (congrArg (fun cause => Stop.failure ⟨cause, []⟩) hcause)
  | ok numbers =>
    have hrun : f.run (m₁.host.callsOf f.identity) (fitTo f.arity numbers) =
        (f.renumber k).run (m₂.host.callsOf (f.renumber k).identity)
          (fitTo (f.renumber k).arity numbers) := hsteady _ _ _
    dsimp only
    rw [← hrun]
    cases hanswer : f.run (m₁.host.callsOf f.identity) (fitTo f.arity numbers) with
    | ok w =>
      obtain ⟨x, rfl⟩ := hanswers _ _ _ hanswer
      exact .value (.number x)
    | error fault => exact .stop (.host fault)

/-- Calls: the frames hold the same arguments, renumbered, and so does the record of a failure. -/
theorem during {f : UserFunction} {args : List Value} {body bodyMirror : Action α}
    (hkeepsFirst : body.Keeps) (hkeepsSecond : bodyMirror.Keeps)
    (hargs : ∀ v ∈ args, v.Tame) (hbody : Mirrors k ren good body bodyMirror) :
    Mirrors k ren good (Machine.during f args body)
      (Machine.during (f.renumber k) (args.map (Value.renumber k)) bodyMirror) := by
  intro m₁ m₂ h
  have hlength : (args.map (Value.renumber k)).length = args.length := List.length_map _
  by_cases hcount : f.params.length = args.length
  · have hcountMirror : (f.renumber k).params.length = (args.map (Value.renumber k)).length :=
      hcount.trans hlength.symm
    rw [during_eq hcount hkeepsFirst, during_eq hcountMirror hkeepsSecond]
    have hends := hbody { m₁ with store := m₁.store.entered f args }
      { m₂ with store := m₂.store.entered (f.renumber k) (args.map (Value.renumber k)) }
      (h.entered f hargs)
    dsimp only
    generalize (body _).1 = result₁ at hends ⊢
    generalize (bodyMirror _).1 = result₂ at hends ⊢
    cases hends with
    | value hx => exact .value hx
    | stop reason =>
      cases reason with
      | failure failure =>
        refine .stop_of_eq (congrArg Stop.failure ?_)
        have hrecord : CallRecord.renumber k ⟨f, Bindings.ofPairs (f.params.zip args)⟩ =
            ⟨f.renumber k, Bindings.ofPairs (f.params.zip (args.map (Value.renumber k)))⟩ :=
          congrArg (CallRecord.mk (f.renumber k)) (Bindings.renumber_ofPairs_zip k f.params args)
        simp only [Failure.renumber, List.map_append, List.map_cons, List.map_nil, hrecord]
        rfl
      | misfit => exact .stop .misfit
      | mismatch => exact .stop .mismatch
      | tooDeep => exact .stop .tooDeep
      | host fault => exact .stop (.host fault)
      | endless => exact .stop .endless
  · have hnone : m₁.store.enter? f args = none := if_neg hcount
    have hnoneMirror : m₂.store.enter? (f.renumber k) (args.map (Value.renumber k)) = none :=
      if_neg fun h => hcount (h.trans hlength)
    unfold Machine.during
    rw [hnone, hnoneMirror]
    exact .stop .mismatch

end Action.Mirrors

/-! ## Expressions and calls mirror themselves -/

section
variable {k : Nat}

theorem numberFor_mirrors (op : String) (v : Value) :
    Action.Mirrors k id anyValue (numberFor op v) (numberFor op (v.renumber k)) := by
  cases v with
  | number x => exact .pure trivial
  | boolean b => exact .fail (.operandType op .boolean)
  | array elements => exact .fail (.operandType op .array)
  | native f => exact .fail (.operandType op .function)
  | user f => exact .fail (.operandType op .function)

theorem pick_mirrors {base : Value} (hbase : base.Tame) (index : Value) :
    Action.Mirrors k (Value.renumber k) Value.Tame (pick base index)
      (pick (base.renumber k) (index.renumber k)) := by
  cases index with
  | number x =>
    cases base with
    | array elements =>
      have hpicked : (Number.natural? x).bind ((elements.map (Value.renumber k))[·]?) =
          ((Number.natural? x).bind (elements[·]?)).map (Value.renumber k) := by
        cases Number.natural? x with
        | none => rfl
        | some position => exact List.getElem?_map
      unfold Value.renumber
      rw [Value.renumberAll_eq_map]
      cases helement : (Number.natural? x).bind (elements[·]?) with
      | none =>
        rw [helement] at hpicked
        rw [pick_array_eq_fail helement, pick_array_eq_fail hpicked, List.length_map]
        exact .fail (.outOfRange x elements.length)
      | some element =>
        rw [helement] at hpicked
        rw [pick_array_eq_pure helement, pick_array_eq_pure hpicked]
        obtain ⟨position, -, hposition⟩ := Option.bind_eq_some_iff.mp helement
        exact .pure (hbase.of_mem (List.mem_of_getElem? hposition))
    | user f => exact .fail (.functionSubscripted f)
    | native f => exact .fail (.notAnArray .function)
    | number y => exact .fail (.notAnArray .number)
    | boolean b => exact .fail (.notAnArray .boolean)
  | boolean b => cases base <;> exact .fail (.subscriptType .boolean)
  | array elements => cases base <;> exact .fail (.subscriptType .array)
  | native f => cases base <;> exact .fail (.subscriptType .function)
  | user f => cases base <;> exact .fail (.subscriptType .function)

/-- How calls have to behave for evaluations to mirror themselves: they keep the machine, and a call
    with everything renumbered mirrors the call. -/
structure Calling.Mirrors (call : Calling) (k : Nat) : Prop where
  keeps : ∀ f args, (call f args).Keeps
  mirrors : ∀ f args, (∀ v ∈ args, v.Tame) →
    Action.Mirrors k (Value.renumber k) Value.Tame (call f args)
      (call (f.renumber k) (args.map (Value.renumber k)))

variable {call : Calling}

mutual

/-- An expression mirrors itself if the calls in it do. -/
theorem Expr.evalWith_mirrors (hcall : call.Mirrors k) : ∀ e : Expr,
    Action.Mirrors k (Value.renumber k) Value.Tame (e.evalWith call) (e.evalWith call)
  | .numeral _ x => .pure (.number x)
  | .boolean _ b => .pure (.boolean b)
  | .name id => .lookup id.spelling
  | .unary _ op operand => by
    have hkeeps := evalWith_keeps hcall.keeps operand
    unfold evalWith
    refine .bind hkeeps hkeeps (evalWith_mirrors hcall operand) fun v _ => ?_
    cases UnaryOp.ofSymbol? op with
    | none => exact .fail (.unknownUnary op)
    | some f =>
      cases f with
      | negate =>
        refine .bind (numberFor_keeps op v) (numberFor_keeps op _) (numberFor_mirrors op v) ?_
        exact fun x _ => .pure (.number (-x))
      | not =>
        dsimp only
        rw [Value.truthy_renumber]
        exact .pure (.boolean !v.truthy)
  | .binary _ op left right => by
    have hleft := evalWith_mirrors hcall left
    have hright := evalWith_mirrors hcall right
    have hleftKeeps := evalWith_keeps hcall.keeps left
    have hrightKeeps := evalWith_keeps hcall.keeps right
    have hxKeeps := hleftKeeps.bind (numberFor_keeps op)
    have hyKeeps := hrightKeeps.bind (numberFor_keeps op)
    have hx : Action.Mirrors k id anyValue (left.evalWith call >>= numberFor op)
        (left.evalWith call >>= numberFor op) :=
      .bind hleftKeeps hleftKeeps hleft fun v _ => numberFor_mirrors op v
    have hy : Action.Mirrors k id anyValue (right.evalWith call >>= numberFor op)
        (right.evalWith call >>= numberFor op) :=
      .bind hrightKeeps hrightKeeps hright fun v _ => numberFor_mirrors op v
    unfold evalWith
    cases BinaryOp.ofSymbol? op with
    | none => exact .fail (.unknownBinary op)
    | some f =>
      cases f with
      | shortcut settledBy =>
        refine .bind hleftKeeps hleftKeeps hleft fun v hv => ?_
        rw [Value.truthy_renumber]
        exact .ite (.pure hv) hright
      | arithmetic f =>
        refine .bind hxKeeps hxKeeps hx fun x _ => .bind hyKeeps hyKeeps hy fun y _ => ?_
        obtain ⟨z, -, hz⟩ := exists_compute f x y
        dsimp only [id]
        rw [hz]
        exact .pure (.number z)
      | relational r =>
        refine .bind hxKeeps hxKeeps hx fun x _ => .bind hyKeeps hyKeeps hy fun y _ => ?_
        exact .pure (.boolean (r.apply x y))
      | equality wanted =>
        refine .bind hleftKeeps hleftKeeps hleft fun v _ => ?_
        refine .bind hrightKeeps hrightKeeps hright fun w _ => ?_
        rw [Value.sharedEquals_eq, Value.sharedEquals_eq, Value.equals_renumber]
        exact .pure (.boolean (v.equals w == wanted))
  | .call _ callee args => by
    have hargs := Expr.evalAllWith_mirrors hcall args
    have hargsKeep := Expr.evalAllWith_keeps hcall.keeps args
    have hkeeps := Action.Keeps.lookup callee.spelling
    unfold evalWith
    refine .bind hkeeps hkeeps (.lookup callee.spelling) fun v hv => ?_
    cases v with
    | native f =>
      exact .bind hargsKeep hargsKeep hargs fun values _ => .callNative hv values
    | user f =>
      refine .ite (.bind hargsKeep hargsKeep hargs fun values hvalues => ?_)
        (.fail (.argumentCount f.name f.params.length args.length))
      exact hcall.mirrors f values hvalues
    | number x => exact .fail (.notAFunction callee.spelling .number)
    | boolean b => exact .fail (.notAFunction callee.spelling .boolean)
    | array elements => exact .fail (.notAFunction callee.spelling .array)
  | .conditional _ test consequent alternate => by
    have hkeeps := evalWith_keeps hcall.keeps test
    unfold evalWith
    refine .bind hkeeps hkeeps (evalWith_mirrors hcall test) fun v _ => ?_
    rw [Value.truthy_renumber]
    exact .ite (evalWith_mirrors hcall consequent) (evalWith_mirrors hcall alternate)
  | .array _ elements => by
    have hkeeps := Expr.evalAllWith_keeps hcall.keeps elements
    unfold evalWith
    refine .bind hkeeps hkeeps (Expr.evalAllWith_mirrors hcall elements) fun values hvalues => ?_
    rw [← Value.renumberAll_eq_map]
    exact .pure (.array hvalues)
  | .subscript _ base index => by
    have hbaseKeeps := evalWith_keeps hcall.keeps base
    have hindexKeeps := evalWith_keeps hcall.keeps index
    unfold evalWith
    refine .bind hbaseKeeps hbaseKeeps (evalWith_mirrors hcall base) fun v hv => ?_
    refine .bind hindexKeeps hindexKeeps (evalWith_mirrors hcall index) fun i _ => ?_
    exact pick_mirrors hv i
  | .nothing | .statement _ | .program _ => .stop .misfit

theorem Expr.evalAllWith_mirrors (hcall : call.Mirrors k) : ∀ es : List Expr,
    Action.Mirrors k (List.map (Value.renumber k)) (fun values => ∀ v ∈ values, v.Tame)
      (Expr.evalAllWith call es) (Expr.evalAllWith call es)
  | [] => .pure (List.forall_mem_nil _)
  | e :: rest => by
    have hkeeps := Expr.evalWith_keeps hcall.keeps e
    have hrestKeeps := Expr.evalAllWith_keeps hcall.keeps rest
    unfold Expr.evalAllWith
    refine .bind hkeeps hkeeps (Expr.evalWith_mirrors hcall e) fun v hv => ?_
    have hrest := Expr.evalAllWith_mirrors hcall rest
    refine .bind hrestKeeps hrestKeeps hrest fun values hvalues => ?_
    exact .pure (List.forall_mem_cons.mpr ⟨hv, hvalues⟩)

end

/-- Calls mirror themselves, however deeply they nest. -/
theorem callWithin_mirrors (depth : Nat) : (callWithin depth).Mirrors k := by
  induction depth with
  | zero => exact ⟨callWithin_keeps 0, fun _ _ _ => .stop .tooDeep⟩
  | succ depth ih =>
    refine ⟨callWithin_keeps (depth + 1), fun f args hargs => ?_⟩
    have hkeeps := f.body.evalWith_keeps ih.keeps
    exact .during hkeeps hkeeps hargs (f.body.evalWith_mirrors ih)

/-- **Every evaluation mirrors itself**: where names show the same values but for the identities of
    functions, it ends with the same value but for these, or stops for the same reason. -/
theorem Expr.evalWithin_mirrors (depth : Nat) (e : Expr) :
    Action.Mirrors k (Value.renumber k) Value.Tame (e.evalWithin depth) (e.evalWithin depth) :=
  e.evalWith_mirrors (callWithin_mirrors depth)

end

end BellaLang
