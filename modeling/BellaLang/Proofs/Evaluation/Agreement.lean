import BellaLang.Proofs.Evaluation.FlatStore
import BellaLang.Proofs.Value.Reach
import Mathlib.Data.Set.Insert

/-!
What of a store an evaluation can notice.

A function captures nothing, and its body may read any name of any caller, so what an expression can
read is not written down in it.  It can be bounded, though: by a set of names that has the names of
the expression in it, and with any function that can be got hold of under its names also the names
of that function's body.  Two evaluations whose stores show the same under those names cannot come
apart:

  1. a value *stays in* a set of names if the functions that are reachable from it, through arrays
     and answers, have no other names in their bodies, and if the native ones are steady
     (`Value.StaysIn`);
  2. two stores *resemble* each other if they show the same values, staying in the set, under the
     names of the set (`Store.Resembles`), and a call with such values keeps them so
     (`Resembles.entered`);
  3. a step is *steady* if from resembling stores it ends alike, with a value that stays in the set
     (`Action.Steady`); this is closed under sequencing and under calls (`Steady.bind`,
     `Steady.during`), so every evaluation is steady (`evalWithin_steady`).

Some names of the set may be excused: the first store shows nothing under them, the second one
whatever it likes.  Then the first run may also fail for want of such a name.

Main statements: `eval_noninterference`, with no name excused, and `eval_after_declare`, where the
set is everything and the name just declared is excused.
-/

namespace BellaLang

open Machine

/-! ## The names of an expression -/

mutual

/-- The names that occur in an expression, those of the functions it calls included. -/
def Expr.names : Expr → List String
  | .numeral _ _ | .boolean _ _ => []
  | .name id => [id.spelling]
  | .unary _ _ operand => operand.names
  | .binary _ _ left right => left.names ++ right.names
  | .call _ callee args => callee.spelling :: Expr.namesOfAll args
  | .conditional _ test consequent alternate => test.names ++ (consequent.names ++ alternate.names)
  | .array _ elements => Expr.namesOfAll elements
  | .subscript _ base index => base.names ++ index.names
  | .nothing | .statement _ | .program _ => []

/-- The names that occur in several expressions. -/
def Expr.namesOfAll : List Expr → List String
  | [] => []
  | e :: rest => e.names ++ Expr.namesOfAll rest

end

/-! ## Values that stay in a set of names -/

/-- What is asked of a function: names in the set, if it has a body, or answers that do not hang on
    how often it has been called. -/
def Value.FitsIn (seen : Set String) : Value → Prop
  | .user f => ∀ name ∈ f.body.names, name ∈ seen
  | .native f => f.IsSteady
  | .number _ | .boolean _ | .array _ => True

/-- Nothing that can be done with a value leads out of a set of names. -/
abbrev Value.StaysIn (v : Value) (seen : Set String) : Prop := v.MadeOf (·.FitsIn seen)

theorem Value.staysIn {seen : Set String} {v : Value}
    (hbodies : ∀ f, (Value.user f).ReachableFrom v → ∀ name ∈ f.body.names, name ∈ seen)
    (hpure : ∀ f, (Value.native f).AppearsIn v → f.IsPure) : v.StaysIn seen := by
  intro f hf hreachable
  cases f with
  | user f => exact hbodies f hreachable
  | native f => exact hreachable.isSteady hpure
  | number x => cases hf
  | boolean b => cases hf
  | array elements => cases hf

/-! ## Stores that resemble each other -/

/-- Under the names that are seen, the second store shows what the first one does, unless the name
    is excused and the first store shows nothing; and what the first one shows stays in the set. -/
structure Store.Resembles (first second : Store) (seen excused : Set String) : Prop where
  shows : ∀ name ∈ seen, second.get? name = first.get? name ∨
    (name ∈ excused ∧ first.get? name = none)
  stays : ∀ name ∈ seen, ∀ v, first.get? name = some v → v.StaysIn seen

/-- Inside a call of one function with the same arguments, stores go on resembling each other: a
    parameter shows its argument in both, whatever it hides. -/
theorem Store.Resembles.entered {first second : Store} {seen excused : Set String}
    (h : first.Resembles second seen excused) (f : UserFunction) {args : List Value}
    (hargs : ∀ v ∈ args, v.StaysIn seen) :
    (first.entered f args).Resembles (second.entered f args) seen excused := by
  constructor
  · intro name hname
    rw [get?_entered, get?_entered, FlatMap.overwrite_apply, FlatMap.overwrite_apply _ first.get?]
    cases FlatMap.overwrite (fun _ => none) (f.params.zip args) name with
    | some v => exact .inl rfl
    | none => exact h.shows name hname
  · intro name hname v hv
    rw [get?_entered, FlatMap.overwrite_apply] at hv
    cases hparam : FlatMap.overwrite (fun _ => none) (f.params.zip args) name with
    | some w =>
      rw [hparam] at hv
      have hw : w = v := Option.some.inj hv
      have hmem : (name, w) ∈ f.params.zip args := FlatMap.mem_of_overwrite_empty hparam
      rw [← hw]
      exact hargs w (List.of_mem_zip hmem).2
    | none =>
      rw [hparam, Option.none_or] at hv
      exact h.stays name hname v hv

/-! ## Steady steps -/

/-- Two runs end alike: with the same value, which is good, or with the same stop; or the first one
    fails for want of an excused name. -/
inductive EndAlike {α : Type} (excused : Set String) (good : α → Prop) :
    Except Stop α → Except Stop α → Prop
  | value {x : α} (hx : good x) : EndAlike excused good (.ok x) (.ok x)
  | stop (reason : Stop) : EndAlike excused good (.error reason) (.error reason)
  | wanting {name : String} (hname : name ∈ excused) (calls : List CallRecord)
      (other : Except Stop α) :
    EndAlike excused good (.error (.failure ⟨.notDeclared name, calls⟩)) other

/-- A step that ends alike on any two machines with resembling stores, whatever else they hold. -/
def Action.Steady {α : Type} (seen excused : Set String) (good : α → Prop) (a : Action α) : Prop :=
  ∀ m₁ m₂ : Machine, m₁.store.Resembles m₂.store seen excused →
    EndAlike excused good (a m₁).1 (a m₂).1

namespace Action.Steady

variable {α β : Type} {seen excused : Set String} {good : α → Prop} {goodNext : β → Prop}

theorem pure {x : α} (hx : good x) : Steady seen excused good (Pure.pure x) :=
  fun _ _ _ => .value hx

theorem stop (reason : Stop) : Steady seen excused good (Action.stop reason) :=
  fun _ _ _ => .stop reason

theorem fail (cause : Cause) : Steady seen excused good (Action.fail cause) := stop _

/-- Sequencing: the first step has kept both stores, so the second one starts from stores that
    resemble each other still. -/
theorem bind {a : Action α} {next : α → Action β} (hkeeps : a.Keeps)
    (ha : Steady seen excused good a)
    (hnext : ∀ x, good x → Steady seen excused goodNext (next x)) :
    Steady seen excused goodNext (a >>= next) := by
  intro m₁ m₂ h
  have hends := ha m₁ m₂ h
  rcases hrun₁ : a m₁ with ⟨result₁, m₁'⟩
  rcases hrun₂ : a m₂ with ⟨result₂, m₂'⟩
  rw [hrun₁, hrun₂] at hends
  cases hends with
  | value hx =>
    rw [bind_apply_ok hrun₁, bind_apply_ok hrun₂]
    have hstores : m₁'.store.Resembles m₂'.store seen excused := by
      rw [hkeeps.store_eq_of_run hrun₁, hkeeps.store_eq_of_run hrun₂]
      exact h
    exact hnext _ hx m₁' m₂' hstores
  | stop reason =>
    rw [bind_apply_stop hrun₁, bind_apply_stop hrun₂]
    exact .stop reason
  | wanting hname calls other =>
    rw [bind_apply_stop hrun₁]
    exact .wanting hname calls _

theorem ite {p : Prop} [Decidable p] {a b : Action α} (ha : Steady seen excused good a)
    (hb : Steady seen excused good b) : Steady seen excused good (if p then a else b) := by
  split
  · exact ha
  · exact hb

theorem lookup {name : String} (hname : name ∈ seen) :
    Steady seen excused (·.StaysIn seen) (Machine.lookup name) := by
  intro m₁ m₂ h
  unfold Machine.lookup Store.lookup
  rcases h.shows name hname with hsame | ⟨hexcused, hnone⟩
  · rw [hsame]
    cases hget : m₁.store.get? name with
    | some v => exact .value (h.stays name hname v hget)
    | none => exact .stop _
  · rw [hnone]
    exact .wanting hexcused [] _

theorem ofHost {result : Except HostFault α} (hresult : ∀ x, result = .ok x → good x) :
    Steady seen excused good (Action.ofHost result) := by
  cases result with
  | ok x => exact pure (hresult x rfl)
  | error fault => exact stop (.host fault)

/-- A steady native function answers alike on both sides, however often it has been called. -/
theorem callNative {f : Native} (hf : (Value.native f).StaysIn seen) (args : List Value) :
    Steady seen excused (·.StaysIn seen) (Machine.callNative f args) := by
  have hsteady : f.IsSteady := hf _ rfl .self
  intro m₁ m₂ h
  unfold Machine.callNative
  cases f.numbers args with
  | error cause => exact .stop _
  | ok numbers =>
    dsimp only
    rw [hsteady _ (m₂.host.callsOf f.identity)]
    have hanswer := @ofHost Value seen excused (·.StaysIn seen)
      (f.run (m₂.host.callsOf f.identity) (fitTo f.arity numbers)) fun v hrun => hf.answer hrun
    exact hanswer { m₁ with host := m₁.host.note f.identity }
      { m₂ with host := m₂.host.note f.identity } h

/-- Calls: both sides enter the same frame, and a failure takes down the same record. -/
theorem during {f : UserFunction} {args : List Value} {body : Action α} (hkeeps : body.Keeps)
    (hargs : ∀ v ∈ args, v.StaysIn seen) (hbody : Steady seen excused good body) :
    Steady seen excused good (Machine.during f args body) := by
  intro m₁ m₂ h
  by_cases hcount : f.params.length = args.length
  · rw [during_eq hcount hkeeps, during_eq hcount hkeeps]
    have hends := hbody { m₁ with store := m₁.store.entered f args }
      { m₂ with store := m₂.store.entered f args } (h.entered f hargs)
    dsimp only
    generalize (body { m₁ with store := m₁.store.entered f args }).1 = result₁ at hends ⊢
    generalize (body { m₂ with store := m₂.store.entered f args }).1 = result₂ at hends ⊢
    cases hends with
    | value hx => exact .value hx
    | stop reason => cases reason <;> exact .stop _
    | wanting hname calls other => exact .wanting hname _ _
  · have hnone : ∀ m : Machine, m.store.enter? f args = none := fun m => if_neg hcount
    unfold Machine.during
    rw [hnone, hnone]
    exact .stop .mismatch

end Action.Steady

/-! ## Expressions and calls are steady -/

section
variable {seen excused : Set String}

theorem numberFor_steady (op : String) (v : Value) :
    (numberFor op v).Steady seen excused fun _ => True := by
  cases v with
  | number x => exact .pure trivial
  | boolean _ | array _ | native _ | user _ => exact .fail _

theorem pick_steady {base : Value} (hbase : base.StaysIn seen) (index : Value) :
    (pick base index).Steady seen excused (·.StaysIn seen) := by
  rcases pick_cases base index with ⟨elements, element, rfl, hmem, hpick⟩ | ⟨cause, -, hpick⟩
  · rw [hpick]
    exact .pure (hbase.of_mem hmem)
  · rw [hpick]
    exact .fail cause

/-- How calls have to behave for an evaluation to be steady: they keep the machine, and calling a
    function whose body stays in the set, with such arguments, is steady. -/
structure Calling.Steady (call : Calling) (seen excused : Set String) : Prop where
  keeps : ∀ f args, (call f args).Keeps
  steady : ∀ f args, (∀ name ∈ f.body.names, name ∈ seen) → (∀ v ∈ args, v.StaysIn seen) →
    (call f args).Steady seen excused (·.StaysIn seen)

variable {call : Calling}

mutual

/-- An expression with names in the set is steady if the calls in it are. -/
theorem Expr.evalWith_steady (hcall : call.Steady seen excused) :
    ∀ e : Expr, (∀ name ∈ e.names, name ∈ seen) →
      (e.evalWith call).Steady seen excused (·.StaysIn seen)
  | .numeral _ x, _ => .pure (.number x)
  | .boolean _ b, _ => .pure (.boolean b)
  | .name id, hnames => .lookup (hnames _ List.mem_cons_self)
  | .unary _ op operand, hnames => by
    unfold evalWith
    refine .bind (evalWith_keeps hcall.keeps operand) (evalWith_steady hcall operand hnames) ?_
    intro v _
    cases UnaryOp.ofSymbol? op with
    | none => exact .fail _
    | some f =>
      cases f with
      | negate =>
        exact .bind (numberFor_keeps op v) (numberFor_steady op v) fun x _ => .pure (.number _)
      | not => exact .pure (.boolean _)
  | .binary _ op left right, hnames => by
    unfold names at hnames
    have hleft := evalWith_steady hcall left fun name h => hnames name (List.mem_append_left _ h)
    have hright := evalWith_steady hcall right fun name h => hnames name (List.mem_append_right _ h)
    have hleftKeeps := evalWith_keeps hcall.keeps left
    have hrightKeeps := evalWith_keeps hcall.keeps right
    have hx : (left.evalWith call >>= numberFor op).Steady seen excused fun _ => True :=
      .bind hleftKeeps hleft fun v _ => numberFor_steady op v
    have hy : (right.evalWith call >>= numberFor op).Steady seen excused fun _ => True :=
      .bind hrightKeeps hright fun v _ => numberFor_steady op v
    unfold evalWith
    cases BinaryOp.ofSymbol? op with
    | none => exact .fail _
    | some f =>
      cases f with
      | shortcut settledBy => exact .bind hleftKeeps hleft fun v hv => .ite (.pure hv) hright
      | arithmetic f =>
        refine .bind (hleftKeeps.bind (numberFor_keeps op)) hx fun x _ => ?_
        refine .bind (hrightKeeps.bind (numberFor_keeps op)) hy fun y _ => ?_
        obtain ⟨z, -, hz⟩ := exists_compute f x y
        rw [hz]
        exact .pure (.number z)
      | relational r =>
        refine .bind (hleftKeeps.bind (numberFor_keeps op)) hx fun x _ => ?_
        exact .bind (hrightKeeps.bind (numberFor_keeps op)) hy fun y _ => .pure (.boolean _)
      | equality wanted =>
        exact .bind hleftKeeps hleft fun v _ => .bind hrightKeeps hright fun w _ =>
          .pure (.boolean _)
  | .call _ callee args, hnames => by
    have hargs := Expr.evalAllWith_steady hcall args fun name h =>
      hnames name (List.mem_cons_of_mem _ h)
    have hargsKeep := Expr.evalAllWith_keeps hcall.keeps args
    unfold evalWith
    refine .bind (Action.Keeps.lookup _) (.lookup (hnames _ List.mem_cons_self)) ?_
    intro v hv
    cases v with
    | native f =>
      exact .bind hargsKeep hargs fun values _ => .callNative hv values
    | user f =>
      refine .ite (.bind hargsKeep hargs fun values hvalues => ?_) (.fail _)
      exact hcall.steady f values (hv _ rfl .self) hvalues
    | number x => exact .fail _
    | boolean b => exact .fail _
    | array elements => exact .fail _
  | .conditional _ test consequent alternate, hnames => by
    unfold names at hnames
    have htest := evalWith_steady hcall test fun name h => hnames name (List.mem_append_left _ h)
    have hbranches := fun name h => hnames name (List.mem_append_right _ h)
    unfold evalWith
    refine .bind (evalWith_keeps hcall.keeps test) htest fun v _ => .ite ?_ ?_
    · exact evalWith_steady hcall consequent fun name h => hbranches name (List.mem_append_left _ h)
    · exact evalWith_steady hcall alternate fun name h => hbranches name (List.mem_append_right _ h)
  | .array _ elements, hnames => by
    unfold evalWith
    exact .bind (Expr.evalAllWith_keeps hcall.keeps elements)
      (Expr.evalAllWith_steady hcall elements hnames) fun values hvalues => .pure (.array hvalues)
  | .subscript _ base index, hnames => by
    unfold names at hnames
    have hbase := evalWith_steady hcall base fun name h => hnames name (List.mem_append_left _ h)
    have hindex := evalWith_steady hcall index fun name h => hnames name (List.mem_append_right _ h)
    unfold evalWith
    refine .bind (evalWith_keeps hcall.keeps base) hbase fun v hv => ?_
    exact .bind (evalWith_keeps hcall.keeps index) hindex fun i _ => pick_steady hv i
  | .nothing, _ | .statement _, _ | .program _, _ => .stop _

theorem Expr.evalAllWith_steady (hcall : call.Steady seen excused) :
    ∀ es : List Expr, (∀ name ∈ Expr.namesOfAll es, name ∈ seen) →
      (Expr.evalAllWith call es).Steady seen excused fun values => ∀ v ∈ values, v.StaysIn seen
  | [], _ => .pure fun v h => nomatch h
  | e :: rest, hnames => by
    unfold Expr.namesOfAll at hnames
    have he := Expr.evalWith_steady hcall e fun name h => hnames name (List.mem_append_left _ h)
    have hrest := Expr.evalAllWith_steady hcall rest fun name h =>
      hnames name (List.mem_append_right _ h)
    unfold Expr.evalAllWith
    refine .bind (Expr.evalWith_keeps hcall.keeps e) he fun v hv => ?_
    refine .bind (Expr.evalAllWith_keeps hcall.keeps rest) hrest fun values hvalues => ?_
    exact .pure fun w hw => (List.mem_cons.mp hw).elim (fun h => h ▸ hv) (hvalues w)

end

/-- Calls are steady, however deeply they nest. -/
theorem callWithin_steady (depth : Nat) : (callWithin depth).Steady seen excused := by
  induction depth with
  | zero => exact ⟨callWithin_keeps 0, fun _ _ _ _ => .stop _⟩
  | succ depth ih =>
    refine ⟨callWithin_keeps (depth + 1), fun f args hbody hargs => ?_⟩
    exact .during (f.body.evalWith_keeps ih.keeps) hargs (f.body.evalWith_steady ih hbody)

theorem Expr.evalWithin_steady (depth : Nat) {e : Expr} (hnames : ∀ name ∈ e.names, name ∈ seen) :
    (e.evalWithin depth).Steady seen excused (·.StaysIn seen) :=
  e.evalWith_steady (callWithin_steady depth) hnames

end

/-! ## What cannot be noticed -/

/-- Two runs that end alike with no name excused have the same outcome. -/
theorem EndAlike.eq_of_empty {α : Type} {good : α → Prop} {first second : Except Stop α}
    (h : EndAlike ∅ good first second) : first = second := by
  cases h with
  | value hx => rfl
  | stop reason => rfl
  | wanting hname calls other => exact absurd hname (Set.notMem_empty _)

/-- **Noninterference.**  Let a set of names have the names of an expression in it, and with every
    user function that can be got out of what the set shows, through arrays and through answers of
    native functions, the names of its body; let the native functions that appear there be pure.  If
    two machines show the same under the names of the set, the expression has one and the same
    outcome on both: the same value, or a failure with the same cause and the same calls, or no end
    of nested calls.  Nothing else matters: other names, hidden bindings, the frames that bindings
    are in, how many calls are in progress, what was printed. -/
theorem eval_noninterference (seen : Set String) (e : Expr) (m₁ m₂ : Machine)
    (hnames : ∀ name ∈ e.names, name ∈ seen)
    (hsame : ∀ name ∈ seen, m₁.store.get? name = m₂.store.get? name)
    (hbodies : ∀ name ∈ seen, ∀ v, m₁.store.get? name = some v →
      ∀ f, (Value.user f).ReachableFrom v → ∀ inner ∈ f.body.names, inner ∈ seen)
    (hpure : ∀ name ∈ seen, ∀ v, m₁.store.get? name = some v →
      ∀ f, (Value.native f).AppearsIn v → f.IsPure) :
    (∀ depth, (e.evalWithin depth m₁).1 = (e.evalWithin depth m₂).1) ∧
      ((∀ depth, (e.evalWithin depth m₁).1 = .error .tooDeep) ↔
        ∀ depth, (e.evalWithin depth m₂).1 = .error .tooDeep) := by
  have hstores : m₁.store.Resembles m₂.store seen ∅ :=
    ⟨fun name hname => .inl (hsame name hname).symm,
     fun name hname v hv => Value.staysIn (hbodies name hname v hv) (hpure name hname v hv)⟩
  have hsteady (depth : Nat) : (e.evalWithin depth).Steady seen ∅ (·.StaysIn seen) :=
    Expr.evalWithin_steady depth hnames
  have houtcome (depth : Nat) : (e.evalWithin depth m₁).1 = (e.evalWithin depth m₂).1 :=
    (hsteady depth m₁ m₂ hstores).eq_of_empty
  refine ⟨houtcome, ?_⟩
  simp only [houtcome]

/-- A function whose body reads its parameter, and a name that it leaves to its callers. -/
def addRate : UserFunction where
  identity := 7
  name := "f"
  params := ["x"]
  body := .binary none "+" (.name ⟨"x", none⟩) (.name ⟨"rate", none⟩)

/-- The same function and the same rate, once among the globals, and once in the frame of a call
    that hides another rate. -/
theorem eval_noninterference_addRate :
    let e : Expr := .call none ⟨"f", none⟩ [.numeral none 2]
    let seen : Set String := {"f", "x", "rate"}
    let m₁ : Machine := ⟨⟨#[⟨[("f", .user addRate), ("rate", .number 3), ("secret", .number 4)],
      none⟩], [0]⟩, #[], #[], none, .fresh⟩
    let m₂ : Machine := ⟨⟨#[⟨[("rate", .boolean true)], none⟩,
      ⟨[("rate", .number 3), ("f", .user addRate)], some addRate⟩], [1, 0]⟩, #["1"], #[], none,
      .fresh⟩
    (∀ name ∈ e.names, name ∈ seen) ∧
      (∀ name ∈ seen, m₁.store.get? name = m₂.store.get? name) ∧
      (∀ depth, (e.evalWithin depth m₁).1 = (e.evalWithin depth m₂).1) ∧
      (e.eval m₂).1.toOption.isSome := by
  intro e seen m₁ m₂
  have hnames : ∀ name ∈ e.names, name ∈ seen := by
    intro name h
    exact .inl (List.mem_singleton.mp h)
  have hsame : ∀ name ∈ seen, m₁.store.get? name = m₂.store.get? name := by
    rintro name (rfl | rfl | rfl) <;> rfl
  have hshows : ∀ name ∈ seen, ∀ v, m₁.store.get? name = some v →
      v = .user addRate ∨ v = .number 3 := by
    rintro name (rfl | rfl | rfl) v hv
    · exact .inl (Option.some.inj hv).symm
    · cases hv
    · exact .inr (Option.some.inj hv).symm
  have hbodies : ∀ name ∈ seen, ∀ v, m₁.store.get? name = some v →
      ∀ f, (Value.user f).ReachableFrom v → ∀ inner ∈ f.body.names, inner ∈ seen := by
    intro name hname v hv f hf inner hinner
    rcases hshows name hname v hv with rfl | rfl <;> cases hf
    have hinner : inner ∈ ["x", "rate"] := hinner
    exact .inr (by simpa using hinner)
  have hpure : ∀ name ∈ seen, ∀ v, m₁.store.get? name = some v →
      ∀ f, (Value.native f).AppearsIn v → f.IsPure := by
    intro name hname v hv f hf
    rcases hshows name hname v hv with rfl | rfl <;> cases hf
  have hagree := eval_noninterference seen e m₁ m₂ hnames hsame hbodies hpure
  exact ⟨hnames, hsame, hagree.1, by decide +kernel⟩

/-- A function that reads a name which it leaves to its callers. -/
def readSecret : UserFunction := ⟨9, "g", [], .name ⟨"secret", none⟩⟩

/-- A native function that answers this function. -/
def handOut : Native := ⟨10, "n", 0, fun _ _ => .ok (.user readSecret)⟩

/-- A function that calls what it is given. -/
def callGiven : UserFunction := ⟨11, "f", ["x"], .call none ⟨"x", none⟩ []⟩

theorem handOut_isPure : handOut.IsPure := by
  intro g hreachable
  cases hreachable with
  | self => exact fun _ _ _ => rfl
  | answer hrun hreachable =>
    obtain rfl := Except.ok.inj hrun
    cases hreachable

/-- **What appears under the names is not enough, and neither is equality.**  Two machines can show
    the same under a set of names that has the names of all user functions which appear there, and
    yet differ in the value of an expression: a native function, pure as it is, answers a function
    whose body has a name outside the set.  And where the values that two machines show are equal,
    but not the same, a division tells the zeros apart. -/
theorem eval_interferes :
    (let e : Expr := .call none ⟨"f", none⟩ [.call none ⟨"n", none⟩ []]
     let seen : Set String := {"f", "n", "x"}
     let m (secret : Bool) : Machine := ⟨⟨#[⟨[("f", .user callGiven), ("n", .native handOut),
       ("secret", .boolean secret)], none⟩], [0]⟩, #[], #[], none, .fresh⟩
     (∀ name ∈ e.names, name ∈ seen) ∧
       (∀ name ∈ seen, (m true).store.get? name = (m false).store.get? name) ∧
       (∀ name ∈ seen, ∀ v, (m true).store.get? name = some v →
         ∀ f, (Value.user f).AppearsIn v → ∀ inner ∈ f.body.names, inner ∈ seen) ∧
       (∀ name ∈ seen, ∀ v, (m true).store.get? name = some v →
         ∀ f, (Value.native f).AppearsIn v → f.IsPure) ∧
       (e.eval (m true)).1 = .ok (.boolean true) ∧ (e.eval (m false)).1 = .ok (.boolean false)) ∧
    (let e : Expr := .binary none "/" (.numeral none 1) (.name ⟨"x", none⟩)
     let seen : Set String := {"x"}
     let m (x : Float) : Machine := ⟨⟨#[⟨[("x", .number x)], none⟩], [0]⟩, #[], #[], none, .fresh⟩
     (∀ name ∈ e.names, name ∈ seen) ∧
       (∀ name ∈ seen, ∃ v w, (m 0).store.get? name = some v ∧
         (m (-0.0)).store.get? name = some w ∧ v.equals w = true) ∧
       (∀ name ∈ seen, ∀ v, (m 0).store.get? name = some v → v.kind ≠ .function) ∧
       ∃ v w, (e.eval (m 0)).1 = .ok v ∧ (e.eval (m (-0.0))).1 = .ok w ∧ v.equals w = false) := by
  constructor
  · intro e seen m
    have hshows : ∀ name ∈ seen, ∀ v, (m true).store.get? name = some v →
        v = .user callGiven ∨ v = .native handOut := by
      rintro name (rfl | rfl | rfl) v hv
      · exact .inl (Option.some.inj hv).symm
      · exact .inr (Option.some.inj hv).symm
      · cases hv
    refine ⟨?_, ?_, ?_, ?_, rfl, rfl⟩
    · intro name h
      have h : name ∈ ["f", "n"] := h
      simp only [List.mem_cons, List.not_mem_nil, or_false] at h
      exact h.imp_right .inl
    · rintro name (rfl | rfl | rfl) <;> rfl
    · intro name hname v hv f hf inner hinner
      rcases hshows name hname v hv with rfl | rfl <;> cases hf
      exact .inr (.inr (List.mem_singleton.mp hinner))
    · intro name hname v hv f hf
      rcases hshows name hname v hv with rfl | rfl <;> cases hf
      exact handOut_isPure
  · intro e seen m
    refine ⟨?_, ?_, ?_, ?_⟩
    · intro name h
      exact List.mem_singleton.mp h
    · rintro name rfl
      exact ⟨.number 0, .number (-0.0), rfl, rfl, by decide +kernel⟩
    · rintro name rfl v hv
      obtain rfl := Option.some.inj hv
      exact nofun
    · have hvalue (x : Float) :
          ∃ z, Number.divide 1 x = .ok z ∧ (e.eval (m x)).1 = .ok (.number z) := by
        obtain ⟨z, hz, hcompute⟩ := exists_compute .divide 1 x
        have heval : (e.eval (m x)).1 = (compute .divide 1 x (m x)).1 := rfl
        rw [hcompute] at heval
        exact ⟨z, hz, heval⟩
      obtain ⟨y, hy, hfirst⟩ := hvalue 0
      obtain ⟨z, hz, hsecond⟩ := hvalue (-0.0)
      have hquotients : (Number.divide 1 0).toOption = some Number.infinity ∧
          (Number.divide 1 (-0.0)).toOption = some (-Number.infinity) := by decide +kernel
      rw [hy, hz] at hquotients
      obtain rfl := Option.some.inj hquotients.1
      obtain rfl := Option.some.inj hquotients.2
      exact ⟨_, _, hfirst, hsecond, by decide +kernel⟩

/-- **New names change nothing that worked.**  Let a name be visible in no frame of a machine, whose
    native functions are pure.  Then it can be declared with any value, and afterwards every
    expression has the outcome that it had before, whether a value, a failure with its cause and its
    calls, or another stop, unless it had failed for want of that very name. -/
theorem eval_after_declare (e : Expr) (m : Machine) (name : String) (value : Value)
    (hnew : ∀ id ∈ m.store.chain, (m.store.bindingsOf id).holds name = false)
    (hpure : ∀ other v, m.store.get? other = some v →
      ∀ f, (Value.native f).AppearsIn v → f.IsPure) :
    ∃ declared, m.store.declare name value = .ok declared ∧
      ∀ m' : Machine, m'.store = declared → ∀ depth,
        (∀ calls, (e.evalWithin depth m).1 ≠ .error (.failure ⟨.notDeclared name, calls⟩)) →
        (e.evalWithin depth m').1 = (e.evalWithin depth m).1 := by
  have hholder : m.store.holder? name = none :=
    List.find?_eq_none.mpr fun id hid => by simp [hnew id hid]
  have hget : m.store.get? name = none := by rw [Store.get?, hholder]; rfl
  have hcontains : m.store.contains name = false := by rw [Store.contains, hholder]; rfl
  obtain ⟨declared, hdeclared⟩ : ∃ declared, m.store.declare name value = .ok declared := by
    rw [Store.declare, hcontains]
    exact ⟨_, rfl⟩
  refine ⟨declared, hdeclared, fun m' hm' depth hfails => ?_⟩
  have hstores : m.store.Resembles m'.store Set.univ {name} := by
    constructor
    · intro other _
      by_cases hother : other = name
      · exact .inr ⟨hother, by rw [hother, hget]⟩
      · exact .inl (by rw [hm', Store.get?_declare_of_ne hdeclared hother])
    · exact fun other _ v hv => Value.staysIn (fun _ _ _ _ => Set.mem_univ _) (hpure other v hv)
  have hnames : ∀ other ∈ e.names, other ∈ Set.univ := fun other _ => Set.mem_univ other
  have hends := Expr.evalWithin_steady depth hnames m m' hstores
  generalize (e.evalWithin depth m).1 = before at hends hfails ⊢
  generalize (e.evalWithin depth m').1 = after at hends ⊢
  cases hends with
  | value hx => rfl
  | stop reason => rfl
  | wanting hname calls other =>
    have hname := Set.mem_singleton_iff.mp hname
    exact absurd (by rw [hname]) (hfails calls)

/-- Inside the call, the parameter hides the name that has been declared outside. -/
theorem eval_after_declare_addRate :
    let e : Expr := .call none ⟨"f", none⟩ [.numeral none 2]
    let m : Machine := ⟨⟨#[⟨[("f", .user addRate), ("rate", .number 3)], none⟩], [0]⟩, #[], #[],
      none, .fresh⟩
    (∀ id ∈ m.store.chain, (m.store.bindingsOf id).holds "x" = false) ∧
      (∀ other v, m.store.get? other = some v → ∀ f, (Value.native f).AppearsIn v → f.IsPure) ∧
      ∃ declared, m.store.declare "x" (.array []) = .ok declared ∧
        ∀ m' : Machine, m'.store = declared → ∀ depth,
          (∀ calls, (e.evalWithin depth m).1 ≠ .error (.failure ⟨.notDeclared "x", calls⟩)) →
          (e.evalWithin depth m').1 = (e.evalWithin depth m).1 := by
  intro e m
  have hnew : ∀ id ∈ m.store.chain, (m.store.bindingsOf id).holds "x" = false := by decide
  have hpure : ∀ other v, m.store.get? other = some v →
      ∀ f, (Value.native f).AppearsIn v → f.IsPure := by
    intro other v hv f hf
    have hshows : v = .user addRate ∨ v = .number 3 := by
      have hglobals : m.store.get? other =
          Bindings.get? [("f", .user addRate), ("rate", .number 3)] other := by
        rw [Store.get?_eq_findSome?]
        exact List.findSome?_singleton
      rw [hglobals, Bindings.get?, List.lookup_cons, List.lookup_cons] at hv
      split at hv
      · exact .inl (Option.some.inj hv).symm
      · split at hv
        · exact .inr (Option.some.inj hv).symm
        · cases hv
    rcases hshows with rfl | rfl <;> cases hf
  exact ⟨hnew, hpure, eval_after_declare e m "x" (.array []) hnew hpure⟩

end BellaLang
