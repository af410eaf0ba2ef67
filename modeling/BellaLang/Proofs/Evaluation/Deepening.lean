import BellaLang.Proofs.Evaluation.Preservation

/-!
What an evaluation comes to when calls may nest as deeply as they will.

The evaluation of an expression is bounded by the number of calls that may still be nested.  The
bound shows only where it is hit: with more calls to go, an evaluation that does not nest its calls
too deeply ends in the same way, on the same machine.

  1. A step *precedes* another one if it nests its calls too deeply or does the same
     (`Action.Precedes`); this is closed under sequencing and under calls.
  2. With fewer calls to go an evaluation precedes the one with more
     (`Expr.evalWithin_precedes`).

So an expression has at most one outcome, whatever the bound (`HasOutcome.unique`).  If it has none,
its calls nest without an end (`no_outcome_iff`).
-/

namespace BellaLang

open Machine

/-! ## Steps that may be given up -/

/-- Wherever the step does not nest its calls too deeply, the longer one does the same. -/
def Action.Precedes {α : Type} (a longer : Action α) : Prop :=
  ∀ m : Machine, (a m).1 = .error .tooDeep ∨ a m = longer m

namespace Action.Precedes

variable {α β : Type}

theorem refl (a : Action α) : a.Precedes a := fun _ => .inr rfl

theorem trans {a b c : Action α} (hab : a.Precedes b) (hbc : b.Precedes c) : a.Precedes c := by
  intro m
  rcases hab m with hdeep | hsame
  · exact .inl hdeep
  · rcases hbc m with hdeep | hnext
    · exact .inl (by rw [hsame, hdeep])
    · exact .inr (hsame.trans hnext)

theorem bind {a longer : Action α} {next longerNext : α → Action β} (ha : a.Precedes longer)
    (hnext : ∀ x, (next x).Precedes (longerNext x)) :
    (a >>= next).Precedes (longer >>= longerNext) := by
  intro m
  rcases ha m with hdeep | hsame
  · exact .inl (bind_apply_error hdeep)
  · rcases hrun : a m with ⟨result, m'⟩
    have hlonger : longer m = (result, m') := hsame.symm.trans hrun
    cases result with
    | error stop => exact .inr ((bind_apply_stop hrun).trans (bind_apply_stop hlonger).symm)
    | ok x =>
      rw [bind_apply_ok hrun, bind_apply_ok hlonger]
      exact hnext x m'

theorem ite {p : Prop} [Decidable p] {a b longer other : Action α} (ha : a.Precedes longer)
    (hb : b.Precedes other) :
    (if p then a else b).Precedes (if p then longer else other) := by
  split
  · exact ha
  · exact hb

/-- A call whose body precedes another one: too deep inside is too deep outside. -/
theorem during (f : UserFunction) (args : List Value) {body longer : Action α}
    (h : body.Precedes longer) :
    (Machine.during f args body).Precedes (Machine.during f args longer) := by
  intro m
  unfold Machine.during
  cases m.store.enter? f args with
  | none => exact .inr rfl
  | some entered =>
    obtain ⟨call, store⟩ := entered
    dsimp only
    rcases h { m with store } with hdeep | hsame
    · rcases hrun : body { m with store } with ⟨result, m'⟩
      rw [hrun] at hdeep
      obtain rfl : result = .error .tooDeep := hdeep
      exact .inl rfl
    · rw [hsame]
      exact .inr rfl

end Action.Precedes

/-! ## More calls to go -/

mutual

/-- An evaluation precedes another one if the calls in it do. -/
theorem Expr.evalWith_precedes {call longer : Calling}
    (hcall : ∀ f args, (call f args).Precedes (longer f args)) :
    ∀ e : Expr, (e.evalWith call).Precedes (e.evalWith longer)
  | .numeral _ _ | .boolean _ _ | .name _ => .refl _
  | .unary _ op operand => by
    unfold evalWith
    exact (evalWith_precedes hcall operand).bind fun v => .refl _
  | .binary _ op left right => by
    have hleft := evalWith_precedes hcall left
    have hright := evalWith_precedes hcall right
    have hx := hleft.bind fun v => .refl (numberFor op v)
    have hy := hright.bind fun v => .refl (numberFor op v)
    unfold evalWith
    cases BinaryOp.ofSymbol? op with
    | none => exact .refl _
    | some f =>
      cases f with
      | shortcut settledBy => exact hleft.bind fun v => .ite (.refl _) hright
      | arithmetic f => exact hx.bind fun x => hy.bind fun y => .refl _
      | relational r => exact hx.bind fun x => hy.bind fun y => .refl _
      | equality wanted => exact hleft.bind fun v => hright.bind fun w => .refl _
  | .call _ callee args => by
    have hargs := Expr.evalAllWith_precedes hcall args
    unfold evalWith
    refine (Action.Precedes.refl _).bind fun v => ?_
    cases v with
    | native f => exact hargs.bind fun values => .refl _
    | user f => exact .ite (hargs.bind fun values => hcall f values) (.refl _)
    | number x => exact .refl _
    | boolean b => exact .refl _
    | array elements => exact .refl _
  | .conditional _ test consequent alternate => by
    unfold evalWith
    exact (evalWith_precedes hcall test).bind fun v =>
      .ite (evalWith_precedes hcall consequent) (evalWith_precedes hcall alternate)
  | .array _ elements => by
    unfold evalWith
    exact (Expr.evalAllWith_precedes hcall elements).bind fun values => .refl _
  | .subscript _ base index => by
    unfold evalWith
    exact (evalWith_precedes hcall base).bind fun v =>
      (evalWith_precedes hcall index).bind fun i => .refl _
  | .nothing | .statement _ | .program _ => .refl _

theorem Expr.evalAllWith_precedes {call longer : Calling}
    (hcall : ∀ f args, (call f args).Precedes (longer f args)) :
    ∀ es : List Expr, (Expr.evalAllWith call es).Precedes (Expr.evalAllWith longer es)
  | [] => .refl _
  | e :: rest => by
    unfold Expr.evalAllWith
    exact (Expr.evalWith_precedes hcall e).bind fun v =>
      (Expr.evalAllWith_precedes hcall rest).bind fun values => .refl _

end

/-- One call more to go. -/
theorem callWithin_precedes_succ (depth : Nat) (f : UserFunction) (args : List Value) :
    (callWithin depth f args).Precedes (callWithin (depth + 1) f args) := by
  induction depth generalizing f args with
  | zero => exact fun m => .inl rfl
  | succ depth ih => exact .during f args (f.body.evalWith_precedes ih)

/-- **More calls to go change no end.** -/
theorem Expr.evalWithin_precedes (e : Expr) {depth more : Nat} (hle : depth ≤ more) :
    (e.evalWithin depth).Precedes (e.evalWithin more) := by
  induction hle with
  | refl => exact .refl _
  | step _ ih => exact ih.trans (e.evalWith_precedes (callWithin_precedes_succ _))

/-! ## Outcomes -/

/-- The expression ends like this, if calls may nest as deeply as they will. -/
def Expr.HasOutcome (e : Expr) (m : Machine) (result : Except Stop Value) : Prop :=
  result ≠ .error .tooDeep ∧ ∃ depth, (e.evalWithin depth m).1 = result

/-- From some number of calls on, an outcome is what every evaluation ends with. -/
theorem Expr.HasOutcome.exists_depth {e : Expr} {m : Machine} {result : Except Stop Value}
    (h : e.HasOutcome m result) : ∃ depth, ∀ more, depth ≤ more →
      (e.evalWithin more m).1 = result := by
  obtain ⟨hfinished, depth, hdepth⟩ := h
  refine ⟨depth, fun more hle => ?_⟩
  rcases e.evalWithin_precedes hle m with hdeep | hsame
  · exact absurd (hdepth.symm.trans hdeep) hfinished
  · rw [← hsame, hdepth]

/-- There is only one outcome. -/
theorem Expr.HasOutcome.unique {e : Expr} {m : Machine} {result other : Except Stop Value}
    (h : e.HasOutcome m result) (hother : e.HasOutcome m other) : result = other := by
  obtain ⟨depth, hdepth⟩ := h.exists_depth
  obtain ⟨more, hmore⟩ := hother.exists_depth
  exact (hdepth _ (Nat.le_max_left depth more)).symm.trans (hmore _ (Nat.le_max_right depth more))

/-- There is no outcome just where calls nest too deeply, however many there may be. -/
theorem Expr.no_outcome_iff {e : Expr} {m : Machine} :
    (∀ result, ¬e.HasOutcome m result) ↔
      ∀ depth, (e.evalWithin depth m).1 = .error .tooDeep := by
  constructor
  · exact fun hnone depth => Classical.byContradiction fun hfinished =>
      hnone _ ⟨hfinished, depth, rfl⟩
  · rintro hdeep result ⟨hfinished, depth, hdepth⟩
    exact hfinished (hdepth.symm.trans (hdeep depth))

end BellaLang
