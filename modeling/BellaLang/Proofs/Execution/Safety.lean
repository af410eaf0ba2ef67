import BellaLang.Proofs.Evaluation.Safety
import BellaLang.Proofs.Execution.Journal

/-!
Executing proper statements stops in ways of the language's own.

Statements write to the store, so here the store has to be followed: on a proper store a proper
statement ends with a proper store again, or it stops in an own way (`Journey.Safe`).  Declarations
and assignments write values of proper expressions, and functions are declared with proper bodies,
so whatever a name comes to hold is proper.  A loop may take any number of rounds, and the induction
is on how many are left.

A run starts from a clean slate, where only the built-in names are bound, and no function of a
program is among them.  So nothing is asked of the machine that a program is run on.

Main statement: `Program.watch_safe`.
-/

namespace BellaLang

open Machine

/-! ## Proper statements -/

mutual

/-- All expressions in the statement are proper. -/
def Stmt.isProper : Stmt → Bool
  | .declaration _ _ value | .assignment _ _ value | .print _ value => value.isProper
  | .function _ _ _ body => body.isProper
  | .block body => body.isProper
  | .loop _ test body => test.isProper && body.isProper

/-- All these statements are proper. -/
def Stmt.areProper : List Stmt → Bool
  | [] => true
  | s :: rest => s.isProper && Stmt.areProper rest

/-- All statements of the block are proper. -/
def Block.isProper : Block → Bool
  | .mk _ statements => Stmt.areProper statements

end

/-! ## Writing proper values -/

theorem Store.HoldsProper.declare {store declared : Store} (h : store.HoldsProper) {name : String}
    {value : Value} (hvalue : value.IsProper) (hdeclare : store.declare name value = .ok declared) :
    declared.HoldsProper := Store.Hold.declare h hvalue hdeclare

theorem Store.HoldsProper.assign {store assigned : Store} (h : store.HoldsProper) {name : String}
    {value : Value} (hvalue : value.IsProper) (hassign : store.assign name value = .ok assigned) :
    assigned.HoldsProper := Store.Hold.assign h hvalue hassign

/-- A change of the store fails in an own way, because a name is bound already or not at all, or
    holds what is never replaced. -/
theorem Store.kind_of_declare_error {store : Store} {name : String} {value : Value} {cause : Cause}
    (h : store.declare name value = .error cause) : cause.kind ≠ .invalidOperator := by
  unfold Store.declare at h
  split at h <;> cases h
  exact nofun

theorem Store.kind_of_assign_error {store : Store} {name : String} {value : Value} {cause : Cause}
    (h : store.assign name value = .error cause) : cause.kind ≠ .invalidOperator := by
  unfold Store.assign at h
  split at h
  · cases h
    exact nofun
  · dsimp only at h
    split at h
    · cases h
      exact nofun
    · split at h <;> cases h
      exact nofun

/-! ## Steps that keep everything proper -/

/-- A step that on a machine with a proper store ends with a proper store again, or stops in an own
    way. -/
def Action.KeepsProper {α : Type} (a : Action α) : Prop :=
  ∀ m : Machine, m.store.HoldsProper →
    EndsWell (fun _ => (a m).2.store.HoldsProper) (a m).1

namespace Action.KeepsProper

variable {α β : Type} {good : α → Prop}

/-- A safe step that keeps the machine keeps everything proper. -/
theorem bind_safe {a : Action α} {next : α → Action β} (hkeeps : a.Keeps) (ha : a.Safe good)
    (hnext : ∀ x, good x → KeepsProper (next x)) : KeepsProper (a >>= next) := by
  intro m hm
  have hends := ha m hm
  rcases hrun : a m with ⟨result, m'⟩
  rw [hrun] at hends
  cases result with
  | ok x =>
    rw [bind_apply_ok hrun]
    have hm' : m'.store.HoldsProper := by
      rw [hkeeps.store_eq_of_run hrun]
      exact hm
    exact hnext x hends m' hm'
  | error stop =>
    rw [bind_apply_stop hrun]
    exact hends

/-- A change of the store keeps everything proper if it makes proper stores of proper ones, and
    fails in own ways. -/
theorem changeStore {change : Store → Except Cause Store}
    (hok : ∀ {store changed}, store.HoldsProper → change store = .ok changed → changed.HoldsProper)
    (herror : ∀ {store cause}, change store = .error cause → cause.kind ≠ .invalidOperator) :
    KeepsProper (Machine.changeStore change) := by
  intro m hm
  cases hchange : change m.store with
  | ok changed =>
    have hrun : Machine.changeStore change m = (.ok (), { m with store := changed }) := by
      rw [Machine.changeStore, hchange]
    rw [hrun]
    exact hok hm hchange
  | error cause =>
    have hrun : Machine.changeStore change m = (.error (.failure ⟨cause, []⟩), m) := by
      rw [Machine.changeStore, hchange]
      rfl
    rw [hrun]
    exact herror hchange

theorem declare (name : String) {value : Value} (hvalue : value.IsProper) :
    KeepsProper (Machine.declare name value) :=
  changeStore (fun h => h.declare hvalue) Store.kind_of_declare_error

theorem assign (name : String) {value : Value} (hvalue : value.IsProper) :
    KeepsProper (Machine.assign name value) :=
  changeStore (fun h => h.assign hvalue) Store.kind_of_assign_error

end Action.KeepsProper

/-- What a statement does that has no statements in it keeps everything proper. -/
theorem Stmt.work_keepsProper (limits : Limits) {s : Stmt} (h : s.isProper = true) :
    (s.work limits).KeepsProper := by
  -- Values are computed first, on a machine that stays as it is.
  have hvalue (e : Expr) (he : e.isProper = true) {next : Value → Action Unit}
      (hnext : ∀ v, v.IsProper → (next v).KeepsProper) :
      (e.evalWithin limits.calls >>= next).KeepsProper :=
    .bind_safe (Expr.evalWithin_keeps limits.calls e) (Expr.evalWithin_safe limits.calls he) hnext
  cases s with
  | declaration site id value =>
    intro m hm
    have hwork : work limits (.declaration site id value) m =
        (if m.store.contains id.spelling then .fail (.alreadyDeclared id.spelling)
          else do
            let v ← value.evalWithin limits.calls
            declare id.spelling v : Action Unit) m := rfl
    rw [hwork]
    split
    · exact nofun
    · exact hvalue value h (fun v hv => .declare _ hv) m hm
  | assignment site id value => exact hvalue value h fun v hv => .assign _ hv
  | function site id params body =>
    intro m hm
    have hf : (Value.user
        ⟨m.host.nextIdentity, id.spelling, params.map (·.spelling), body⟩).IsProper := .user h
    exact Action.KeepsProper.declare id.spelling hf
      { m with host := { m.host with nextIdentity := m.host.nextIdentity + 1 } } hm
  | print site value =>
    refine hvalue value h fun v _ m hm => ?_
    rcases shown_cases limits.nesting v with hshown | hshown
    · rw [hshown]
      exact hm
    · rw [hshown]
      trivial
  | block body => exact fun m hm => hm
  | loop site test body => exact fun m hm => hm

/-! ## Journeys -/

/-- A journey that from a machine with a proper store ends with a proper store again, or stops in an
    own way. -/
def Journey.Safe (j : Journey) : Prop :=
  ∀ m : Machine, m.store.HoldsProper →
    EndsWell (fun _ => (j m).machine.store.HoldsProper) (j m).result

namespace Journey.Safe

variable {j next : Journey}

theorem silent {a : Action Unit} (h : a.KeepsProper) : (Journey.silent a).Safe := h

theorem around (statement : Stmt) (h : j.Safe) : (j.around statement).Safe := h

theorem andThen (hj : j.Safe) (hnext : next.Safe) : (j.andThen next).Safe := by
  intro m hm
  have hends := hj m hm
  unfold Journey.andThen
  dsimp only
  cases hresult : (j m).result with
  | ok u =>
    rw [hresult] at hends
    exact hnext _ hends
  | error stop =>
    rw [hresult] at hends
    dsimp only
    rw [hresult]
    exact hends

/-- A loop is safe if its test and its body are, by induction on the rounds that are left. -/
theorem rounds (loop : Stmt) {test : Action Bool} (hkeeps : test.Keeps)
    (htest : test.Safe fun _ => True) (hj : j.Safe) (count : Nat) :
    (j.rounds loop test count).Safe := by
  induction count with
  | zero => exact fun _ _ => trivial
  | succ count ih =>
    intro m hm
    have hends := htest m hm
    unfold Journey.rounds
    rcases hrun : test m with ⟨result, m'⟩
    rw [hrun] at hends
    have hm' : m'.store.HoldsProper := by
      rw [hkeeps.store_eq_of_run hrun]
      exact hm
    rcases result with stop | ⟨_ | _⟩
    · exact hends
    · exact hm'
    · exact andThen hj ih m' hm'

end Journey.Safe

/-! ## Statements and programs -/

mutual

/-- Executing a proper statement is safe, whatever the limits. -/
theorem Stmt.watch_safe (limits : Limits) : ∀ s : Stmt, s.isProper = true → (s.watch limits).Safe
  | .block body, h => by
    unfold Stmt.watch
    exact .around _ (Block.watch_safe limits body h)
  | .loop site test body, h => by
    obtain ⟨htest, hbody⟩ := Bool.and_eq_true_iff.mp h
    have hvalue := Expr.evalWithin_keeps limits.calls test
    have hkeeps : (Value.truthy <$> test.evalWithin limits.calls).Keeps :=
      hvalue.bind fun _ => .pure _
    have hsafe : (Value.truthy <$> test.evalWithin limits.calls).Safe fun _ => True :=
      .bind hvalue (Expr.evalWithin_safe limits.calls htest) fun _ _ => .pure trivial
    have hround := Journey.Safe.around (.block body) (Block.watch_safe limits body hbody)
    have hmark : (setAtWork (.loop site test body)).KeepsProper := fun _ hm => hm
    unfold Stmt.watch
    exact .around _ (.rounds _ hkeeps hsafe (hround.andThen (.silent hmark)) _)
  | .declaration site id value, h => by
    unfold Stmt.watch
    exact .around _ (.silent (Stmt.work_keepsProper _ h))
  | .assignment site id value, h => by
    unfold Stmt.watch
    exact .around _ (.silent (Stmt.work_keepsProper _ h))
  | .function site id params body, h => by
    unfold Stmt.watch
    exact .around _ (.silent (Stmt.work_keepsProper _ h))
  | .print site value, h => by
    unfold Stmt.watch
    exact .around _ (.silent (Stmt.work_keepsProper _ h))

theorem Stmt.watchAll_safe (limits : Limits) :
    ∀ ss : List Stmt, Stmt.areProper ss = true → (Stmt.watchAll limits ss).Safe
  | [], _ => .silent fun _ hm => hm
  | s :: rest, h => by
    obtain ⟨hs, hrest⟩ := Bool.and_eq_true_iff.mp h
    have hmark : (setAtWork s).KeepsProper := fun _ hm => hm
    unfold Stmt.watchAll
    exact .andThen (.silent hmark)
      (.andThen (Stmt.watch_safe limits s hs) (Stmt.watchAll_safe limits rest hrest))

theorem Block.watch_safe (limits : Limits) :
    ∀ b : Block, b.isProper = true → (b.watch limits).Safe
  | .mk _ statements, h => by
    unfold Block.watch
    exact Stmt.watchAll_safe limits statements h

end

/-- The built-in names hold a number and native functions, which always answer. -/
theorem builtIns_holdProper (next : Nat) : (builtIns next).HoldProper := by
  intro name v hv
  rcases builtIns_cases hv with rfl | ⟨i, entry, hentry, rfl⟩
  · exact .number _
  · have hanswers (callsBefore : Nat) (numbers : List Float) :
        ∃ answer, (Native.ofFunction (next + i) entry.1 entry.2).run callsBefore numbers =
          .ok answer := by
      obtain ⟨y, hy⟩ := builtInFunctions_answer (List.mem_of_getElem? hentry)
        (numbers.headD Number.nan)
      exact ⟨.number y, congrArg (Except.map Value.number) hy⟩
    exact .native_of_answersNumbers hanswers (Native.ofFunction_answersNumbers _ _ _)

/-- Whatever a machine held: after a reset everything held is proper. -/
theorem Machine.reset_holdsProper (m : Machine) : m.reset.store.HoldsProper :=
  m.store.hold_reset (builtIns_holdProper m.host.nextIdentity)

/-- **A proper program stops in own ways only**, on any machine, and whatever the limits. -/
theorem Program.watch_safe (limits : Limits) {program : Program}
    (h : program.block.isProper = true) (m : Machine) :
    EndsWell (fun _ => True) (program.watch limits m).result := by
  have hends := (Journey.Safe.around (.block program.block)
    (Block.watch_safe limits program.block h)) m.reset m.reset_holdsProper
  unfold Program.watch
  cases hresult : (Journey.around (.block program.block) (program.block.watch limits)
      m.reset).result with
  | ok u => trivial
  | error stop =>
    rw [hresult] at hends
    exact hends

end BellaLang
