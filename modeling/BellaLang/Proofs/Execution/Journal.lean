import BellaLang.Machine.Execution
import BellaLang.Proofs.Evaluation.Preservation
import BellaLang.Proofs.Store.Lookup

/-!
The moments that an execution passes through.

`Stmt.exec` says how a statement ends.  What happens on the way cannot be read off the end, least of
all if the program runs on and on.  So this file executes statements once more and keeps a journal:
an entry, with the machine as it then is, whenever a statement starts, ends or fails, and whenever a
loop comes to its test.

  1. `Stmt.watch` is execution with a journal, and with the same limits the outcome is that of
     `Stmt.execWithin` (`watch_follows_exec`, `Program.watch_eq_run`).  More rounds look further
     along the same run, so each moment of a run without an end is in a journal
     (`Program.watch_precedes`).
  2. From one moment to the next next to nothing happens to the store: it stays as it is, or one
     declaration has bound one new name, or one assignment has changed one binding, and then the two
     moments are the start and the end of that very statement (`Moment.Leads`).
  3. A journal is a run of such transitions (`watch_runs`), so a fact about all moments of an
     execution needs a look at a single transition only.
-/

namespace BellaLang

open Machine

/-! ## Moments -/

/-- What a statement comes to at a moment. -/
inductive Phase where
  | starts
  /-- A loop is about to evaluate its test. -/
  | tests
  | ends
  | fails (stop : Stop)

/-- The phase that a statement is in when it is over. -/
def Phase.ofResult : Except Stop Unit → Phase
  | .ok () => .ends
  | .error stop => .fails stop

/-- A moment: a statement comes to something, and the machine is then in this state. -/
structure Moment where
  phase : Phase
  statement : Stmt
  machine : Machine

/-! ## Execution with a journal -/

/-- How an execution ends, and the moments that it has passed through, in order. -/
structure Passage where
  result : Except Stop Unit
  machine : Machine
  journal : List Moment

/-- An execution that keeps a journal. -/
def Journey := Machine → Passage

namespace Journey

/-- A step that is not entered in the journal. -/
def silent (a : Action Unit) : Journey := fun m => ⟨(a m).1, (a m).2, []⟩

/-- One journey after the other, unless the first one stops. -/
def andThen (first next : Journey) : Journey := fun m =>
  let passage := first m
  match passage.result with
  | .ok () =>
    let rest := next passage.machine
    ⟨rest.result, rest.machine, passage.journal ++ rest.journal⟩
  | .error _ => passage

/-- What a statement does, between the moments when it starts and when it is over. -/
def around (statement : Stmt) (inside : Journey) : Journey := fun m =>
  let passage := inside m
  ⟨passage.result, passage.machine, ⟨.starts, statement, m⟩ ::
    (passage.journal ++ [⟨.ofResult passage.result, statement, passage.machine⟩])⟩

/-- The rounds of a loop, each with a moment for its test. -/
def rounds (loop : Stmt) (test : Action Bool) (body : Journey) : Nat → Journey
  | 0 => silent (.stop .endless)
  | count + 1 => fun m =>
    let moment : Moment := ⟨.tests, loop, m⟩
    match test m with
    | (.error stop, m') => ⟨.error stop, m', [moment]⟩
    | (.ok false, m') => ⟨.ok (), m', [moment]⟩
    | (.ok true, m') =>
      let passage := body.andThen (rounds loop test body count) m'
      { passage with journal := moment :: passage.journal }

end Journey

/-- What a statement does that has no statements in it. -/
def Stmt.work (limits : Limits) : Stmt → Action Unit
  | .declaration _ id value => do
    if ← .ask (·.store.contains id.spelling) then .fail (.alreadyDeclared id.spelling)
    else do
      let v ← value.evalWithin limits.calls
      declare id.spelling v
  | .assignment _ id value => do
    let v ← value.evalWithin limits.calls
    assign id.spelling v
  | .function _ id params body => do
    let identity ← newIdentity
    declare id.spelling (.user ⟨identity, id.spelling, params.map (·.spelling), body⟩)
  | .print _ value => do
    let v ← value.evalWithin limits.calls
    let text ← shown limits.nesting v
    emit text
  | .block _ | .loop .. => pure ()

mutual

/-- Execute a statement and keep a journal. -/
def Stmt.watch (limits : Limits) : Stmt → Journey
  | .block body => .around (.block body) (body.watch limits)
  | .loop site test body =>
    .around (.loop site test body) <|
      .rounds (.loop site test body) (Value.truthy <$> test.evalWithin limits.calls)
        ((Journey.around (.block body) (body.watch limits)).andThen
          (.silent (setAtWork (.loop site test body))))
        limits.rounds
  | simple => .around simple (.silent (simple.work limits))

/-- Execute statements one after the other and keep a journal. -/
def Stmt.watchAll (limits : Limits) : List Stmt → Journey
  | [] => .silent (pure ())
  | s :: rest => (Journey.silent (setAtWork s)).andThen ((s.watch limits).andThen
      (Stmt.watchAll limits rest))

/-- Execute a block and keep a journal. -/
def Block.watch (limits : Limits) : Block → Journey
  | .mk _ statements => Stmt.watchAll limits statements

end

/-- Run a program from a clean slate and keep a journal. -/
def Program.watch (limits : Limits) (program : Program) : Journey := fun m =>
  Journey.around (.block program.block) (program.block.watch limits) m.reset

/-! ## The journal changes nothing -/

/-- A journey ends as a step does, with the same machine. -/
def Journey.Follows (j : Journey) (a : Action Unit) : Prop :=
  ∀ m, ((j m).result, (j m).machine) = a m

namespace Journey.Follows

variable {j next : Journey} {a b : Action Unit}

theorem silent (a : Action Unit) : (Journey.silent a).Follows a := fun _ => rfl

theorem around (statement : Stmt) (h : j.Follows a) : (j.around statement).Follows a := h

theorem andThen (hj : j.Follows a) (hnext : next.Follows b) :
    (j.andThen next).Follows (do a; b) := by
  intro m
  have hrun := hj m
  unfold Journey.andThen
  dsimp only
  cases hresult : (j m).result with
  | ok u =>
    rw [hresult] at hrun
    have hgo : (do a; b) m = b (j m).machine := Action.bind_apply_ok hrun.symm
    rw [hgo]
    exact hnext _
  | error stop =>
    have hrun' := hrun
    rw [hresult] at hrun'
    have hgo : (do a; b) m = (.error stop, (j m).machine) := Action.bind_apply_stop hrun'.symm
    rw [hgo, hresult]

theorem rounds (loop : Stmt) (test : Action Bool) (h : j.Follows a) (count : Nat) :
    (j.rounds loop test count).Follows (repeatWhile count test a) := by
  induction count with
  | zero => exact silent _
  | succ count ih =>
    intro m
    unfold Journey.rounds repeatWhile
    rcases test m with ⟨_ | ⟨_ | _⟩, m'⟩
    · rfl
    · rfl
    · have hbody := h.andThen ih m'
      dsimp only
      rw [hbody]
      rcases hrun : a m' with ⟨_ | ⟨⟨⟩⟩, m''⟩
      · exact Action.bind_apply_stop hrun
      · exact Action.bind_apply_ok hrun

end Journey.Follows

section
variable (limits : Limits)

mutual

/-- Watching a statement ends as executing it does. -/
theorem Stmt.watch_follows_exec : ∀ s : Stmt, (s.watch limits).Follows (s.execWithin limits)
  | .block body => by
    unfold Stmt.watch Stmt.execWithin
    exact .around _ (Block.watch_follows_exec body)
  | .loop site test body => by
    unfold Stmt.watch Stmt.execWithin
    have hbody := Journey.Follows.around (.block body) (Block.watch_follows_exec body)
    exact .around _ (.rounds _ _ (hbody.andThen (.silent _)) _)
  | .declaration site id value => by
    unfold Stmt.watch Stmt.execWithin
    exact .around _ (.silent _)
  | .assignment site id value => by
    unfold Stmt.watch Stmt.execWithin
    exact .around _ (.silent _)
  | .function site id params body => by
    unfold Stmt.watch Stmt.execWithin
    exact .around _ (.silent _)
  | .print site value => by
    unfold Stmt.watch Stmt.execWithin
    exact .around _ (.silent _)

theorem Stmt.watchAll_follows_execAll :
    ∀ ss : List Stmt, (Stmt.watchAll limits ss).Follows (Stmt.execAllWithin limits ss)
  | [] => .silent _
  | s :: rest => by
    unfold Stmt.watchAll Stmt.execAllWithin
    exact .andThen (.silent _)
      (.andThen (Stmt.watch_follows_exec s) (Stmt.watchAll_follows_execAll rest))

theorem Block.watch_follows_exec : ∀ b : Block, (b.watch limits).Follows (b.execWithin limits)
  | .mk _ statements => by
    unfold Block.watch Block.execWithin
    exact Stmt.watchAll_follows_execAll statements

end

/-- **A journal changes nothing.**  A program that is watched ends as it does when it is run within
    the same limits, and so does its machine. -/
theorem Program.watch_eq_run (program : Program) (m : Machine) :
    ((program.watch limits m).result, (program.watch limits m).machine) =
      program.runWithin limits m :=
  Journey.Follows.around _ (Block.watch_follows_exec limits program.block) m.reset

end

/-! ## More rounds look further -/

/-- A passage has been given up: all its moments, but those in the end that say so, are the first
    ones of a longer passage. -/
def Passage.GivenUp (p longer : Passage) : Prop :=
  p.result = .error .endless ∧
    ∃ common givenUp, p.journal = common ++ givenUp ∧
      (∀ a ∈ givenUp, a.phase = .fails .endless) ∧ common <+: longer.journal

/-- A journey goes as a longer one does, or is given up on the way. -/
def Journey.Precedes (j longer : Journey) : Prop :=
  ∀ m, j m = longer m ∨ (j m).GivenUp (longer m)

namespace Journey.Precedes

variable {j longer next longerNext : Journey}

theorem refl (j : Journey) : j.Precedes j := fun _ => .inl rfl

theorem around (statement : Stmt) (h : j.Precedes longer) :
    (j.around statement).Precedes (longer.around statement) := by
  intro m
  rcases h m with hsame | ⟨hresult, common, givenUp, hjournal, hgivenUp, hcommon⟩
  · refine .inl ?_
    unfold Journey.around
    rw [hsame]
  · let first : Moment := ⟨.starts, statement, m⟩
    let last : Moment := ⟨.ofResult (j m).result, statement, (j m).machine⟩
    refine .inr ⟨hresult, first :: common, givenUp ++ [last], ?_, ?_, ?_⟩
    · show first :: ((j m).journal ++ [last]) = _
      rw [hjournal, List.append_assoc]
      rfl
    · intro a hmem
      rcases List.mem_append.mp hmem with hmem | hmem
      · exact hgivenUp a hmem
      · rw [List.mem_singleton.mp hmem]
        show Phase.ofResult (j m).result = _
        rw [hresult]
        rfl
    · exact List.cons_prefix_cons.mpr ⟨rfl, hcommon.trans (List.prefix_append _ _)⟩

/-- What has happened has happened, however it goes on. -/
theorem journal_prefix_andThen (j next : Journey) (m : Machine) :
    (j m).journal <+: (j.andThen next m).journal := by
  unfold Journey.andThen
  dsimp only
  cases (j m).result with
  | ok u => exact List.prefix_append _ _
  | error stop => exact List.prefix_refl _

theorem andThen (hj : j.Precedes longer) (hnext : next.Precedes longerNext) :
    (j.andThen next).Precedes (longer.andThen longerNext) := by
  intro m
  rcases hj m with hsame | ⟨hresult, common, givenUp, hjournal, hgivenUp, hcommon⟩
  · unfold Journey.andThen
    dsimp only
    rw [hsame]
    cases (longer m).result with
    | error stop => exact .inl rfl
    | ok u =>
      rcases hnext (longer m).machine with hrest | ⟨hresult, common, givenUp, hjournal, hgivenUp,
        hcommon⟩
      · refine .inl ?_
        rw [hrest]
      · refine .inr ⟨hresult, (longer m).journal ++ common, givenUp, ?_, hgivenUp, ?_⟩
        · dsimp only
          rw [hjournal, List.append_assoc]
        · exact (List.prefix_append_right_inj _).mpr hcommon
  · have hgo : j.andThen next m = j m := by
      unfold Journey.andThen
      dsimp only
      rw [hresult]
    rw [hgo]
    exact .inr ⟨hresult, common, givenUp, hjournal, hgivenUp,
      hcommon.trans (journal_prefix_andThen longer longerNext m)⟩

theorem rounds (loop : Stmt) (test : Action Bool) (h : j.Precedes longer) {count more : Nat}
    (hle : count ≤ more) : (j.rounds loop test count).Precedes (longer.rounds loop test more) := by
  induction count generalizing more with
  | zero => exact fun m => .inr ⟨rfl, [], [], rfl, nofun, List.nil_prefix⟩
  | succ count ih =>
    obtain ⟨more, rfl⟩ := Nat.exists_eq_add_of_le' (Nat.lt_of_lt_of_le (Nat.succ_pos count) hle)
    have hrest := h.andThen (ih (Nat.le_of_succ_le_succ hle))
    intro m
    let first : Moment := ⟨.tests, loop, m⟩
    unfold Journey.rounds
    rcases test m with ⟨_ | _ | _, m'⟩
    · exact .inl rfl
    · exact .inl rfl
    · dsimp only
      rcases hrest m' with hsame | ⟨hresult, common, givenUp, hjournal, hgivenUp, hcommon⟩
      · refine .inl ?_
        rw [hsame]
      · refine .inr ⟨hresult, first :: common, givenUp, ?_, hgivenUp, ?_⟩
        · exact congrArg (first :: ·) hjournal
        · exact List.cons_prefix_cons.mpr ⟨rfl, hcommon⟩

end Journey.Precedes

section
variable (calls nesting : Nat) {count more : Nat}

mutual

theorem Stmt.watch_precedes (hle : count ≤ more) :
    ∀ s : Stmt, (s.watch ⟨calls, count, nesting⟩).Precedes (s.watch ⟨calls, more, nesting⟩)
  | .block body => by
    unfold Stmt.watch
    exact .around _ (Block.watch_precedes hle body)
  | .loop site test body => by
    unfold Stmt.watch
    have hbody := Journey.Precedes.around (.block body) (Block.watch_precedes hle body)
    exact .around _ (.rounds _ _ (hbody.andThen (.refl _)) hle)
  | .declaration .. | .assignment .. | .function .. | .print .. => by
    unfold Stmt.watch
    exact .refl _

theorem Stmt.watchAll_precedes (hle : count ≤ more) : ∀ ss : List Stmt,
    (Stmt.watchAll ⟨calls, count, nesting⟩ ss).Precedes (Stmt.watchAll ⟨calls, more, nesting⟩ ss)
  | [] => .refl _
  | s :: rest => by
    unfold Stmt.watchAll
    exact .andThen (.refl _)
      (.andThen (Stmt.watch_precedes hle s) (Stmt.watchAll_precedes hle rest))

theorem Block.watch_precedes (hle : count ≤ more) :
    ∀ b : Block, (b.watch ⟨calls, count, nesting⟩).Precedes (b.watch ⟨calls, more, nesting⟩)
  | .mk _ statements => by
    unfold Block.watch
    exact Stmt.watchAll_precedes hle statements

end

/-- **More rounds look further.**  With more rounds for its loops a program does what it did with
    fewer, and goes on where it had been given up. -/
theorem Program.watch_precedes (hle : count ≤ more) (program : Program) :
    Journey.Precedes (program.watch ⟨calls, count, nesting⟩)
      (program.watch ⟨calls, more, nesting⟩) :=
  fun m => Journey.Precedes.around _ (Block.watch_precedes calls nesting hle program.block) m.reset

end

/-! ## From one moment to the next -/

/-- The name that a statement declares. -/
def Stmt.declared? : Stmt → Option String
  | .declaration _ id _ | .function _ id _ _ => some id.spelling
  | .assignment .. | .print .. | .block _ | .loop .. => none

/-- The name that a statement assigns to. -/
def Stmt.assigned? : Stmt → Option String
  | .assignment _ id _ => some id.spelling
  | .declaration .. | .function .. | .print .. | .block _ | .loop .. => none

/-- The name that has been declared at a moment: a declaration ends, and has not failed. -/
def Moment.declared? (a : Moment) : Option String :=
  match a.phase with
  | .ends => a.statement.declared?
  | .starts | .tests | .fails _ => none

/-- What can lie between a moment and the next one, as far as the store goes. -/
inductive Moment.Leads (a b : Moment) : Prop
  /-- Nothing is declared and the store stays as it is. -/
  | still (hdeclared : b.declared? = none) (hstore : b.machine.store = a.machine.store)
  /-- One declaration starts and ends, and has bound its name. -/
  | declares {name : String} {value : Value} (ha : a.phase = .starts) (hb : b.phase = .ends)
    (hsame : b.statement = a.statement) (hname : b.statement.declared? = some name)
    (hstore : a.machine.store.declare name value = .ok b.machine.store)
  /-- One assignment starts and ends, and has changed the binding of its name. -/
  | assigns {name : String} {value : Value} (ha : a.phase = .starts) (hb : b.phase = .ends)
    (hsame : b.statement = a.statement) (hname : b.statement.assigned? = some name)
    (hstore : a.machine.store.assign name value = .ok b.machine.store)

/-- A run through moments: from the first one through a list of others to the last one. -/
inductive Moment.Run : Moment → List Moment → Moment → Prop
  | refl (a : Moment) : Run a [] a
  | step {a b c : Moment} {rest : List Moment} (h : a.Leads b) (hrest : Run b rest c) :
    Run a (b :: rest) c

theorem Moment.Run.append {a b c : Moment} {first second : List Moment} (hfirst : Run a first b)
    (hsecond : Run b second c) : Run a (first ++ second) c := by
  induction hfirst with
  | refl a => exact hsecond
  | step h _ ih => exact .step h (ih hsecond)

/-- A change of the store fails and leaves everything as it was, or succeeds. -/
theorem changeStore_cases (change : Store → Except Cause Store) (m : Machine) :
    (∃ cause, changeStore change m = (.error (.failure ⟨cause, []⟩), m)) ∨
      ∃ store, change m.store = .ok store ∧ changeStore change m = (.ok (), { m with store }) := by
  unfold changeStore
  cases change m.store with
  | error cause => exact .inl ⟨cause, rfl⟩
  | ok store => exact .inr ⟨store, rfl, rfl⟩

/-- A value is shown, or nests too deep. -/
theorem shown_cases (nesting : Nat) (v : Value) :
    shown nesting v = pure v.text ∨ shown nesting v = .stop .tooDeep := by
  unfold shown
  split
  · exact .inl rfl
  · exact .inr rfl

/-- What a simple statement does leads from its start to the moment when it is over. -/
theorem Stmt.leads_of_work (s : Stmt) (limits : Limits) (m : Machine) :
    Moment.Leads ⟨.starts, s, m⟩ ⟨.ofResult (s.work limits m).1, s, (s.work limits m).2⟩ := by
  have hfails : ∀ {stop m'}, s.work limits m = (.error stop, m') → m'.store = m.store →
      Moment.Leads ⟨.starts, s, m⟩ ⟨.ofResult (s.work limits m).1, s, (s.work limits m).2⟩ := by
    intro stop m' hrun hstore
    rw [hrun]
    exact .still rfl hstore
  have hvalue : ∀ (value : Expr) {result m'}, value.evalWithin limits.calls m = (result, m') →
      m'.store = m.store := fun value _ _ hrun =>
    (value.evalWithin_keeps limits.calls).store_eq_of_run hrun
  cases s with
  | declaration site id value =>
    have hask : ∀ visible, m.store.contains id.spelling = visible →
        Action.ask (·.store.contains id.spelling) m = (.ok visible, m) :=
      fun visible h => congrArg (fun b => (Except.ok b, m)) h
    cases hvisible : m.store.contains id.spelling with
    | true =>
      have hwork : Stmt.work limits (.declaration site id value) m =
          (.error (.failure ⟨.alreadyDeclared id.spelling, []⟩), m) :=
        Action.bind_apply_ok (hask true hvisible)
      exact hfails hwork rfl
    | false =>
      have hwork : Stmt.work limits (.declaration site id value) m =
          (value.evalWithin limits.calls >>= declare id.spelling) m :=
        Action.bind_apply_ok (hask false hvisible)
      rcases hrun : value.evalWithin limits.calls m with ⟨stop | v, m'⟩
      · exact hfails (hwork.trans (Action.bind_apply_stop hrun)) (hvalue value hrun)
      · have hstore := hvalue value hrun
        have hbind := hwork.trans (Action.bind_apply_ok hrun)
        rcases changeStore_cases (·.declare id.spelling v) m' with ⟨cause, h⟩ | ⟨store, hchange, h⟩
        · exact hfails (hbind.trans h) hstore
        · rw [hbind.trans h]
          rw [hstore] at hchange
          exact .declares rfl rfl rfl rfl hchange
  | assignment site id value =>
    rcases hrun : value.evalWithin limits.calls m with ⟨stop | v, m'⟩
    · exact hfails (Action.bind_apply_stop hrun) (hvalue value hrun)
    · have hstore := hvalue value hrun
      have hbind : Stmt.work limits (.assignment site id value) m = assign id.spelling v m' :=
        Action.bind_apply_ok hrun
      rcases changeStore_cases (·.assign id.spelling v) m' with ⟨cause, h⟩ | ⟨store, hchange, h⟩
      · exact hfails (hbind.trans h) hstore
      · rw [hbind.trans h]
        rw [hstore] at hchange
        exact .assigns rfl rfl rfl rfl hchange
  | function site id params body =>
    let f : Value := .user ⟨m.host.nextIdentity, id.spelling, params.map (·.spelling), body⟩
    have hidentity : newIdentity m = (.ok m.host.nextIdentity, (newIdentity m).2) := rfl
    have hstore : (newIdentity m).2.store = m.store := rfl
    generalize (newIdentity m).2 = m' at hidentity hstore
    have hbind : Stmt.work limits (.function site id params body) m = declare id.spelling f m' :=
      Action.bind_apply_ok hidentity
    rcases changeStore_cases (·.declare id.spelling f) m' with ⟨cause, h⟩ | ⟨store, hchange, h⟩
    · exact hfails (hbind.trans h) hstore
    · rw [hbind.trans h]
      rw [hstore] at hchange
      exact .declares rfl rfl rfl rfl hchange
  | print site value =>
    rcases hrun : value.evalWithin limits.calls m with ⟨stop | v, m'⟩
    · exact hfails (Action.bind_apply_stop hrun) (hvalue value hrun)
    · have hstore := hvalue value hrun
      have hwork : Stmt.work limits (.print site value) m =
          (shown limits.nesting v >>= emit) m' := Action.bind_apply_ok hrun
      rcases shown_cases limits.nesting v with hshown | hshown
      · rw [hshown] at hwork
        rw [hwork]
        exact .still rfl hstore
      · rw [hshown] at hwork
        exact hfails hwork hstore
  | block body => exact .still rfl rfl
  | loop site test body => exact .still rfl rfl

/-! ## A journal is a run -/

/-- From any moment with the store that a journey starts with, its journal is a run, and the last
    moment has the store that the journey ends with. -/
def Journey.Runs (j : Journey) : Prop :=
  ∀ (m : Machine) (a : Moment), a.machine.store = m.store →
    ∃ b, a.Run (j m).journal b ∧ b.machine.store = (j m).machine.store

namespace Journey.Runs

variable {j next : Journey}

/-- A silent step has to leave the store alone. -/
theorem silent {a : Action Unit} (h : ∀ m, (a m).2.store = m.store) : (Journey.silent a).Runs :=
  fun m before hstore => ⟨before, .refl _, hstore.trans (h m).symm⟩

theorem andThen (hj : j.Runs) (hnext : next.Runs) : (j.andThen next).Runs := by
  intro m a hstore
  obtain ⟨b, hfirst, hb⟩ := hj m a hstore
  unfold Journey.andThen
  dsimp only
  cases (j m).result with
  | ok u =>
    obtain ⟨c, hsecond, hc⟩ := hnext (j m).machine b hb
    exact ⟨c, hfirst.append hsecond, hc⟩
  | error stop => exact ⟨b, hfirst, hb⟩

/-- A statement declares nothing if it only has other statements in it. -/
theorem around {statement : Stmt} (hdeclared : statement.declared? = none) (hj : j.Runs) :
    (j.around statement).Runs := by
  intro m a hstore
  obtain ⟨b, hinside, hb⟩ := hj m ⟨.starts, statement, m⟩ rfl
  let last : Moment := ⟨.ofResult (j m).result, statement, (j m).machine⟩
  have hlast : last.declared? = none := by
    show (match Phase.ofResult (j m).result with
      | .ends => statement.declared?
      | .starts | .tests | .fails _ => none) = none
    rw [hdeclared]
    split <;> rfl
  have hends : b.Leads last := .still hlast hb.symm
  exact ⟨last, .step (.still rfl hstore.symm) (hinside.append (.step hends (.refl _))), rfl⟩

/-- A simple statement starts, and then it is over. -/
theorem work (s : Stmt) (limits : Limits) : ((Journey.silent (s.work limits)).around s).Runs := by
  intro m a hstore
  refine ⟨⟨.ofResult (s.work limits m).1, s, (s.work limits m).2⟩, ?_, rfl⟩
  exact .step (.still rfl hstore.symm) (.step (s.leads_of_work limits m) (.refl _))

theorem rounds (loop : Stmt) {test : Action Bool} (htest : test.Keeps) (hj : j.Runs) (count : Nat) :
    (j.rounds loop test count).Runs := by
  induction count with
  | zero => exact silent fun _ => rfl
  | succ count ih =>
    intro m a hstore
    let first : Moment := ⟨.tests, loop, m⟩
    have hfirst : a.Leads first := .still rfl hstore.symm
    unfold Journey.rounds
    rcases hrun : test m with ⟨result, m'⟩
    have hkept : m.store = m'.store := (htest.store_eq_of_run hrun).symm
    rcases result with _ | _ | _
    · exact ⟨first, .step hfirst (.refl _), hkept⟩
    · exact ⟨first, .step hfirst (.refl _), hkept⟩
    · obtain ⟨b, hbody, hb⟩ := hj.andThen ih m' first hkept
      exact ⟨b, .step hfirst hbody, hb⟩

end Journey.Runs

mutual

/-- The journal of a statement is a run, whatever the limits. -/
theorem Stmt.watch_runs (limits : Limits) : ∀ s : Stmt, (s.watch limits).Runs
  | .block body => by
    unfold Stmt.watch
    exact .around rfl (Block.watch_runs limits body)
  | .loop site test body => by
    unfold Stmt.watch
    have htest : (Value.truthy <$> test.evalWithin limits.calls).Keeps :=
      (test.evalWithin_keeps limits.calls).bind fun _ => .pure _
    have hbody : Journey.Runs (.around (.block body) (body.watch limits)) :=
      .around rfl (Block.watch_runs limits body)
    exact .around rfl (.rounds _ htest (hbody.andThen (.silent fun _ => rfl)) _)
  | .declaration site id value => by
    unfold Stmt.watch
    exact .work _ _
  | .assignment site id value => by
    unfold Stmt.watch
    exact .work _ _
  | .function site id params body => by
    unfold Stmt.watch
    exact .work _ _
  | .print site value => by
    unfold Stmt.watch
    exact .work _ _

theorem Stmt.watchAll_runs (limits : Limits) : ∀ ss : List Stmt, (Stmt.watchAll limits ss).Runs
  | [] => .silent fun _ => rfl
  | s :: rest => by
    unfold Stmt.watchAll
    exact .andThen (.silent fun _ => rfl)
      (.andThen (Stmt.watch_runs limits s) (Stmt.watchAll_runs limits rest))

theorem Block.watch_runs (limits : Limits) : ∀ b : Block, (b.watch limits).Runs
  | .mk _ statements => by
    unfold Block.watch
    exact Stmt.watchAll_runs limits statements

end

namespace Moment.Run

variable {a b c : Moment} {journal : List Moment}

theorem take (h : a.Run journal c) {k : Nat} (hk : journal[k]? = some b) :
    a.Run (journal.take (k + 1)) b := by
  induction h generalizing k with
  | refl a => cases hk
  | step hlead _ ih =>
    cases k with
    | zero =>
      rw [← Option.some.inj hk]
      exact .step hlead (.refl _)
    | succ k => exact .step hlead (ih hk)

theorem drop (h : a.Run journal c) {k : Nat} (hk : journal[k]? = some b) :
    b.Run (journal.drop (k + 1)) c := by
  induction h generalizing k with
  | refl a => cases hk
  | step _ hrest ih =>
    cases k with
    | zero =>
      rw [← Option.some.inj hk]
      exact hrest
    | succ k => exact ih hk

/-- From one moment of a run to a later one. -/
theorem between (h : a.Run journal c) {k l : Nat} {b d : Moment} (hlt : k < l)
    (hk : journal[k]? = some b) (hl : journal[l]? = some d) :
    b.Run ((journal.drop (k + 1)).take (l - k)) d := by
  obtain ⟨n, rfl⟩ := Nat.exists_eq_add_of_lt hlt
  have hlater : (journal.drop (k + 1))[n]? = some d := by
    rw [List.getElem?_drop, ← hl]
    congr 1
    omega
  have hlength : k + n + 1 - k = n + 1 := by omega
  rw [hlength]
  exact (h.drop hk).take hlater

/-- Each moment of a run leads to the next one. -/
theorem leads (h : a.Run journal c) {k : Nat} {b d : Moment} (hk : journal[k]? = some b)
    (hnext : journal[k + 1]? = some d) : b.Leads d := by
  have hrun := h.drop hk
  have hhead : (journal.drop (k + 1))[0]? = some d := by
    rw [List.getElem?_drop]
    exact hnext
  generalize journal.drop (k + 1) = rest at hrun hhead
  cases hrun with
  | refl _ => cases hhead
  | step hlead _ =>
    rw [← Option.some.inj hhead]
    exact hlead

end Moment.Run

end BellaLang
