import BellaLang.CommandLine.Session
import BellaLang.Proofs.Evaluation.Backtrace
import BellaLang.Proofs.Execution.Atomicity

/-!
The statement at work.

A machine has one mark for the statement at work.  Blocks overwrite it for each of their
statements, a loop puts itself back after each round, and nothing else touches it.  So it is not
obvious that the mark is right in the middle of things: that whatever is done is done for the
statement that is marked.

  1. Apart from the statements in it, a statement does some *work of its own* (`Stmt.ownWork`): a
     simple statement does all that it does, a loop evaluates its test, and a block does nothing.
     The moments of a journal at which such work begins are the starts of simple statements and the
     tests of loops (`Moment.beginsWork`).
  2. In the course of that work expressions are evaluated, names are bound and stops are raised
     (`Moment.Does`), in the bodies of functions as well, and the mark stays what it was when the
     work began (`Moment.Does.atWork_eq`).
  3. Apart from the mark, all that happens to the machine happens in the course of such work
     (`Machine.Works`).
  4. At every moment at which work begins the mark is right, and if the execution stops then it is
     the work begun last that has stopped (`Passage.IsMarked`).  This is shown for all that
     executions are put together from, each with what it needs of the mark and what it leaves
     behind (`Journey.Marks`).

Main statement: `run_marks_work`.
-/

namespace BellaLang

open Machine

/-! ## Work of one's own -/

/-- What a statement does apart from the statements in it. -/
def Stmt.ownWork (limits : Limits) : Stmt → Action Unit
  | .loop _ test _ => do
    let _ ← test.evalWithin limits.calls
    pure ()
  | s => s.work limits

/-- The expression that a statement evaluates itself, if it comes to that on this machine. -/
def Stmt.wants? (m : Machine) : Stmt → Option Expr
  | .declaration _ id value => if m.store.contains id.spelling then none else some value
  | .assignment _ _ value | .print _ value => some value
  | .loop _ test _ => some test
  | .function .. | .block _ => none

/-- Does the statement of a moment begin work of its own there? -/
def Moment.beginsWork (a : Moment) : Bool :=
  match a.phase with
  | .starts => a.statement.isSimple
  | .tests => true
  | .ends | .fails _ => false

/-- No work begins where a statement is over. -/
theorem Moment.beginsWork_ofResult (result : Except Stop Unit) (s : Stmt) (m : Machine) :
    Moment.beginsWork ⟨.ofResult result, s, m⟩ = false := by
  cases result <;> rfl

/-- The work of a loop ends as its test does. -/
theorem Stmt.ownWork_loop {limits : Limits} (site : Site) {test : Expr} (body : Block)
    {m m' : Machine} {result : Except Stop Bool}
    (h : (Value.truthy <$> test.evalWithin limits.calls) m = (result, m')) :
    (Stmt.loop site test body).ownWork limits m = (result.map fun _ => (), m') := by
  have hmap : (test.evalWithin limits.calls >>= fun v => pure v.truthy) m = (result, m') := h
  show (test.evalWithin limits.calls >>= fun _ => pure ()) m = _
  rcases hrun : test.evalWithin limits.calls m with ⟨value, m₁⟩
  cases value with
  | error stop =>
    rw [Action.bind_apply_stop hrun] at hmap ⊢
    cases hmap
    rfl
  | ok v =>
    rw [Action.bind_apply_ok hrun] at hmap ⊢
    cases hmap
    rfl

/-- What is done in the course of a run. -/
inductive Deed where
  | evaluates (e : Expr)
  | binds (name : String)
  | raises (stop : Stop)

/-- In the work that begins at a moment something is done on this machine. -/
inductive Moment.Does (limits : Limits) (a : Moment) : Deed → Machine → Prop
  /-- An expression is evaluated: the one of the statement, or any that its evaluation comes to, the
      bodies of functions included. -/
  | evaluates {e : Expr} {p : Point} (hwants : a.statement.wants? a.machine = some e)
    (hreach : (Point.start limits.calls e a.machine).Reaches p) :
    Does limits a (.evaluates p.expr) p.machine
  /-- A parameter is bound, as a call is entered. -/
  | enters {e : Expr} {p q : Point} {call : LiveCall} {param : String}
    (hwants : a.statement.wants? a.machine = some e)
    (hreach : (Point.start limits.calls e a.machine).Reaches p) (hnext : p.Next q)
    (hlive : q.live = call :: p.live) (hparam : param ∈ call.function.params) :
    Does limits a (.binds param) q.machine
  /-- An evaluation stops for a reason of its own: all that it came to has a value. -/
  | raises {e : Expr} {p : Point} {stop : Stop} (hwants : a.statement.wants? a.machine = some e)
    (hreach : (Point.start limits.calls e a.machine).Reaches p) (hstop : p.outcome = .error stop)
    (hnext : ∀ q, p.Next q → ∃ v, q.outcome = .ok v) :
    Does limits a (.raises stop) (p.expr.evalWithin p.depth p.machine).2
  /-- The statement binds its name. -/
  | binds {name : String} {m : Machine}
    (hname : a.statement.declared? = some name ∨ a.statement.assigned? = some name)
    (hwork : a.statement.ownWork limits a.machine = (.ok (), m)) : Does limits a (.binds name) m
  /-- The work of the statement stops. -/
  | stops {stop : Stop} {m : Machine}
    (hwork : a.statement.ownWork limits a.machine = (.error stop, m)) :
    Does limits a (.raises stop) m

/-! ## The mark in the course of the work -/

/-- A step that leaves the mark alone. -/
abbrev Action.KeepsMark {α : Type} (a : Action α) : Prop :=
  a.Within fun m m' => m'.atWork = m.atWork

theorem Action.Keeps.keepsMark {α : Type} {a : Action α} (h : a.Keeps) : a.KeepsMark :=
  h.spares.within fun _ _ => rfl

theorem Action.KeepsMark.atWork_eq {α : Type} {a : Action α} (h : a.KeepsMark) {m m' : Machine}
    {result : Except Stop α} (hrun : a m = (result, m')) : m'.atWork = m.atWork := by
  have hkept : (a m).2.atWork = m.atWork := h m
  rw [hrun] at hkept
  exact hkept

theorem Stmt.work_keepsMark (limits : Limits) (s : Stmt) : (s.work limits).KeepsMark :=
  s.work_within (fun _ _ _ h h' => h'.trans h) (fun _ _ => rfl) (fun _ _ => rfl) (fun _ _ => rfl)
    limits

theorem Stmt.ownWork_keepsMark (limits : Limits) (s : Stmt) : (s.ownWork limits).KeepsMark := by
  cases s with
  | loop site test body =>
    exact .bind (fun _ _ _ h h' => h'.trans h) (test.evalWithin_keeps limits.calls).keepsMark
      fun _ _ => rfl
  | declaration site id value => exact Stmt.work_keepsMark limits _
  | assignment site id value => exact Stmt.work_keepsMark limits _
  | function site id params body => exact Stmt.work_keepsMark limits _
  | print site value => exact Stmt.work_keepsMark limits _
  | block body => exact Stmt.work_keepsMark limits _

/-- Going on to an operand leaves the mark alone. -/
theorem Expr.Asks.atWork_eq {depth : Nat} {m m' : Machine} {e e' : Expr}
    (h : e.Asks depth m e' m') : m'.atWork = m.atWork := by
  have hvalue {e : Expr} {v : Value} {m' : Machine} (hrun : e.evalWithin depth m = (.ok v, m')) :
      m'.atWork = m.atWork := (e.evalWithin_keeps depth).keepsMark.atWork_eq hrun
  have hvalues {es : List Expr} {values : List Value} {m' : Machine}
      (hrun : Expr.evalAllWith (callWithin depth) es m = (.ok values, m')) :
      m'.atWork = m.atWork :=
    (Expr.evalAllWith_keeps (callWithin_keeps depth) es).keepsMark.atWork_eq hrun
  cases h with
  | operand => rfl
  | left hop => rfl
  | right hop hleft hgo => exact hvalue hleft
  | argument hcallee haccepts hdone => exact hvalues hdone
  | test => rfl
  | branch htest => exact hvalue htest
  | element hdone => exact hvalues hdone
  | base => rfl
  | index hbase => exact hvalue hbase

/-- So does entering the body of a function. -/
theorem Point.Next.atWork_eq {p q : Point} (h : p.Next q) :
    q.machine.atWork = p.machine.atWork := by
  cases h with
  | operand h => exact h.atWork_eq
  | body hcallee hcount hargs henter =>
    rename_i depth site callee args m m' live f values call store
    have hkept : m'.atWork = m.atWork :=
      (Expr.evalAllWith_keeps (callWithin_keeps (depth + 1)) args).keepsMark.atWork_eq hargs
    exact hkept

theorem Point.Reaches.atWork_eq {p q : Point} (h : p.Reaches q) :
    q.machine.atWork = p.machine.atWork := by
  induction h with
  | refl => rfl
  | tail _ hnext ih => rw [hnext.atWork_eq, ih]

/-- **In the course of the work** the mark is what it was when the work began. -/
theorem Moment.Does.atWork_eq {limits : Limits} {a : Moment} {deed : Deed} {m : Machine}
    (h : a.Does limits deed m) : m.atWork = a.machine.atWork := by
  cases h with
  | evaluates hwants hreach => exact hreach.atWork_eq
  | enters hwants hreach hnext hlive hparam => exact hnext.atWork_eq.trans hreach.atWork_eq
  | raises hwants hreach hstop hnext =>
    rename_i e p stop
    exact ((p.expr.evalWithin_keeps p.depth).keepsMark p.machine).trans hreach.atWork_eq
  | binds hname hwork => exact (a.statement.ownWork_keepsMark limits).atWork_eq hwork
  | stops hwork => exact (a.statement.ownWork_keepsMark limits).atWork_eq hwork

/-! ## All that happens -/

/-- The second machine is the first one with any mark. -/
def Machine.Remarked (m m' : Machine) : Prop := ∃ mark, m' = { m with atWork := mark }

theorem Machine.Remarked.refl (m : Machine) : m.Remarked m := ⟨m.atWork, rfl⟩

theorem Machine.Remarked.trans {m m' m'' : Machine} (h : m.Remarked m') (h' : m'.Remarked m'') :
    m.Remarked m'' := by
  obtain ⟨_, rfl⟩ := h
  obtain ⟨mark, rfl⟩ := h'
  exact ⟨mark, rfl⟩

/-- The machine after a moment, when the work that begins there has been done. -/
def Moment.after (limits : Limits) (a : Moment) : Machine :=
  if a.beginsWork then (a.statement.ownWork limits a.machine).2 else a.machine

/-- From one machine through these moments to another machine nothing happens but the work that
    begins at the moments, and marks that are set. -/
inductive Machine.Works (limits : Limits) : Machine → List Moment → Machine → Prop
  | done {m m' : Machine} (h : m.Remarked m') : Works limits m [] m'
  | moment {m m' : Machine} {a : Moment} {rest : List Moment} (h : m.Remarked a.machine)
    (hrest : Works limits (a.after limits) rest m') : Works limits m (a :: rest) m'

namespace Machine.Works

variable {limits : Limits} {m m' m'' : Machine} {first second : List Moment}

theorem remarked (hmark : m.Remarked m') (h : Works limits m' first m'') :
    Works limits m first m'' := by
  cases h with
  | done hdone => exact .done (hmark.trans hdone)
  | moment hnext hrest => exact .moment (hmark.trans hnext) hrest

theorem append (h : Works limits m first m') (h' : Works limits m' second m'') :
    Works limits m (first ++ second) m'' := by
  induction h with
  | done hdone => exact h'.remarked hdone
  | moment hnext _ ih => exact .moment hnext (ih h')

/-- A moment at which no work begins. -/
theorem idle (phase : Phase) (s : Stmt) (m : Machine)
    (h : Moment.beginsWork ⟨phase, s, m⟩ = false) : Works limits m [⟨phase, s, m⟩] m := by
  refine .moment (.refl m) (.done ?_)
  unfold Moment.after
  rw [h]
  exact .refl m

end Machine.Works

/-! ## Passages with the right marks -/

/-- If work begins at a moment then a statement is at work that has work to do, and it is marked. -/
def Moment.Marked (a : Moment) : Prop :=
  a.beginsWork = true → a.machine.atWork = some a.statement ∧ ∀ body, a.statement ≠ .block body

/-- The execution has stopped in the work that has begun last: after it there are only statements
    that fail for the same reason. -/
def Passage.StopsInWork (limits : Limits) (passage : Passage) (stop : Stop) : Prop :=
  ∃ before a after, passage.journal = before ++ a :: after ∧ a.beginsWork = true ∧
    a.statement.ownWork limits a.machine = (.error stop, passage.machine) ∧
    ∀ b ∈ after, b.phase = .fails stop

/-- A passage from a machine to one of some kind, with the right marks. -/
structure Passage.IsMarked (limits : Limits) (post : Machine → Prop) (m : Machine)
    (passage : Passage) : Prop where
  works : m.Works limits passage.journal passage.machine
  marked : ∀ a ∈ passage.journal, a.Marked
  post : passage.result = .ok () → post passage.machine
  stops : ∀ stop, stop ≠ .endless → passage.result = .error stop → passage.StopsInWork limits stop

namespace Passage.IsMarked

variable {limits : Limits} {post : Machine → Prop} {m : Machine} {passage : Passage}

theorem ofEnd (works : m.Works limits passage.journal passage.machine)
    (marked : ∀ a ∈ passage.journal, a.Marked) (hresult : passage.result = .ok ())
    (hpost : post passage.machine) : passage.IsMarked limits post m := by
  refine ⟨works, marked, fun _ => hpost, fun stop _ hstop => ?_⟩
  rw [hresult] at hstop
  cases hstop

theorem ofStop {stop : Stop} (works : m.Works limits passage.journal passage.machine)
    (marked : ∀ a ∈ passage.journal, a.Marked) (hresult : passage.result = .error stop)
    (hstops : stop ≠ .endless → passage.StopsInWork limits stop) :
    passage.IsMarked limits post m := by
  refine ⟨works, marked, fun hok => ?_, fun reason hreason hstop => ?_⟩
  · rw [hresult] at hok
    cases hok
  · obtain rfl := Except.error.inj (hresult.symm.trans hstop)
    exact hstops hreason

end Passage.IsMarked

/-- From every machine of some kind a journey sets right marks, and it leads to one of another
    kind. -/
def Journey.Marks (limits : Limits) (pre post : Machine → Prop) (j : Journey) : Prop :=
  ∀ m, pre m → (j m).IsMarked limits post m

/-- Any machine. -/
abbrev anyMachine : Machine → Prop := fun _ => True

/-- A machine on which this statement is marked. -/
abbrev WorksOn (s : Stmt) : Machine → Prop := fun m => m.atWork = some s

namespace Journey.Marks

variable {limits : Limits} {pre mid post : Machine → Prop} {j next : Journey}

theorem weaken (h : j.Marks limits anyMachine post) : j.Marks limits pre post :=
  fun m _ => h m trivial

theorem nothing : (Journey.silent (pure ())).Marks limits pre anyMachine := fun m _ =>
  .ofEnd (.done (.refl m)) (List.forall_mem_nil _) rfl trivial

/-- Marking a statement. -/
theorem mark (s : Stmt) : (Journey.silent (setAtWork s)).Marks limits pre (WorksOn s) := fun _ _ =>
  .ofEnd (.done ⟨some s, rfl⟩) (List.forall_mem_nil _) rfl rfl

theorem andThen (hj : j.Marks limits pre mid) (hnext : next.Marks limits mid post) :
    (j.andThen next).Marks limits pre post := by
  intro m hm
  have hfirst := hj m hm
  unfold Journey.andThen
  dsimp only
  cases hresult : (j m).result with
  | error stop =>
    exact .ofStop hfirst.works hfirst.marked hresult fun hstop => hfirst.stops stop hstop hresult
  | ok u =>
    have hsecond := hnext (j m).machine (hfirst.post hresult)
    refine ⟨hfirst.works.append hsecond.works, fun a ha => ?_, hsecond.post,
      fun stop hstop hfails => ?_⟩
    · exact (List.mem_append.mp ha).elim (hfirst.marked a) (hsecond.marked a)
    · obtain ⟨before, a, after, hjournal, hbegins, hwork, hafter⟩ :=
        hsecond.stops stop hstop hfails
      refine ⟨(j m).journal ++ before, a, after, ?_, hbegins, hwork, hafter⟩
      dsimp only
      rw [hjournal, List.append_assoc]

/-- Work of one's own, with nothing around it but the moments when it begins and when it is over. -/
theorem work {s : Stmt} (hs : s.isSimple = true) :
    ((Journey.silent (s.ownWork limits)).around s).Marks limits (WorksOn s) anyMachine := by
  intro m hm
  let start : Moment := ⟨.starts, s, m⟩
  have hbegins : start.beginsWork = true := hs
  have hafter : start.after limits = (s.ownWork limits m).2 := if_pos hbegins
  let last : Moment := ⟨.ofResult (s.ownWork limits m).1, s, (s.ownWork limits m).2⟩
  have hlast : last.beginsWork = false := Moment.beginsWork_ofResult ..
  refine ⟨?_, fun a ha => ?_, fun _ => trivial, fun stop hstop hfails => ?_⟩
  · refine .moment (.refl m) ?_
    rw [hafter]
    exact .idle _ _ _ hlast
  · rcases List.mem_cons.mp ha with rfl | ha
    · refine fun _ => ⟨hm, fun body hblock => ?_⟩
      have hblock : s = .block body := hblock
      rw [hblock] at hs
      cases hs
    · rw [List.mem_singleton.mp ha]
      exact fun h => absurd (hlast.symm.trans h) Bool.false_ne_true
  · have hresult : (s.ownWork limits m).1 = .error stop := hfails
    refine ⟨[], start, [last], rfl, hbegins, Prod.ext hresult rfl, fun b hb => ?_⟩
    rw [List.mem_singleton.mp hb]
    show Phase.ofResult (s.ownWork limits m).1 = _
    rw [hresult]
    rfl

/-- Around other statements there is no work of one's own. -/
theorem around {s : Stmt} (hj : j.Marks limits pre post) (hs : s.isSimple = false) :
    (j.around s).Marks limits pre post := by
  intro m hm
  have hinside := hj m hm
  let last : Moment := ⟨.ofResult (j m).result, s, (j m).machine⟩
  have hlast : last.beginsWork = false := Moment.beginsWork_ofResult ..
  refine ⟨?_, fun a ha => ?_, hinside.post, fun stop hstop hfails => ?_⟩
  · exact (Works.idle .starts s m hs).append (hinside.works.append (.idle _ _ _ hlast))
  · rcases List.mem_cons.mp ha with rfl | ha
    · exact fun h => absurd (hs.symm.trans h) Bool.false_ne_true
    · rcases List.mem_append.mp ha with ha | ha
      · exact hinside.marked a ha
      · rw [List.mem_singleton.mp ha]
        exact fun h => absurd (hlast.symm.trans h) Bool.false_ne_true
  · obtain ⟨before, a, after, hjournal, hbegins, hwork, hafter⟩ := hinside.stops stop hstop hfails
    refine ⟨⟨.starts, s, m⟩ :: before, a, after ++ [last], ?_, hbegins, hwork, fun b hb => ?_⟩
    · show (⟨.starts, s, m⟩ : Moment) :: ((j m).journal ++ [last]) = _
      rw [hjournal]
      simp
    · rcases List.mem_append.mp hb with hb | hb
      · exact hafter b hb
      · rw [List.mem_singleton.mp hb]
        show Phase.ofResult (j m).result = _
        have hresult : (j m).result = .error stop := hfails
        rw [hresult]
        rfl

/-- The rounds of a loop: whatever its body marks, in the end the body has to mark the loop again,
    or the next test would be evaluated for another statement. -/
theorem rounds {site : Site} {test : Expr} {body : Block}
    (hj : j.Marks limits anyMachine (WorksOn (.loop site test body))) (count : Nat) :
    (j.rounds (.loop site test body) (Value.truthy <$> test.evalWithin limits.calls) count).Marks
      limits (WorksOn (.loop site test body)) anyMachine := by
  induction count with
  | zero => exact fun m _ =>
      .ofStop (.done (.refl m)) (List.forall_mem_nil _) rfl fun hstop => absurd rfl hstop
  | succ count ih =>
    intro m hm
    let first : Moment := ⟨.tests, .loop site test body, m⟩
    have hmarked : first.Marked := fun _ => ⟨hm, fun _ => Stmt.noConfusion⟩
    have honly : ∀ a ∈ [first], a.Marked := List.forall_mem_singleton.mpr hmarked
    unfold Journey.rounds
    rcases hrun : (Value.truthy <$> test.evalWithin limits.calls) m with ⟨result, m'⟩
    have hwork := Stmt.ownWork_loop site body hrun
    have hafter : first.after limits = m' := congrArg Prod.snd hwork
    have htested : m.Works limits [first] m' := .moment (.refl m) (.done (hafter ▸ .refl _))
    rcases result with stop | _ | _
    · exact .ofStop htested honly rfl fun _ =>
        ⟨[], first, [], rfl, rfl, hwork, List.forall_mem_nil _⟩
    · exact .ofEnd htested honly rfl trivial
    · have hrest := hj.andThen ih m' trivial
      refine ⟨htested.append hrest.works, fun a ha => ?_, fun _ => trivial,
        fun stop hstop hfails => ?_⟩
      · exact (List.mem_cons.mp ha).elim (fun h => h ▸ hmarked) (hrest.marked a)
      · obtain ⟨before, a, after, hjournal, hwork⟩ := hrest.stops stop hstop hfails
        exact ⟨first :: before, a, after, congrArg (first :: ·) hjournal, hwork⟩

end Journey.Marks

mutual

/-- A statement that is marked does all its work marked, and so do the statements in it. -/
theorem Stmt.watch_marks (limits : Limits) :
    ∀ s : Stmt, (s.watch limits).Marks limits (WorksOn s) anyMachine
  | .block body => by
    unfold Stmt.watch
    exact .around (Block.watch_marks limits body).weaken rfl
  | .loop site test body => by
    unfold Stmt.watch
    have hbody := (Block.watch_marks limits body).around (s := .block body) rfl
    exact .around (.rounds (hbody.andThen (.mark _)) _) rfl
  | .declaration .. | .assignment .. | .function .. | .print .. => by
    unfold Stmt.watch
    exact .work rfl

theorem Stmt.watchAll_marks (limits : Limits) :
    ∀ ss : List Stmt, (Stmt.watchAll limits ss).Marks limits anyMachine anyMachine
  | [] => .nothing
  | s :: rest => by
    unfold Stmt.watchAll
    exact .andThen (.mark s)
      (.andThen (Stmt.watch_marks limits s) (Stmt.watchAll_marks limits rest))

/-- A block needs no mark, and leaves the one of its last statement behind. -/
theorem Block.watch_marks (limits : Limits) :
    ∀ b : Block, (b.watch limits).Marks limits anyMachine anyMachine
  | .mk _ statements => by
    unfold Block.watch
    exact Stmt.watchAll_marks limits statements

end

/-! ## The mark of a run -/

/-- How a program that is run deals with the mark. -/
structure Program.MarksWork (limits : Limits) (program : Program) (m : Machine) : Prop where
  /-- From the clean slate on, all that happens happens in the work that begins at the moments of
      the journal, except that marks are set. -/
  works : m.reset.Works limits (program.watch limits m).journal
    (program.watch limits m).machine
  /-- When work begins, it is that of a simple statement, or the test of a loop; and while an
      expression is evaluated, a name is bound or a stop is raised in its course, at whatever depth,
      the mark is on this very statement. -/
  marks : ∀ a ∈ (program.watch limits m).journal, a.beginsWork = true →
    (∀ body, a.statement ≠ .block body) ∧
      ∀ deed m', a.Does limits deed m' → m'.atWork = some a.statement
  /-- If the run stops then the work that was begun last has raised the stop, nothing has happened
      since, and the mark stays on the statement whose work this was. -/
  stops : ∀ stop, stop ≠ .endless → (program.watch limits m).result = .error stop →
    ∃ before a after, (program.watch limits m).journal = before ++ a :: after ∧
      a.beginsWork = true ∧ a.Does limits (.raises stop) (program.watch limits m).machine ∧
      (∀ b ∈ after, b.phase = .fails stop) ∧
      (program.watch limits m).machine.atWork = some a.statement

/-- A program marks all the work that is done in the course of a run. -/
theorem Program.marksWork (limits : Limits) (program : Program) (m : Machine) :
    program.MarksWork limits m := by
  have hmarked : (program.watch limits m).IsMarked limits anyMachine m.reset :=
    (Block.watch_marks limits program.block).around (s := .block program.block) rfl m.reset trivial
  refine ⟨hmarked.works, fun a ha hbegins => ?_, fun stop hstop hfails => ?_⟩
  · obtain ⟨hmark, hblock⟩ := hmarked.marked a ha hbegins
    exact ⟨hblock, fun deed m' hdoes => hdoes.atWork_eq.trans hmark⟩
  · obtain ⟨before, a, after, hjournal, hbegins, hwork, hafter⟩ := hmarked.stops stop hstop hfails
    have hdoes : a.Does limits (.raises stop) (program.watch limits m).machine := .stops hwork
    have ha : a ∈ (program.watch limits m).journal := by
      rw [hjournal]
      exact List.mem_append_right before (List.mem_cons_self ..)
    exact ⟨before, a, after, hjournal, hbegins, hdoes, hafter,
      hdoes.atWork_eq.trans (hmarked.marked a ha hbegins).1⟩

/-! ## The place in the report -/

/-- An issue quotes a place, with a caption beside it, and no other one; if there is no place, it
    quotes nothing. -/
structure Issue.Quotes (issue : Issue) (site : Site) (caption : String) : Prop where
  placed : ∀ span, site = some span → issue.annotations = [⟨span, caption⟩]
  unplaced : site = none → issue.annotations = []

/-- An issue tells of a stop in a statement at this site. -/
inductive Stop.IsToldBy (site : Site) (issue : Issue) : Stop → Prop
  | failure {f : Failure}
    (hintro : issue.intro = "The program failed with " ++ f.cause.message ++ ".")
    (hplace : issue.Quotes site f.cause.kind.text)
    (hfooter : issue.footer = f.calls.map fun call => "... inside " ++ call.text) :
    IsToldBy site issue (.failure f)
  | tooDeep (hintro : issue.intro = "The program went too deep into function calls.")
    (hplace : issue.Quotes site "while doing this")
    (hfooter : issue.footer = ["Perhaps some recursion never reaches its base case?"]) :
    IsToldBy site issue .tooDeep

/-- Is there an issue for the stop?  A failure in a call with a value that cannot be shown has
    none. -/
def Stop.isTellable (nesting : Nat) : Stop → Bool
  | .failure f => f.isShowable nesting
  | .tooDeep => true
  | .misfit | .mismatch | .host _ | .endless => false

theorem annotateSite_quotes (site : Site) (caption intro : String) (footer : List String) :
    Issue.Quotes ⟨intro, annotateSite site caption, footer⟩ site caption := by
  constructor
  · rintro span rfl
    rfl
  · rintro rfl
    rfl

/-- An issue that tells of a stop quotes at most one place. -/
theorem Stop.IsToldBy.length_annotations_le {site : Site} {issue : Issue} {stop : Stop}
    (h : stop.IsToldBy site issue) : issue.annotations.length ≤ 1 := by
  have hplace : ∃ caption, issue.Quotes site caption := by
    cases h with
    | failure hintro hplace hfooter => exact ⟨_, hplace⟩
    | tooDeep hintro hplace hfooter => exact ⟨_, hplace⟩
  obtain ⟨caption, hplaced, hunplaced⟩ := hplace
  cases site with
  | none => rw [hunplaced rfl]; exact Nat.zero_le 1
  | some span => rw [hplaced span rfl]; exact Nat.le_refl 1

/-- What a session reports if its program stops. -/
theorem CommandLine.runProgram_of_error {limits : Limits} {program : Program} {stop : Stop}
    {m : Machine} (hrun : program.runWithin limits (Machine.new .fresh) = (.error stop, m))
    (htellable : stop.isTellable limits.nesting = true) (name : String) (report : Report)
    (index : SourceIndex) (err : String) (picks : Picks) :
    ∃ issue, stop.IsToldBy (m.atWork.bind Stmt.site) issue ∧
      runProgram limits name program report index err picks =
        complain (linesText m.echoed.toList) (err ++ report.info ["Running", name])
          (report.add issue) index picks := by
  unfold runProgram
  rw [hrun]
  cases stop with
  | failure f =>
    have hshowable : f.isShowable limits.nesting = true := htellable
    dsimp only
    rw [if_pos hshowable]
    exact ⟨_, .failure rfl (annotateSite_quotes ..) rfl, rfl⟩
  | tooDeep => exact ⟨_, .tooDeep rfl (annotateSite_quotes ..) rfl, rfl⟩
  | misfit => cases htellable
  | mismatch => cases htellable
  | host fault => cases htellable
  | endless => cases htellable

/-- **The mark is right.**  In the course of a run, wherever it starts and whatever the limits are,
    the statement that is marked is the one whose work is done: a declaration, an assignment, a
    `print`, or a loop whose test is evaluated, after any number of rounds.  This is the course that
    the program takes when it is run.  And if it stops then the mark stays on the statement whose
    own work has stopped, and if there is an issue for that, then the one that a session reports
    quotes the place of that statement. -/
theorem run_marks_work (limits : Limits) (program : Program) (m : Machine) :
    program.MarksWork limits m ∧
    ((program.watch limits m).result, (program.watch limits m).machine) =
      program.runWithin limits m ∧
    ∀ stop m', stop ≠ .endless →
      program.runWithin limits (Machine.new .fresh) = (.error stop, m') →
      ∃ a ∈ (program.watch limits (Machine.new .fresh)).journal, a.beginsWork = true ∧
        a.Does limits (.raises stop) m' ∧ m'.atWork = some a.statement ∧
        (stop.isTellable limits.nesting = true → ∀ name report index err picks,
          ∃ issue, stop.IsToldBy a.statement.site issue ∧
            CommandLine.runProgram limits name program report index err picks =
              CommandLine.complain (CommandLine.linesText m'.echoed.toList)
                (err ++ report.info ["Running", name]) (report.add issue) index picks) := by
  refine ⟨program.marksWork limits m, program.watch_eq_run limits m, fun stop m' hstop hrun => ?_⟩
  have hwatch := program.watch_eq_run limits (Machine.new .fresh)
  obtain ⟨hresult, rfl⟩ := Prod.mk.inj (hwatch.trans hrun)
  obtain ⟨before, a, after, hjournal, hbegins, hdoes, -, hmark⟩ :=
    (program.marksWork limits (Machine.new .fresh)).stops stop hstop hresult
  refine ⟨a, ?_, hbegins, hdoes, hmark, fun htellable name report index err picks => ?_⟩
  · rw [hjournal]
    exact List.mem_append_right before (List.mem_cons_self ..)
  · have htold := CommandLine.runProgram_of_error hrun htellable name report index err picks
    rw [hmark] at htold
    exact htold

end BellaLang
