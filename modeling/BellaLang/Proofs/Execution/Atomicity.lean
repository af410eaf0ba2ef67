import BellaLang.Proofs.Execution.Journal

/-!
What an execution leaves behind, above all if it fails.

Nothing is taken back when a statement fails, so it matters how far it came.  A statement that has
no statements in it comes no way at all; a block comes as far as its first statement that fails; and
what has been printed stays printed.

  1. Of two machines in the course of an execution, the later one has printed what the earlier one
     had, and then some lines more, and the listener has got these very lines (`Machine.Adds`).
     This is closed under everything that executions are put together from (`Journey.Prints`).
  2. A step is *atomic* if it changes nothing but the host when it stops.  So is a sequence whose
     first step changes nothing but the host in any case, and whose second step is atomic
     (`Atomic.bind`); and such sequences are what simple statements do (`Stmt.work_atomic`).
  3. Statements that a block stops in fall into those that have succeeded one after the other
     (`Stmt.Succeed`), the one that fails, and those that have no part in it
     (`Stmt.watchAll_error_iff`).

Main statement: `exec_fails_cleanly`, for every statement and every machine.
-/

namespace BellaLang

open Machine

/-! ## Lines that are added -/

/-- Lines have come at the end of the output, and the listener has got the same lines. -/
def Machine.Adds (before after : Machine) : Prop :=
  ∃ lines : Array String,
    after.output = before.output ++ lines ∧ after.echoed = before.echoed ++ lines

namespace Machine.Adds

variable {m m' m'' : Machine}

theorem of_eq (houtput : m'.output = m.output) (hechoed : m'.echoed = m.echoed) : m.Adds m' :=
  ⟨#[], by rw [houtput, Array.append_empty], by rw [hechoed, Array.append_empty]⟩

theorem refl (m : Machine) : m.Adds m := of_eq rfl rfl

theorem trans (h : m.Adds m') (h' : m'.Adds m'') : m.Adds m'' := by
  obtain ⟨lines, houtput, hechoed⟩ := h
  obtain ⟨more, houtput', hechoed'⟩ := h'
  exact ⟨lines ++ more, by rw [houtput', houtput, Array.append_assoc],
    by rw [hechoed', hechoed, Array.append_assoc]⟩

end Machine.Adds

/-! ## What steps do to the machine -/

namespace Action

variable {α β : Type}

/-- A step that changes nothing but the host, however it ends. -/
def Spares (a : Action α) : Prop := ∀ m : Machine, ∃ host, (a m).2 = { m with host }

/-- A step that changes nothing but the host if it stops. -/
def Atomic (a : Action α) : Prop :=
  ∀ (m : Machine) (stop : Stop), (a m).1 = .error stop → ∃ host, (a m).2 = { m with host }

/-- A step that takes every machine to one that is so related to it, however it ends. -/
def Within (R : Machine → Machine → Prop) (a : Action α) : Prop := ∀ m : Machine, R m (a m).2

theorem Keeps.spares {a : Action α} (h : a.Keeps) : a.Spares := fun m =>
  (h m).elim fun _ hkept => ⟨_, hkept⟩

namespace Spares

theorem newIdentity : Spares Machine.newIdentity := fun _ => ⟨_, rfl⟩

theorem ask (f : Machine → α) : Spares (Action.ask f) := fun m => ⟨m.host, rfl⟩

theorem stop (reason : Stop) : Spares (Action.stop reason : Action α) := fun m => ⟨m.host, rfl⟩

theorem within {R : Machine → Machine → Prop} (hhost : ∀ m host, R m { m with host })
    {a : Action α} (h : a.Spares) : a.Within R := by
  intro m
  obtain ⟨host, hspared⟩ := h m
  rw [hspared]
  exact hhost m host

end Spares

namespace Atomic

theorem stop (reason : Stop) : Atomic (Action.stop reason : Action α) := fun m _ _ => ⟨m.host, rfl⟩

theorem changeStore (change : Store → Except Cause Store) :
    Atomic (Machine.changeStore change) := by
  intro m stop hstop
  rcases changeStore_cases change m with ⟨cause, h⟩ | ⟨store, -, h⟩
  · exact ⟨m.host, by rw [h]⟩
  · rw [h] at hstop
    cases hstop

theorem emit (line : String) : Atomic (Machine.emit line) := fun _ _ hstop => nomatch hstop

/-- If the second step stops, nothing but the host has been changed by then. -/
theorem bind {a : Action α} {next : α → Action β} (ha : a.Spares) (hnext : ∀ x, (next x).Atomic) :
    Atomic (a >>= next) := by
  intro m stop hstop
  obtain ⟨host, hspared⟩ := ha m
  rcases hrun : a m with ⟨result, m'⟩
  rw [hrun] at hspared
  have hm' : m' = { m with host } := hspared
  cases result with
  | error reason =>
    rw [bind_apply_stop hrun]
    exact ⟨host, hm'⟩
  | ok x =>
    rw [bind_apply_ok hrun] at hstop ⊢
    obtain ⟨later, hlater⟩ := hnext x m' stop hstop
    exact ⟨later, by rw [hlater, hm']⟩

theorem ite {p : Prop} [Decidable p] {a b : Action α} (ha : a.Atomic) (hb : b.Atomic) :
    Atomic (if p then a else b) := by
  split
  · exact ha
  · exact hb

end Atomic

namespace Within

variable {R : Machine → Machine → Prop}

theorem bind (htrans : ∀ ⦃m m' m''⦄, R m m' → R m' m'' → R m m'') {a : Action α}
    {next : α → Action β} (ha : a.Within R) (hnext : ∀ x, (next x).Within R) :
    Within R (a >>= next) := by
  intro m
  have hfirst := ha m
  rcases hrun : a m with ⟨result, m'⟩
  rw [hrun] at hfirst
  cases result with
  | error stop =>
    rw [bind_apply_stop hrun]
    exact hfirst
  | ok x =>
    rw [bind_apply_ok hrun]
    exact htrans hfirst (hnext x m')

theorem ite {p : Prop} [Decidable p] {a b : Action α} (ha : a.Within R) (hb : b.Within R) :
    Within R (if p then a else b) := by
  split
  · exact ha
  · exact hb

end Within

end Action

/-! ## Simple statements -/

/-- Has a statement no statements in it? -/
def Stmt.isSimple : Stmt → Bool
  | .declaration .. | .assignment .. | .function .. | .print .. => true
  | .block _ | .loop .. => false

/-- A simple statement that fails has changed nothing but the host. -/
theorem Stmt.work_atomic (limits : Limits) (s : Stmt) : (s.work limits).Atomic := by
  have hvalue (value : Expr) : (value.evalWithin limits.calls).Spares :=
    (value.evalWithin_keeps limits.calls).spares
  cases s with
  | declaration site id value =>
    exact .bind (.ask _) fun visible =>
      .ite (.stop _) (.bind (hvalue value) fun v => .changeStore _)
  | assignment site id value => exact .bind (hvalue value) fun v => .changeStore _
  | function site id params body => exact .bind .newIdentity fun identity => .changeStore _
  | print site value =>
    refine .bind (hvalue value) fun v => ?_
    exact .bind (Action.Keeps.shown limits.nesting v).spares fun text => .emit text
  | block body => exact fun m _ _ => ⟨m.host, rfl⟩
  | loop site test body => exact fun m _ _ => ⟨m.host, rfl⟩

/-- A simple statement changes the host and the store and prints, and that is all it can do: what
    all of these stay within, it stays within. -/
theorem Stmt.work_within {R : Machine → Machine → Prop}
    (htrans : ∀ ⦃m m' m''⦄, R m m' → R m' m'' → R m m'') (hhost : ∀ m host, R m { m with host })
    (hstore : ∀ m store, R m { m with store }) (hemit : ∀ line, (emit line).Within R)
    (limits : Limits) (s : Stmt) : (s.work limits).Within R := by
  have hvalue (value : Expr) : (value.evalWithin limits.calls).Within R :=
    (value.evalWithin_keeps limits.calls).spares.within hhost
  have hchange (change : Store → Except Cause Store) : (changeStore change).Within R := by
    intro m
    rcases changeStore_cases change m with ⟨cause, h⟩ | ⟨store, -, h⟩
    · rw [h]
      exact hhost m m.host
    · rw [h]
      exact hstore m store
  cases s with
  | declaration site id value =>
    refine .bind htrans ((Action.Spares.ask _).within hhost) fun visible => ?_
    exact .ite ((Action.Spares.stop _).within hhost)
      (.bind htrans (hvalue value) fun v => hchange _)
  | assignment site id value => exact .bind htrans (hvalue value) fun v => hchange _
  | function site id params body =>
    exact .bind htrans (Action.Spares.newIdentity.within hhost) fun identity => hchange _
  | print site value =>
    refine .bind htrans (hvalue value) fun v => ?_
    exact .bind htrans ((Action.Keeps.shown limits.nesting v).spares.within hhost) hemit
  | block body => exact fun m => hhost m m.host
  | loop site test body => exact fun m => hhost m m.host

/-- A simple statement adds to the output what it hands to the listener. -/
theorem Stmt.work_prints (limits : Limits) (s : Stmt) : (s.work limits).Within Machine.Adds :=
  s.work_within (fun _ _ _ => .trans) (fun _ _ => .of_eq rfl rfl) (fun _ _ => .of_eq rfl rfl)
    (fun line _ => ⟨#[line], rfl, rfl⟩) limits

/-! ## The course of an execution -/

/-- The machines after the start of an execution: at its moments, and in the end. -/
def Passage.later (passage : Passage) : List Machine :=
  passage.journal.map (·.machine) ++ [passage.machine]

/-- An execution in the course of which output is only added to. -/
def Journey.Prints (j : Journey) : Prop := ∀ m, (m :: (j m).later).Pairwise Machine.Adds

/-- Two courses make one if the second one sets out where the first one ends. -/
theorem Machine.adds_through (first : List Machine) {second : List Machine} {m : Machine}
    (hfirst : (first ++ [m]).Pairwise Adds) (hsecond : (m :: second).Pairwise Adds) :
    (first ++ second).Pairwise Adds := by
  obtain ⟨hbefore, -, hupTo⟩ := List.pairwise_append.mp hfirst
  obtain ⟨hfrom, hafter⟩ := List.pairwise_cons.mp hsecond
  refine List.pairwise_append.mpr ⟨hbefore, hafter, fun a ha b hb => ?_⟩
  exact (hupTo a ha m (List.mem_singleton_self m)).trans (hfrom b hb)

/-- A machine that nothing happens to. -/
theorem Machine.adds_stay (m : Machine) : [m, m, m].Pairwise Adds := by
  simp [Adds.refl]

namespace Journey.Prints

variable {j next : Journey}

theorem silent {a : Action Unit} (h : a.Within Adds) : (Journey.silent a).Prints :=
  fun m => List.pairwise_pair.mpr (h m)

theorem andThen (hj : j.Prints) (hnext : next.Prints) : (j.andThen next).Prints := by
  intro m
  have hfirst : (m :: (j m).journal.map (·.machine) ++ [(j m).machine]).Pairwise Adds := hj m
  have hboth := adds_through _ hfirst (hnext (j m).machine)
  unfold Journey.andThen
  dsimp only
  cases (j m).result with
  | error stop => exact hfirst
  | ok u =>
    unfold Passage.later at hboth ⊢
    dsimp only
    rw [List.map_append, List.append_assoc]
    exact hboth

/-- At the moments when a statement starts and is over the machine is as before and after. -/
theorem around (statement : Stmt) (hj : j.Prints) : (j.around statement).Prints := by
  intro m
  have hstart : ([m, m] ++ (j m).later).Pairwise Adds := adds_through [m, m] (adds_stay m) (hj m)
  unfold Passage.later at hstart
  rw [← List.append_assoc] at hstart
  have hend := adds_through _ hstart (adds_stay (j m).machine)
  unfold Journey.around Passage.later
  simpa using hend

theorem rounds (loop : Stmt) {test : Action Bool} (htest : test.Within Adds) (hj : j.Prints)
    (count : Nat) : (j.rounds loop test count).Prints := by
  induction count with
  | zero => exact silent fun m => .refl m
  | succ count ih =>
    intro m
    have hfirst := htest m
    unfold Journey.rounds
    rcases hrun : test m with ⟨result, m'⟩
    rw [hrun] at hfirst
    have htested : [m, m, m'].Pairwise Adds :=
      adds_through [m, m] (adds_stay m) (List.pairwise_pair.mpr hfirst)
    rcases result with _ | _ | _
    · exact htested
    · exact htested
    · exact adds_through [m, m] htested (hj.andThen ih m')

end Journey.Prints

mutual

/-- In the course of a statement output is only added to, whatever the limits. -/
theorem Stmt.watch_prints (limits : Limits) : ∀ s : Stmt, (s.watch limits).Prints
  | .block body => by
    unfold Stmt.watch
    exact .around _ (Block.watch_prints limits body)
  | .loop site test body => by
    unfold Stmt.watch
    have htest : (Value.truthy <$> test.evalWithin limits.calls).Within Adds :=
      .bind (fun _ _ _ => .trans)
        ((test.evalWithin_keeps limits.calls).spares.within fun _ _ => .of_eq rfl rfl)
        fun _ m => .refl m
    have hbody := Journey.Prints.around (.block body) (Block.watch_prints limits body)
    exact .around _ (.rounds _ htest (hbody.andThen (.silent fun m => .of_eq rfl rfl)) _)
  | .declaration .. | .assignment .. | .function .. | .print .. => by
    unfold Stmt.watch
    exact .around _ (.silent (Stmt.work_prints _ _))

theorem Stmt.watchAll_prints (limits : Limits) :
    ∀ ss : List Stmt, (Stmt.watchAll limits ss).Prints
  | [] => .silent fun m => .refl m
  | s :: rest => by
    unfold Stmt.watchAll
    exact .andThen (.silent fun m => .of_eq rfl rfl)
      (.andThen (Stmt.watch_prints limits s) (Stmt.watchAll_prints limits rest))

theorem Block.watch_prints (limits : Limits) : ∀ b : Block, (b.watch limits).Prints
  | .mk _ statements => by
    unfold Block.watch
    exact Stmt.watchAll_prints limits statements

end

/-! ## Where a block stops -/

/-- The machine with a statement at work. -/
def Machine.workingOn (m : Machine) (s : Stmt) : Machine := { m with atWork := some s }

/-- Statements have succeeded one after the other, from one machine through these moments to another
    machine; each of them was marked as the one at work when its turn came. -/
inductive Stmt.Succeed (limits : Limits) : List Stmt → Machine → List Moment → Machine → Prop
  | nil (m : Machine) : Succeed limits [] m [] m
  | cons {s : Stmt} {rest : List Stmt} {m m' m'' : Machine} {first more : List Moment}
    (h : s.watch limits (m.workingOn s) = ⟨.ok (), m', first⟩)
    (hrest : Succeed limits rest m' more m'') : Succeed limits (s :: rest) m (first ++ more) m''

section
variable {limits : Limits} {s : Stmt} {rest : List Stmt} {m m' : Machine} {journal : List Moment}

/-- The first of several statements succeeds, and the others go on where it ends. -/
theorem Stmt.watchAll_cons_ok (h : s.watch limits (m.workingOn s) = ⟨.ok (), m', journal⟩) :
    Stmt.watchAll limits (s :: rest) m =
      ⟨(Stmt.watchAll limits rest m').result, (Stmt.watchAll limits rest m').machine,
        journal ++ (Stmt.watchAll limits rest m').journal⟩ := by
  show (s.watch limits).andThen (Stmt.watchAll limits rest) (m.workingOn s) = _
  rw [Journey.andThen, h]

/-- The first of several statements stops, and that is all. -/
theorem Stmt.watchAll_cons_error {stop : Stop}
    (h : s.watch limits (m.workingOn s) = ⟨.error stop, m', journal⟩) :
    Stmt.watchAll limits (s :: rest) m = ⟨.error stop, m', journal⟩ := by
  show (s.watch limits).andThen (Stmt.watchAll limits rest) (m.workingOn s) = _
  rw [Journey.andThen, h]

/-- Several statements come to their end if they succeed one after the other. -/
theorem Stmt.watchAll_ok_iff (ss : List Stmt) :
    Stmt.watchAll limits ss m = ⟨.ok (), m', journal⟩ ↔ Succeed limits ss m journal m' := by
  induction ss generalizing m journal with
  | nil =>
    constructor
    · intro h
      have hnil : (⟨.ok (), m, []⟩ : Passage) = ⟨.ok (), m', journal⟩ := h
      cases hnil
      exact .nil _
    · rintro ⟨⟩
      rfl
  | cons s rest ih =>
    constructor
    · intro h
      rcases hrun : s.watch limits (m.workingOn s) with ⟨result, m₁, first⟩
      cases result with
      | error stop =>
        rw [watchAll_cons_error hrun] at h
        cases h
      | ok u =>
        rw [watchAll_cons_ok hrun] at h
        obtain ⟨hresult, hmachine, rfl⟩ := Passage.mk.inj h
        exact .cons hrun (ih.mp (by rw [← hresult, ← hmachine]))
    · rintro (_ | ⟨hrun, hrest⟩)
      rw [watchAll_cons_ok hrun, ih.mpr hrest]

/-- **Several statements stop** in one of them, after those before it have succeeded.  Those behind
    it have no part in it. -/
theorem Stmt.watchAll_error_iff (ss : List Stmt) (stop : Stop) :
    Stmt.watchAll limits ss m = ⟨.error stop, m', journal⟩ ↔
      ∃ done s rest m₁ first last, ss = done ++ s :: rest ∧ Succeed limits done m first m₁ ∧
        s.watch limits (m₁.workingOn s) = ⟨.error stop, m', last⟩ ∧ journal = first ++ last := by
  induction ss generalizing m journal with
  | nil =>
    constructor
    · intro h
      cases h
    · rintro ⟨done, s, rest, m₁, first, last, hsplit, -⟩
      exact absurd hsplit.symm (List.append_ne_nil_of_right_ne_nil done (List.cons_ne_nil s rest))
  | cons s rest ih =>
    constructor
    · intro h
      rcases hrun : s.watch limits (m.workingOn s) with ⟨result, m₁, first⟩
      cases result with
      | error reason =>
        rw [watchAll_cons_error hrun] at h
        exact ⟨[], s, rest, m, [], journal, rfl, .nil m, hrun.trans h, rfl⟩
      | ok u =>
        rw [watchAll_cons_ok hrun] at h
        obtain ⟨hresult, hmachine, rfl⟩ := Passage.mk.inj h
        obtain ⟨done, s', rest', m₂, before, last, hsplit, hdone, hstops, hjournal⟩ :=
          ih.mp (by rw [← hresult, ← hmachine])
        exact ⟨s :: done, s', rest', m₂, first ++ before, last, by rw [hsplit, List.cons_append],
          .cons hrun hdone, hstops, by rw [hjournal, List.append_assoc]⟩
    · rintro ⟨done, s', rest', m₁, first, last, hsplit, hdone, hstops, rfl⟩
      cases hdone with
      | nil =>
        obtain ⟨rfl, rfl⟩ := List.cons.inj hsplit
        exact watchAll_cons_error hstops
      | cons hrun hmore =>
        obtain ⟨rfl, rfl⟩ := List.cons.inj hsplit
        rw [watchAll_cons_ok hrun,
          ih.mpr ⟨_, s', rest', m₁, _, last, rfl, hmore, hstops, rfl⟩, List.append_assoc]

end

/-! ## What a failure leaves behind -/

/-- How a statement deals with the output, and with everything else if it fails. -/
structure Stmt.FailsCleanly (limits : Limits) (s : Stmt) (m : Machine) : Prop where
  /-- In the course of the execution, the end of it included, output is only added to, and the
      listener gets the lines that are added, in the same order. -/
  adds : (m :: (s.watch limits m).later).Pairwise Machine.Adds
  /-- A declaration, an assignment or a `print` that stops, for whatever reason, has not touched the
      store and the output. -/
  undone : s.isSimple = true → ∀ stop, (s.watch limits m).result = .error stop →
    (s.watch limits m).machine.store = m.store ∧ (s.watch limits m).machine.output = m.output ∧
      (s.watch limits m).machine.echoed = m.echoed
  /-- A block comes to its end exactly if its statements succeed one after the other. -/
  ends : ∀ site ss m' journal, s = .block (.mk site ss) →
    (s.watch limits m = ⟨.ok (), m', journal⟩ ↔
      ∃ inside, Succeed limits ss m inside m' ∧
        journal = ⟨.starts, s, m⟩ :: (inside ++ [⟨.ends, s, m'⟩]))
  /-- It stops exactly if one of them stops after those before it have succeeded.  What has happened
      then is what those have done, and what that one did until it stopped, and nothing else. -/
  stops : ∀ site ss stop m' journal, s = .block (.mk site ss) →
    (s.watch limits m = ⟨.error stop, m', journal⟩ ↔
      ∃ done failing rest m₁ first last, ss = done ++ failing :: rest ∧
        Succeed limits done m first m₁ ∧
        failing.watch limits (m₁.workingOn failing) = ⟨.error stop, m', last⟩ ∧
        journal = ⟨.starts, s, m⟩ :: (first ++ last ++ [⟨.fails stop, s, m'⟩]))

/-- What is around a statement adds its moments to the journal, and nothing else. -/
theorem Journey.around_eq_iff {j : Journey} {statement : Stmt} {m m' : Machine}
    {result : Except Stop Unit} {journal : List Moment} :
    j.around statement m = ⟨result, m', journal⟩ ↔
      ∃ inside, j m = ⟨result, m', inside⟩ ∧
        journal = ⟨.starts, statement, m⟩ :: (inside ++ [⟨.ofResult result, statement, m'⟩]) := by
  constructor
  · intro h
    obtain ⟨rfl, rfl, rfl⟩ := Passage.mk.inj h
    exact ⟨_, rfl, rfl⟩
  · rintro ⟨inside, h, rfl⟩
    rw [Journey.around, h]

/-- **Failing cleanly.**  Whatever statement is executed on whatever machine, and whatever the
    limits: output is only added to and the listener gets what is added; a declaration, an
    assignment or a `print` that fails has not touched the store and the output; and a block fails
    exactly when one of its statements does after those before it have succeeded, with the effects
    of these and nothing from behind.  And what is watched is the execution of the statement. -/
theorem exec_fails_cleanly (limits : Limits) (s : Stmt) (m : Machine) :
    s.FailsCleanly limits m ∧
      ((s.watch limits m).result, (s.watch limits m).machine) = s.execWithin limits m := by
  refine ⟨⟨s.watch_prints limits m, ?_, ?_, ?_⟩, s.watch_follows_exec limits m⟩
  · intro hsimple stop hstop
    have hwatch : s.watch limits m = (Journey.silent (s.work limits)).around s m := by
      cases s with
      | block body => cases hsimple
      | loop site test body => cases hsimple
      | declaration site id value => rfl
      | assignment site id value => rfl
      | function site id params body => rfl
      | print site value => rfl
    rw [hwatch] at hstop ⊢
    obtain ⟨host, hspared⟩ := s.work_atomic limits m stop hstop
    have hmachine : ((Journey.silent (s.work limits)).around s m).machine =
        { m with host } := hspared
    rw [hmachine]
    exact ⟨rfl, rfl, rfl⟩
  · rintro site ss m' journal rfl
    simp only [Stmt.watch, Block.watch, Journey.around_eq_iff, Stmt.watchAll_ok_iff]
    rfl
  · rintro site ss stop m' journal rfl
    simp only [Stmt.watch, Block.watch, Journey.around_eq_iff, Stmt.watchAll_error_iff]
    constructor
    · rintro ⟨inside, ⟨done, failing, rest, m₁, first, last, hsplit, hdone, hstops, rfl⟩, rfl⟩
      exact ⟨done, failing, rest, m₁, first, last, hsplit, hdone, hstops, rfl⟩
    · rintro ⟨done, failing, rest, m₁, first, last, hsplit, hdone, hstops, rfl⟩
      exact ⟨first ++ last, ⟨done, failing, rest, m₁, first, last, hsplit, hdone, hstops, rfl⟩, rfl⟩

end BellaLang
