import BellaLang.Proofs.Evaluation.Origins
import BellaLang.Proofs.Execution.Journal
import BellaLang.Proofs.Value.Equality

/-!
In a run an identity is given to one function only.

Functions are compared by identity, and so a comparison can be trusted only as long as no two
functions come by the same one.  A machine gives identities out one after the other: to the built-in
functions when it starts over, and to each function that a program declares.

  1. A machine *knows* certain functions if the frames in force hold no other ones, no two of them
     have one identity, and the next identity to be given is beyond all of theirs
     (`Machine.Knows`).
  2. A statement leads from a machine that knows certain functions to one that knows these and at
     most one more: evaluations make none (`evalWithin_yields`), and a declared function gets an
     identity that is new (`Stmt.work_learns`).
  3. So a whole run has functions that its machines know at every moment, none of them twice
     (`Program.watch_identifies`).

Main statement: `run_shares_objects`, which says that the values which a program can get hold of,
now and later, share their objects.
-/

namespace BellaLang

open Machine

/-! ## Known functions -/

/-- The identity of a function. -/
def Value.identity? : Value → Option Nat
  | .native f => some f.identity
  | .user f => some f.identity
  | .number _ | .boolean _ | .array _ => none

/-- The machine holds no functions but known ones, each with an identity of its own, and all of them
    given already. -/
structure Machine.Knows (m : Machine) (known : Value → Prop) : Prop where
  holds : m.store.Hold (Value.MadeOf known)
  once : ∀ f g, known f → known g → f.identity? = g.identity? → f = g
  given : ∀ f, known f → ∃ identity < m.host.nextIdentity, f.identity? = some identity

section
variable {known more : Value → Prop} {m : Machine}

theorem Store.Hold.weaken {store : Store} (h : store.Hold (Value.MadeOf known))
    (hmore : ∀ f, known f → more f) : store.Hold (Value.MadeOf more) := by
  intro id hid name v hv
  exact (h id hid name v hv).weaken hmore

namespace Machine.Knows

/-- What does not concern the store and the next identity does not concern this. -/
theorem congr (h : m.Knows known) {m' : Machine} (hstore : m'.store = m.store)
    (hnext : m'.host.nextIdentity = m.host.nextIdentity) : m'.Knows known := by
  obtain ⟨holds, once, given⟩ := h
  constructor
  · rw [hstore]
    exact holds
  · exact once
  · rw [hnext]
    exact given

/-- What the names show is made of known functions. -/
theorem shows (h : m.Knows known) : m.store.Shows known := fun _ _ hv => h.holds.get? hv

theorem of_keeps {α : Type} (h : m.Knows known) {a : Action α} (ha : a.Keeps) :
    (a m).2.Knows known := by
  obtain ⟨tally, hkept⟩ := ha m
  rw [hkept]
  exact h.congr rfl rfl

/-- Working with the value of an expression, which is made of known functions. -/
theorem bind_eval (h : m.Knows known) (calls : Nat) (e : Expr) {next : Value → Action Unit}
    (hnext : ∀ v m', v.MadeOf known → Knows m' known → (next v m').2.Knows known) :
    ((e.evalWithin calls >>= next) m).2.Knows known := by
  have hkept := h.of_keeps (e.evalWithin_keeps calls)
  have hvalue := e.evalWithin_yields calls m h.shows
  rcases hrun : e.evalWithin calls m with ⟨result, m'⟩
  rw [hrun] at hkept hvalue
  cases result with
  | ok v =>
    rw [Action.bind_apply_ok hrun]
    exact hnext v m' (hvalue v rfl) hkept
  | error stop =>
    rw [Action.bind_apply_stop hrun]
    exact hkept

/-- A change of the store that writes nothing but known functions. -/
theorem changeStore (h : m.Knows known) {change : Store → Except Cause Store}
    (hchange : ∀ store, change m.store = .ok store → store.Hold (Value.MadeOf known)) :
    (Machine.changeStore change m).2.Knows known := by
  rcases changeStore_cases change m with ⟨cause, hrun⟩ | ⟨store, hok, hrun⟩
  · rw [hrun]
    exact h
  · rw [hrun]
    exact ⟨hchange store hok, h.once, h.given⟩

theorem declare (h : m.Knows known) (name : String) {v : Value} (hv : v.MadeOf known) :
    (Machine.declare name v m).2.Knows known :=
  h.changeStore fun _ hdeclare => h.holds.declare hv hdeclare

theorem assign (h : m.Knows known) (name : String) {v : Value} (hv : v.MadeOf known) :
    (Machine.assign name v m).2.Knows known :=
  h.changeStore fun _ hassign => h.holds.assign hv hassign

/-- A new function gets an identity that none of the known ones has. -/
theorem newFunction (h : m.Knows known) (name : String) (params : List String) (body : Expr) :
    let f : UserFunction := ⟨m.host.nextIdentity, name, params, body⟩
    Knows { m with host := { m.host with nextIdentity := m.host.nextIdentity + 1 } }
      (fun g => known g ∨ g = .user f) := by
  intro f
  have hnew (g : Value) (hg : known g) : g.identity? ≠ (Value.user f).identity? := by
    obtain ⟨identity, hlt, hidentity⟩ := h.given g hg
    have hf : (Value.user f).identity? = some m.host.nextIdentity := rfl
    rw [hidentity, hf]
    intro hsame
    exact Nat.ne_of_lt hlt (Option.some.inj hsame)
  constructor
  · exact h.holds.weaken fun g hg => .inl hg
  · rintro g g' (hg | rfl) (hg' | rfl) hsame
    · exact h.once g g' hg hg' hsame
    · exact absurd hsame (hnew g hg)
    · exact absurd hsame.symm (hnew g' hg')
    · rfl
  · rintro g (hg | rfl)
    · obtain ⟨identity, hlt, hidentity⟩ := h.given g hg
      exact ⟨identity, Nat.lt_succ_of_lt hlt, hidentity⟩
    · exact ⟨m.host.nextIdentity, Nat.lt_succ_self _, rfl⟩

end Machine.Knows

/-- A machine that starts over knows the built-in functions. -/
theorem Machine.reset_knows (m : Machine) : ∃ known, m.reset.Knows known := by
  let known (f : Value) : Prop := ∃ i entry, builtInFunctions[i]? = some entry ∧
    f = .native (.ofFunction (m.host.nextIdentity + i) entry.1 entry.2)
  refine ⟨known, m.store.hold_reset ?_, ?_, ?_⟩
  · intro name v hv
    rcases builtIns_cases hv with rfl | ⟨i, entry, hentry, rfl⟩
    · exact .number _
    · have hknown : known (.native (.ofFunction (m.host.nextIdentity + i) entry.1 entry.2)) :=
        ⟨i, entry, hentry, rfl⟩
      exact .native_of_answersNumbers hknown (Native.ofFunction_answersNumbers _ _ _)
  · rintro f g ⟨i, entry, hentry, rfl⟩ ⟨j, other, hother, rfl⟩ hsame
    have hplace : m.host.nextIdentity + i = m.host.nextIdentity + j := Option.some.inj hsame
    obtain rfl : i = j := by omega
    obtain rfl := Option.some.inj (hentry.symm.trans hother)
    rfl
  · rintro f ⟨i, entry, hentry, rfl⟩
    have hi : i < builtInFunctions.length := (List.getElem?_eq_some_iff.mp hentry).1
    exact ⟨m.host.nextIdentity + i, Nat.add_lt_add_left hi _, rfl⟩

/-! ## Statements -/

/-- What a statement does that has no statements in it leads to a machine that knows what was known,
    and maybe one function more. -/
theorem Stmt.work_learns (h : m.Knows known) (limits : Limits) (s : Stmt) :
    ∃ more, (∀ f, known f → more f) ∧ (s.work limits m).2.Knows more := by
  cases s with
  | function site id params body =>
    have hnew := h.newFunction id.spelling (params.map (·.spelling)) body
    refine ⟨_, fun g hg => .inl hg, hnew.declare id.spelling (.user (.inr rfl))⟩
  | declaration site id value =>
    refine ⟨known, fun _ hf => hf, ?_⟩
    have hwork : work limits (.declaration site id value) m =
        (if m.store.contains id.spelling then .fail (.alreadyDeclared id.spelling)
          else do
            let v ← value.evalWithin limits.calls
            declare id.spelling v : Action Unit) m := rfl
    rw [hwork]
    split
    · exact h
    · exact h.bind_eval limits.calls value fun v m' hv hm' => hm'.declare id.spelling hv
  | assignment site id value =>
    refine ⟨known, fun _ hf => hf, ?_⟩
    exact h.bind_eval limits.calls value fun v m' hv hm' => hm'.assign id.spelling hv
  | print site value =>
    refine ⟨known, fun _ hf => hf, ?_⟩
    refine h.bind_eval limits.calls value fun v m' _ hm' => ?_
    rcases shown_cases limits.nesting v with hshown | hshown
    · rw [hshown]
      exact hm'.congr rfl rfl
    · rw [hshown]
      exact hm'
  | block body => exact ⟨known, fun _ hf => hf, h⟩
  | loop site test body => exact ⟨known, fun _ hf => hf, h⟩

end

/-! ## Journeys -/

/-- A journey leads from a machine that knows certain functions to one that knows these and maybe
    more, and at each of its moments no other ones are held. -/
def Journey.Learns (j : Journey) : Prop :=
  ∀ (m : Machine) (known : Value → Prop), m.Knows known →
    ∃ more, (∀ f, known f → more f) ∧ (j m).machine.Knows more ∧
      ∀ a ∈ (j m).journal, a.machine.store.Hold (Value.MadeOf more)

namespace Journey.Learns

variable {j next : Journey}

theorem silent {a : Action Unit}
    (h : ∀ m known, Machine.Knows m known →
      ∃ more, (∀ f, known f → more f) ∧ (a m).2.Knows more) :
    (Journey.silent a).Learns := by
  intro m known hm
  obtain ⟨more, hmore, hafter⟩ := h m known hm
  refine ⟨more, hmore, hafter, fun a ha => ?_⟩
  cases ha

/-- A step that leaves the store and the next identity alone. -/
theorem still {a : Action Unit} (hstore : ∀ m, (a m).2.store = m.store)
    (hnext : ∀ m, (a m).2.host.nextIdentity = m.host.nextIdentity) : (Journey.silent a).Learns :=
  silent fun m known hm => ⟨known, fun _ hf => hf, hm.congr (hstore m) (hnext m)⟩

theorem andThen (hj : j.Learns) (hnext : next.Learns) : (j.andThen next).Learns := by
  intro m known hm
  obtain ⟨more, hmore, hafter, hjournal⟩ := hj m known hm
  unfold Journey.andThen
  dsimp only
  cases (j m).result with
  | error stop => exact ⟨more, hmore, hafter, hjournal⟩
  | ok u =>
    obtain ⟨most, hmost, hlast, hlater⟩ := hnext (j m).machine more hafter
    refine ⟨most, fun f hf => hmost f (hmore f hf), hlast, fun a ha => ?_⟩
    rcases List.mem_append.mp ha with hearly | hlate
    · exact (hjournal a hearly).weaken hmost
    · exact hlater a hlate

theorem around (statement : Stmt) (hj : j.Learns) : (j.around statement).Learns := by
  intro m known hm
  obtain ⟨more, hmore, hafter, hjournal⟩ := hj m known hm
  refine ⟨more, hmore, hafter, fun a ha => ?_⟩
  rcases List.mem_cons.mp ha with rfl | ha
  · exact hm.holds.weaken hmore
  rcases List.mem_append.mp ha with ha | ha
  · exact hjournal a ha
  · obtain rfl := List.mem_singleton.mp ha
    exact hafter.holds

/-- A loop, by induction on the rounds that are left. -/
theorem rounds (loop : Stmt) {test : Action Bool} (htest : test.Keeps) (hj : j.Learns)
    (count : Nat) : (j.rounds loop test count).Learns := by
  induction count with
  | zero => exact still (fun _ => rfl) fun _ => rfl
  | succ count ih =>
    intro m known hm
    have hkept := hm.of_keeps htest
    have hfirst : ∀ a ∈ [(⟨.tests, loop, m⟩ : Moment)],
        a.machine.store.Hold (Value.MadeOf known) := by
      intro a ha
      obtain rfl := List.mem_singleton.mp ha
      exact hm.holds
    unfold Journey.rounds
    rcases hrun : test m with ⟨result, m'⟩
    rw [hrun] at hkept
    rcases result with stop | ⟨_ | _⟩
    · exact ⟨known, fun _ hf => hf, hkept, hfirst⟩
    · exact ⟨known, fun _ hf => hf, hkept, hfirst⟩
    · obtain ⟨more, hmore, hafter, hjournal⟩ := hj.andThen ih m' known hkept
      refine ⟨more, hmore, hafter, fun a ha => ?_⟩
      rcases List.mem_cons.mp ha with rfl | ha
      · exact hm.holds.weaken hmore
      · exact hjournal a ha

end Journey.Learns

mutual

/-- Executing a statement gives each identity once, whatever the limits. -/
theorem Stmt.watch_learns (limits : Limits) : ∀ s : Stmt, (s.watch limits).Learns
  | .block body => by
    unfold Stmt.watch
    exact .around _ (Block.watch_learns limits body)
  | .loop site test body => by
    unfold Stmt.watch
    have htest : (Value.truthy <$> test.evalWithin limits.calls).Keeps :=
      (test.evalWithin_keeps limits.calls).bind fun _ => .pure _
    have hbody := Journey.Learns.around (.block body) (Block.watch_learns limits body)
    have hmark : (Journey.silent (setAtWork (.loop site test body))).Learns :=
      .still (fun _ => rfl) fun _ => rfl
    exact .around _ (.rounds _ htest (hbody.andThen hmark) _)
  | .declaration .. | .assignment .. | .function .. | .print .. => by
    unfold Stmt.watch
    exact .around _ (.silent fun _ _ hm => Stmt.work_learns hm limits _)

theorem Stmt.watchAll_learns (limits : Limits) :
    ∀ ss : List Stmt, (Stmt.watchAll limits ss).Learns
  | [] => .still (fun _ => rfl) fun _ => rfl
  | s :: rest => by
    have hmark : (Journey.silent (setAtWork s)).Learns := .still (fun _ => rfl) fun _ => rfl
    unfold Stmt.watchAll
    exact hmark.andThen ((Stmt.watch_learns limits s).andThen (Stmt.watchAll_learns limits rest))

theorem Block.watch_learns (limits : Limits) : ∀ b : Block, (b.watch limits).Learns
  | .mk _ statements => by
    unfold Block.watch
    exact Stmt.watchAll_learns limits statements

end

/-! ## Runs -/

/-- A run has functions, each with an identity of its own, and at no moment are other ones held. -/
theorem Program.watch_identifies (limits : Limits) (program : Program) (m : Machine) :
    ∃ known : Value → Prop,
      (∀ f g, known f → known g → f.identity? = g.identity? → f = g) ∧
        ∀ a ∈ (program.watch limits m).journal,
          a.machine.store.Hold (Value.MadeOf known) := by
  obtain ⟨known, hknown⟩ := m.reset_knows
  have hlearns := Journey.Learns.around (.block program.block)
    (Block.watch_learns limits program.block)
  obtain ⟨more, -, hafter, hjournal⟩ := hlearns m.reset known hknown
  exact ⟨more, hafter.once, hjournal⟩

/-- Values that are made of functions of which no two have one identity share their objects. -/
theorem Value.MadeOf.sharesObjects {known : Value → Prop}
    (honce : ∀ f g, known f → known g → f.identity? = g.identity? → f = g) {v w : Value}
    (hv : v.MadeOf known) (hw : w.MadeOf known) : v.SharesObjects w := by
  constructor
  · intro f g hf hg hidentity
    have hsame := honce _ _ (hv _ rfl hf.reachableFrom) (hw _ rfl hg.reachableFrom)
      (congrArg some hidentity)
    exact Value.native.inj hsame
  · intro f g hf hg hidentity
    have hsame := honce _ _ (hv _ rfl hf.reachableFrom) (hw _ rfl hg.reachableFrom)
      (congrArg some hidentity)
    exact Value.user.inj hsame

/-- A program run on a machine can get hold of a value if at some moment an expression has it. -/
def Program.GetsHoldOf (limits : Limits) (program : Program) (m : Machine) (v : Value) : Prop :=
  ∃ a ∈ (program.watch limits m).journal, ∃ (calls : Nat) (e : Expr),
    (e.evalWithin calls a.machine).1 = .ok v

/-- **The values of a run share their objects.**  Run any program on any machine, stop at any two
    moments, and evaluate any expression at each of them.  A function in the one value, at any depth
    of arrays, and a function in the other that have one identity are one function. -/
theorem run_shares_objects (limits : Limits) (program : Program) (m : Machine) {v w : Value}
    (hv : program.GetsHoldOf limits m v) (hw : program.GetsHoldOf limits m w) :
    v.SharesObjects w := by
  obtain ⟨known, honce, hjournal⟩ := program.watch_identifies limits m
  have hmade (u : Value) (hu : program.GetsHoldOf limits m u) : u.MadeOf known := by
    obtain ⟨a, ha, calls, e, heval⟩ := hu
    have hshows : a.machine.store.Shows known := fun _ _ hget => (hjournal a ha).get? hget
    exact e.evalWithin_yields calls a.machine hshows u heval
  exact (hmade v hv).sharesObjects honce (hmade w hw)

end BellaLang
