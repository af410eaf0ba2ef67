import BellaLang.Store.Basic

/-!
Snapshots of the name store.

A snapshot keeps the chain in force and a copy of the bindings of every frame in it.  Restoring it
puts the copies back into those same frames and the chain back into force, whatever has happened in
between; frames outside the chain are left alone.
-/

namespace BellaLang

/-! ## Taking and restoring -/

/-- A chain, and what its frames held, in the same order. -/
structure Snapshot where
  contents : List (FrameId × Bindings)

/-- The chain that a snapshot keeps. -/
def Snapshot.chain (snapshot : Snapshot) : List FrameId := snapshot.contents.map (·.1)

/-- Keep what is in force. -/
def Store.snapshot (store : Store) : Snapshot :=
  ⟨store.chain.map fun id => (id, store.bindingsOf id)⟩

/-- Put back what a snapshot kept. -/
def Store.restore (store : Store) (snapshot : Snapshot) : Store :=
  { snapshot.contents.foldl (fun store entry => store.setBindings entry.1 entry.2) store with
    chain := snapshot.chain }

/-- A snapshot keeps the chain that was in force. -/
theorem Store.snapshot_chain (store : Store) : store.snapshot.chain = store.chain := by
  simp [Store.snapshot, Snapshot.chain, Function.comp_def]

end BellaLang
