import BellaLang.Failure
import BellaLang.Store.Bindings

/-!
Calling the functions of the host, and the ones that every program starts with.

A native function takes numbers only, and it is an error to hand it anything else, even among the
arguments it would not look at.  It is then given exactly as many numbers as it has parameters: what
is left over is ignored, and what is missing is a NaN.  What it answers is handed on as it is.
-/

namespace BellaLang

/-! ## Arguments -/

/-- The numbers among the arguments of a native function, if all of them are numbers; otherwise the
    first one that is not is to blame. -/
def Native.numbers (f : Native) : List Value → Except Cause (List Float)
  | [] => .ok []
  | .number x :: rest => (f.numbers rest).map (x :: ·)
  | other :: _ => .error (.parameterType f.name other.kind)

/-- Exactly `arity` numbers. -/
def fitTo (arity : Nat) (numbers : List Float) : List Float :=
  numbers.take arity ++ List.replicate (arity - numbers.length) Number.nan

/-! ## The built-in names -/

/-- A native function that makes one number of another. -/
def Native.ofFunction (identity : Nat) (name : String) (f : Float → Except HostFault Float) :
    Native where
  identity := identity
  name := name
  arity := 1
  run := fun _ numbers => (f (numbers.headD Number.nan)).map .number

/-- The built-in functions with their names. -/
def builtInFunctions : List (String × (Float → Except HostFault Float)) :=
  [("sqrt", Number.squareRoot), ("sin", Number.sine), ("cos", Number.cosine),
   ("exp", Number.exponential), ("ln", Number.logarithm), ("hypot", Number.length)]

/-- **No built-in function ends with an error of the host.** -/
theorem builtInFunctions_answer {entry : String × (Float → Except HostFault Float)}
    (h : entry ∈ builtInFunctions) (x : Float) : ∃ y, entry.2 x = .ok y := by
  simp only [builtInFunctions, List.mem_cons, List.not_mem_nil, or_false] at h
  rcases h with rfl | rfl | rfl | rfl | rfl | rfl
  · exact Number.exists_squareRoot x
  · exact Number.exists_periodic Float.sin x
  · exact Number.exists_periodic Float.cos x
  · exact Number.exists_exponential x
  · exact Number.exists_logarithm x
  · exact ⟨_, rfl⟩

/-- The names that every program starts with.  The functions are new objects, with identities from
    `next` on. -/
def builtIns (next : Nat) : Bindings :=
  ("π", .number Number.pi) ::
    builtInFunctions.mapIdx fun i entry =>
      (entry.1, .native (.ofFunction (next + i) entry.1 entry.2))

/-- A new object for the built-in function of a name, if there is one. -/
def builtIn? (identity : Nat) (name : String) : Option Native :=
  (builtInFunctions.lookup name).map fun f => .ofFunction identity name f

end BellaLang
