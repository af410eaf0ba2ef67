import BellaLang.Number.Host

/-!
Arithmetic on doubles, as the language's operators and built-in functions have it.

Nothing here fails: division by zero, results out of range and arguments outside a function's
domain give the infinity or the NaN that binary floating point provides.  The host does not see to
that by itself, so each operation catches the error that the host may end with, or keeps the
arguments away from it.  What is caught is always enough (`ArithmeticOp.exists_apply`,
`exists_answer`).

Two operations need care.  The remainder takes the sign of the dividend.  A power of a negative
number to a fraction is not real and gives a NaN, unless its size is out of range: then the host
ends with the same error as for a real power, and the answer is infinity.
-/

namespace BellaLang.Number

/-! ## Division -/

/-- A number with the size of one and the sign of another number. -/
def copySign (size sign : Float) : Float := if isNegative sign then -size.abs else size.abs

/-- The quotient of two numbers. -/
def divide (x y : Float) : Except HostFault Float :=
  match hostDivide x y with
  | .error .zeroDivision =>
    .ok (if x == 0 || x.isNaN then nan else copySign infinity x * copySign 1 y)
  | answer => answer

/-- The remainder of a division, with the sign of the dividend. -/
def remainder (x y : Float) : Except HostFault Float :=
  match hostRemainder x y with
  | .error .domain => .ok nan
  | answer => answer

example : (divide (-1) 0).toOption = some (-infinity) ∧
    (remainder (-7) 3).toOption = some (-1) ∧ (remainder 5.5 (-2)).toOption = some 1.5 ∧
    (remainder (-6) 3).toOption = some (-0.0) := by
  decide +kernel

/-! ## Power -/

/-- Is this an odd integer? -/
def isOdd (x : Float) : Bool := isWhole x && ((magnitude x).floor % 2 == 1)

/-- `x` to the power `y`. -/
def power (x y : Float) : Except HostFault Float :=
  match hostPower x y with
  | .ok (.real z) => .ok z
  | .ok .complex => .ok nan
  | .error .zeroDivision => .ok (if isNegative x && isOdd y then -infinity else infinity)
  | .error .overflow => .ok (if x < 0 && isOdd y then -infinity else infinity)
  | .error fault => .error fault

/-! ## Operators -/

/-- The operators that make a number of two numbers. -/
inductive ArithmeticOp where
  | add
  | subtract
  | multiply
  | divide
  | remainder
  | power
deriving DecidableEq, Repr

/-- The result of an arithmetic operator. -/
def ArithmeticOp.apply : ArithmeticOp → Float → Float → Except HostFault Float
  | .add, x, y => .ok (x + y)
  | .subtract, x, y => .ok (x - y)
  | .multiply, x, y => .ok (x * y)
  | .divide, x, y => Number.divide x y
  | .remainder, x, y => Number.remainder x y
  | .power, x, y => Number.power x y

/-- The operators that compare the sizes of two numbers. -/
inductive RelationalOp where
  | less
  | lessOrEqual
  | greater
  | greaterOrEqual
deriving DecidableEq, Repr

/-- The answer of a comparison.  A NaN is in no order with anything. -/
def RelationalOp.apply : RelationalOp → Float → Float → Bool
  | .less, x, y => x < y
  | .lessOrEqual, x, y => x ≤ y
  | .greater, x, y => y < x
  | .greaterOrEqual, x, y => y ≤ x

/-! ## Elementary functions -/

/-- The square root; what is not at least zero has none. -/
def squareRoot (x : Float) : Except HostFault Float := if 0 ≤ x then hostRoot x else .ok nan

/-- A periodic function of the host, which the infinities are kept away from. -/
def periodic (f : Float → Except HostFault Float) (x : Float) : Except HostFault Float :=
  if x.isInf then .ok nan else f x

/-- The sine. -/
def sine (x : Float) : Except HostFault Float := periodic (hostPeriodic Float.sin) x

/-- The cosine. -/
def cosine (x : Float) : Except HostFault Float := periodic (hostPeriodic Float.cos) x

/-- The exponential function. -/
def exponential (x : Float) : Except HostFault Float :=
  match hostExponential x with
  | .error .overflow => .ok infinity
  | answer => answer

/-- The natural logarithm: negative infinity at zero, nothing below. -/
def logarithm (x : Float) : Except HostFault Float :=
  if x == 0 then .ok (-infinity) else if x < 0 then .ok nan else hostLogarithm x

/-- The length of a vector with one coordinate. -/
def length (x : Float) : Except HostFault Float := .ok x.abs

/-! ## No error gets through -/

theorem hostDivide_cases (x y : Float) :
    (∃ z, hostDivide x y = .ok z) ∨ hostDivide x y = .error .zeroDivision := by
  unfold hostDivide
  split
  · exact .inr rfl
  · exact .inl ⟨_, rfl⟩

theorem hostRemainder_cases (x y : Float) :
    (∃ z, hostRemainder x y = .ok z) ∨ hostRemainder x y = .error .domain := by
  unfold hostRemainder
  split
  · exact .inl ⟨_, rfl⟩
  · split
    · exact .inr rfl
    · split <;> exact .inl ⟨_, rfl⟩

theorem hostPower_cases (x y : Float) :
    (∃ p, hostPower x y = .ok p) ∨ hostPower x y = .error .zeroDivision ∨
      hostPower x y = .error .overflow := by
  unfold hostPower
  split
  · exact .inr (.inl rfl)
  · split
    · split
      · exact .inr (.inr rfl)
      · exact .inl ⟨_, rfl⟩
    · dsimp only
      split
      · exact .inr (.inr rfl)
      · exact .inl ⟨_, rfl⟩

/-- **No operator ends with an error of the host**: it catches all that can come up. -/
theorem ArithmeticOp.exists_apply (f : ArithmeticOp) (x y : Float) : ∃ z, f.apply x y = .ok z := by
  cases f with
  | add => exact ⟨_, rfl⟩
  | subtract => exact ⟨_, rfl⟩
  | multiply => exact ⟨_, rfl⟩
  | divide =>
    show ∃ z, Number.divide x y = .ok z
    unfold Number.divide
    rcases hostDivide_cases x y with ⟨z, h⟩ | h <;> rw [h] <;> exact ⟨_, rfl⟩
  | remainder =>
    show ∃ z, Number.remainder x y = .ok z
    unfold Number.remainder
    rcases hostRemainder_cases x y with ⟨z, h⟩ | h <;> rw [h] <;> exact ⟨_, rfl⟩
  | power =>
    show ∃ z, Number.power x y = .ok z
    unfold Number.power
    rcases hostPower_cases x y with ⟨p, h⟩ | h | h <;> rw [h]
    · cases p <;> exact ⟨_, rfl⟩
    · exact ⟨_, rfl⟩
    · exact ⟨_, rfl⟩

theorem exists_squareRoot (x : Float) : ∃ z, squareRoot x = .ok z := by
  unfold squareRoot hostRoot
  split
  · rename_i h
    rw [if_pos (by rw [decide_eq_true h, Bool.true_or])]
    exact ⟨_, rfl⟩
  · exact ⟨_, rfl⟩

theorem exists_periodic (f : Float → Float) (x : Float) :
    ∃ z, periodic (hostPeriodic f) x = .ok z := by
  unfold periodic hostPeriodic
  split <;> exact ⟨_, rfl⟩

theorem exists_exponential (x : Float) : ∃ z, exponential x = .ok z := by
  have hcases : (∃ z, hostExponential x = .ok z) ∨ hostExponential x = .error .overflow := by
    unfold hostExponential
    dsimp only
    split
    · exact .inr rfl
    · exact .inl ⟨_, rfl⟩
  unfold exponential
  rcases hcases with ⟨z, h⟩ | h <;> rw [h] <;> exact ⟨_, rfl⟩

theorem exists_logarithm (x : Float) : ∃ z, logarithm x = .ok z := by
  unfold logarithm hostLogarithm
  split
  · exact ⟨_, rfl⟩
  · rename_i hzero
    split
    · exact ⟨_, rfl⟩
    · rename_i hless
      rw [if_neg (by rw [decide_eq_false hless, Bool.false_or]; exact hzero)]
      exact ⟨_, rfl⟩

/-! ## Equality, positions and truth -/

/-- Equality of numbers: every number equals itself, and the two zeros equal each other. -/
def same (x y : Float) : Bool := x == y || (x.isNaN && y.isNaN)

theorem same_self (x : Float) : same x x = true := by
  have level (m : Nat) (e : Int) : (compare e e).then (compare m m) = .eq := by
    have he : compare e e = .eq := Std.ReflCmp.compare_self
    have hm : compare m m = .eq := Std.ReflCmp.compare_self
    rw [he, hm]
    rfl
  have h : (x.toModel.unpack.beq x.toModel.unpack || x.toModel.unpack.isNaN) = true := by
    generalize x.toModel.unpack = u
    rcases u with s | _ | s | ⟨s, m, e, _⟩
    · cases s <;> rfl
    · rfl
    · cases s <;> rfl
    · cases s
      · show (some ((compare e e).then (compare m m)).swap == some .eq || false) = true
        rw [level]
        rfl
      · show (some ((compare e e).then (compare m m)) == some .eq || false) = true
        rw [level]
        rfl
  rw [same, Bool.and_self]
  exact h

/-- Is the number less than a natural number?  The comparison is exact. -/
def isBelow (x : Float) (n : Nat) : Bool :=
  x < 0 || (isFinite x && (magnitude x).isBelow n)

/-- Is the number a position in an array of this size? -/
def isPosition (x : Float) (size : Nat) : Bool := 0 ≤ x && isBelow x size && isWhole x

/-- A number counts as true unless it is a zero or a NaN. -/
def isTruthy (x : Float) : Bool := !(x == 0 || x.isNaN)

end BellaLang.Number
