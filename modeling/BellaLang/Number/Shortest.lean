import BellaLang.Number.Magnitude

/-!
The shortest decimal that reads back.

Every finite double stands for an interval of reals: those that lie nearer to it than to its
neighbours, the two ends included exactly when the significand is even.  Among the decimals in that
interval we take one with the fewest digits, of those the nearest to the number, and of two equally
near ones the one whose last digit is even.

  1. Find the power of ten just above the number.
  2. For one digit, two digits, and so on up to seventeen: the number lies between two neighbours
     on the grid of that many digits.  Those of the two that lie in the interval are candidates,
     and the first grid with a candidate decides.
  3. Strip the zeros at the end.

All comparisons multiply out to naturals, so nothing is rounded on the way.
-/

namespace BellaLang.Number

/-! ## Decimals -/

/-- The decimal `digits * 10 ^ scale`. -/
structure Decimal where
  digits : Nat
  scale : Int
deriving DecidableEq, Repr

/-- Compare `a * 10 ^ i` with `b * 2 ^ j`. -/
def compareScaled (a : Nat) (i : Int) (b : Nat) (j : Int) : Ordering :=
  compare (a * tenTo i.toNat * twoTo (-j).toNat) (b * twoTo j.toNat * tenTo (-i).toNat)

/-- Does the decimal lie in the interval of the number?  The ends are half-way to the neighbours,
    so they are written with two more binary places than the number itself. -/
def Magnitude.covers (x : Magnitude) (d : Decimal) : Bool :=
  let least := 4 * x.significand - (if x.narrowBelow then 1 else 2)
  let greatest := 4 * x.significand + 2
  let closed := x.significand % 2 == 0
  let below := compareScaled d.digits d.scale least (x.exponent - 2)
  let above := compareScaled d.digits d.scale greatest (x.exponent - 2)
  (below == .gt || (closed && below == .eq)) && (above == .lt || (closed && above == .eq))

/-! ## The power of ten above a number -/

/-- The least `k` with `x < 10 ^ k`.  The binary logarithm gives it up to two steps, and exact
    comparison settles which. -/
def Magnitude.decade (x : Magnitude) : Int :=
  let guess := ((x.exponent + x.significand.log2) * 30103).fdiv 100000
  let isBelow (k : Int) : Bool := compareScaled 1 k x.significand x.exponent == .gt
  if isBelow guess then guess
  else if isBelow (guess + 1) then guess + 1
  else guess + 2

/-! ## The search -/

/-- The greatest multiple of `10 ^ scale` that is not above the number, as a multiple. -/
def Magnitude.gridFloor (x : Magnitude) (scale : Int) : Nat :=
  x.significand * twoTo x.exponent.toNat * tenTo (-scale).toNat /
    (twoTo (-x.exponent).toNat * tenTo scale.toNat)

/-- The better of the number's two neighbours on the grid `10 ^ scale`, if one of them is in the
    interval.  The number is compared with the point half-way between the two. -/
def Magnitude.onGrid? (x : Magnitude) (scale : Int) : Option Decimal :=
  let n := x.gridFloor scale
  let lower : Decimal := ⟨n, scale⟩
  let upper : Decimal := ⟨n + 1, scale⟩
  match x.covers lower, x.covers upper with
  | false, false => none
  | true, false => some lower
  | false, true => some upper
  | true, true =>
    match compareScaled (2 * n + 1) scale (2 * x.significand) x.exponent with
    | .gt => some lower
    | .lt => some upper
    | .eq => if n % 2 = 0 then some lower else some upper

/-- The decimal without the zeros at the end of its digits. -/
def stripZeros (digits : Nat) (scale : Int) : Decimal :=
  if h : digits ≠ 0 ∧ digits % 10 = 0 then stripZeros (digits / 10) (scale + 1)
  else ⟨digits, scale⟩
termination_by digits
decreasing_by omega

/-- The grids to try, the coarsest first. -/
def gridSizes : List Nat := (List.range 17).map (· + 1)

/-- The number written out to its last binary place. -/
def Magnitude.exact (x : Magnitude) : Decimal :=
  if x.exponent < 0 then ⟨x.significand * Nat.pow 5 (-x.exponent).toNat, x.exponent⟩
  else ⟨x.significand * twoTo x.exponent.toNat, 0⟩

/-- The shortest decimal for a magnitude that is not zero.  Should no grid have a candidate, the
    exact decimal stands in, so what is returned always lies in the interval. -/
def Magnitude.shortest (x : Magnitude) : Decimal :=
  let k := x.decade
  let found := (gridSizes.findSome? fun (n : Nat) => x.onGrid? (k - n)).getD x.exact
  stripZeros found.digits found.scale

/-- The shortest decimal for the size of a finite number that is not zero. -/
def shortest (x : Float) : Decimal := (magnitude x).shortest

example : shortest 0.1 = ⟨1, -1⟩ ∧ shortest 1e23 = ⟨1, 23⟩ := by decide +kernel
example : shortest 5e-324 = ⟨5, -324⟩ ∧ shortest 9007199254740993 = ⟨9007199254740992, 0⟩ := by
  decide +kernel
example : shortest 2.98023223876953125e-8 = ⟨29802322387695312, -24⟩ := by decide +kernel

end BellaLang.Number
