import BellaLang.Number.Magnitude

/-!
What the host computes with doubles, and where it refuses to.

The host has the arithmetic of binary floating point, but not all of it.  Where a division by zero,
an argument outside the domain of a function or a result out of range would give an infinity or a
NaN, some of its operations end with an error instead; and a negative number to a fraction is not a
double there, but a complex number.

The operations of the language are made from these.  Each of them looks at its arguments beforehand,
or catches the errors that it knows of, and one that it does not know of would get through to
whoever runs the program.  So it matters which error an operation ends with.
-/

namespace BellaLang

/-! ## Errors of the host -/

/-- The errors that operations of the host end with. -/
inductive HostFault where
  /-- A division by zero, or a negative power of zero. -/
  | zeroDivision
  /-- A value that an operation is not defined for. -/
  | domain
  /-- A result that is out of range. -/
  | overflow
  /-- A position that an array does not have. -/
  | position
deriving DecidableEq, Repr

namespace Number

/-! ## Special numbers -/

/-- Not a number. -/
def nan : Float := Float.ofBits 0x7ff8000000000000

/-- Positive infinity. -/
def infinity : Float := Float.ofBits 0x7ff0000000000000

/-- The double nearest to half the circumference of the unit circle. -/
def pi : Float := Float.ofBits 0x400921fb54442d18

/-! ## Division -/

/-- A quotient. -/
def hostDivide (x y : Float) : Except HostFault Float :=
  if y == 0 then .error .zeroDivision else .ok (x / y)

/-- The remainder of two magnitudes, at the lower of their exponents. -/
def Magnitude.remainder (x y : Magnitude) : Nat × Int :=
  let low := min x.exponent y.exponent
  let scaled (m : Magnitude) : Nat := m.significand * twoTo (m.exponent - low).toNat
  (scaled x % scaled y, low)

/-- What is left of `x` after taking off `y` as often as it goes into it.  The result is exact and
    has the sign of `x`. -/
def hostRemainder (x y : Float) : Except HostFault Float :=
  if x.isNaN || y.isNaN then .ok nan
  else if !isFinite x || y == 0 then .error .domain
  else if !isFinite y then .ok x
  else
    let (rest, exponent) := (magnitude x).remainder (magnitude y)
    .ok (ofMagnitude (isNegative x) rest exponent)

/-! ## Powers -/

/-- A power that has been computed: a double, or a complex number. -/
inductive HostPower where
  | real (x : Float)
  | complex

/-- Is the size of `x` to the power `y` out of range, for finite `x` and `y`?  Where the exponent
    of the leading bit already shows it, that decides; else the rounded power does. -/
def powerOverflows (x y : Float) : Bool :=
  let bound := if y < 0 then leadingExponent x + 1 else leadingExponent x
  1025 ≤ Float.ofInt bound * y || (x.abs.pow y).isInf

/-- `x` to the power `y`. -/
def hostPower (x y : Float) : Except HostFault HostPower :=
  if x == 0 && (y < 0 && isFinite y) then .error .zeroDivision
  else if x < 0 ∧ isFinite x ∧ isFinite y ∧ !isWhole y then
    if powerOverflows x y then .error .overflow else .ok .complex
  else
    let power := x.pow y
    if power.isInf && (isFinite x && isFinite y) then .error .overflow else .ok (.real power)

/-! ## Elementary functions -/

/-- The square root. -/
def hostRoot (x : Float) : Except HostFault Float :=
  if 0 ≤ x || x.isNaN then .ok x.sqrt else .error .domain

/-- A periodic function. -/
def hostPeriodic (f : Float → Float) (x : Float) : Except HostFault Float :=
  if x.isInf then .error .domain else .ok (f x)

/-- The exponential function. -/
def hostExponential (x : Float) : Except HostFault Float :=
  let power := x.exp
  if power.isInf && isFinite x then .error .overflow else .ok power

/-- The natural logarithm. -/
def hostLogarithm (x : Float) : Except HostFault Float :=
  if x < 0 || x == 0 then .error .domain else .ok x.log

/-! ## Positions -/

/-- The whole part of a double, as an integer. -/
def hostInteger (x : Float) : Except HostFault Int :=
  if x.isNaN then .error .domain
  else if !isFinite x then .error .overflow
  else .ok (if isNegative x then -(magnitude x).floor else (magnitude x).floor)

/-- The element at a position; positions below zero are counted from the end. -/
def hostItem {α : Type} (elements : List α) (position : Int) : Except HostFault α :=
  let place := if position < 0 then position + elements.length else position
  match (if place < 0 then none else elements[place.toNat]?) with
  | some element => .ok element
  | none => .error .position

example : (hostInteger (-2.5)).toOption = some (-2) ∧
    (hostItem "abc".toList (-1)).toOption = some 'c' ∧
    (hostItem "abc".toList (-4)).toOption = none := by decide +kernel

end Number

end BellaLang
