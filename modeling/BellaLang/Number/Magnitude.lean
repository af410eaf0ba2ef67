/-!
What a binary floating-point number is made of.

A finite double is a sign and a magnitude `significand * 2 ^ exponent`, read off its 64 bits: one
for the sign, eleven for the exponent, 52 for the fraction.  Everything that has to be exact about
numbers is computed on these naturals: the digits that are printed, the remainder of a division,
and whether a number is whole.
-/

namespace BellaLang.Number

/-! ## Powers -/

/-- The powers of two. -/
def twoTo (n : Nat) : Nat := Nat.pow 2 n

/-- The powers of ten. -/
def tenTo (n : Nat) : Nat := Nat.pow 10 n

/-! ## Taking a number apart -/

/-- The exact size of a finite number. -/
structure Magnitude where
  significand : Nat
  exponent : Int
  /-- The gap to the next smaller magnitude is half the gap to the next greater one: the number
      is a power of two, and not one of the smallest. -/
  narrowBelow : Bool
deriving DecidableEq, Repr

/-- Is the sign bit set? -/
def isNegative (x : Float) : Bool := x.toBits.toNat / twoTo 63 % 2 == 1

/-- Neither a NaN nor an infinity. -/
def isFinite (x : Float) : Bool := x.toBits.toNat / twoTo 52 % twoTo 11 != 2047

/-- The size of a number that is finite. -/
def magnitude (x : Float) : Magnitude :=
  let bits := x.toBits.toNat
  let biased : Nat := bits / twoTo 52 % twoTo 11
  let fraction : Nat := bits % twoTo 52
  if biased = 0 then ⟨fraction, -1074, false⟩
  else ⟨twoTo 52 + fraction, (biased : Int) - 1075, fraction = 0 && 1 < biased⟩

/-! ## Putting a number together -/

/-- The number `significand * 2 ^ exponent` with a sign, for a significand and an exponent at
    which this needs no rounding. -/
def ofMagnitude (negative : Bool) (significand : Nat) (exponent : Int) : Float :=
  let sign := if negative then twoTo 63 else 0
  let leading := exponent + significand.log2
  let body :=
    if significand = 0 then 0
    else if leading < -1022 then significand * twoTo (exponent + 1074).toNat
    else (leading + 1022).toNat * twoTo 52 + significand * twoTo (52 - significand.log2)
  Float.ofBits (UInt64.ofNat (sign + body))

/-! ## Whole numbers -/

/-- Is the magnitude a whole number? -/
def Magnitude.isWhole (m : Magnitude) : Bool := m.significand % twoTo (-m.exponent).toNat == 0

/-- Its whole part. -/
def Magnitude.floor (m : Magnitude) : Nat :=
  m.significand * twoTo m.exponent.toNat / twoTo (-m.exponent).toNat

/-- Is the magnitude less than a natural number? -/
def Magnitude.isBelow (m : Magnitude) (n : Nat) : Bool :=
  m.significand * twoTo m.exponent.toNat < n * twoTo (-m.exponent).toNat

/-- Is this a whole number?  The infinities are not. -/
def isWhole (x : Float) : Bool := isFinite x && (magnitude x).isWhole

/-- The natural number that `x` is, if it is one; both zeros are. -/
def natural? (x : Float) : Option Nat :=
  if isWhole x && (x == 0 || !isNegative x) then some (magnitude x).floor else none

/-- The exponent of the leading bit: `2 ^ e ≤ |x| < 2 ^ (e + 1)` for a finite `x` that is not
    zero. -/
def leadingExponent (x : Float) : Int := (magnitude x).exponent + (magnitude x).significand.log2

example : natural? 6 = some 6 ∧ natural? (-0.0) = some 0 ∧ natural? 2.5 = none ∧
    natural? (-1) = none := by decide +kernel
example : ofMagnitude true 3 (-1) = (-1.5 : Float) ∧ ofMagnitude false 1 (-1074) = 5e-324 := by
  decide +kernel

end BellaLang.Number
