import Pointwise.Binary32.Basic

/-!
# Single precision arithmetic

Each operation computes its exact result from the units of its operands and rounds it once, to
nearest with ties to even. Subnormal numbers are kept.

NaNs are those of the vector instructions. An operation with a NaN among its operands gives the first one of
them, made quiet, so that its payload is kept; any other invalid operation gives `Binary32.indefinite`.

Two kinds of maximum and minimum are needed. The *selecting* ones, `selectMax` and `selectMin`,
are those of the vector instructions: they return the second operand when either operand is NaN
and when both are zero. The *number-preferring* ones, `maxNumber` and `minNumber`, ignore a NaN
operand.

## Main definitions

* `Binary32.add`, `sub`, `mul`, `div`, `fma`, `sqrt` — correctly rounded operations.
* `Binary32.neg`, `abs` — operations on the sign bit.
* `Binary32.lt`, `eq` — comparisons, false on a NaN operand.
* `Binary32.selectMax`, `selectMin`, `maxNumber`, `minNumber`.
-/

set_option autoImplicit false

namespace Pointwise.Binary32

/-! ## Signs and comparisons -/

/-- The number with its sign bit flipped. -/
def neg (x : Binary32) : Binary32 := ⟨x.bits ^^^ 0x80000000⟩

/-- The number with its sign bit cleared. -/
def abs (x : Binary32) : Binary32 := ⟨x.bits &&& 0x7fffffff⟩

/-- An integer ordered like the number, which gives both zeros the same place. -/
def rank (x : Binary32) : Int :=
  if x.negative then -(x.magnitude : Int) else x.magnitude

/-- Whether `x` is less than `y`; false if either is NaN. -/
def lt (x y : Binary32) : Bool := !x.isNaN && !y.isNaN && decide (x.rank < y.rank)

/-- Whether `x` and `y` are equal numbers; false if either is NaN, true of the two zeros. -/
def eq (x y : Binary32) : Bool := !x.isNaN && !y.isNaN && decide (x.rank = y.rank)

/-! ## Rounded operations -/

/-- The sign of an exact zero sum: negative only if both terms are. -/
private def sumSign (sum : Int) (left right : Bool) : Bool :=
  if sum = 0 then left && right else sum < 0

/-- The sum, rounded once. -/
def add (x y : Binary32) : Binary32 :=
  if x.isNaN then x.quiet
  else if y.isNaN then y.quiet
  else if x.isInfinite then
    if y.isInfinite && x.negative != y.negative then indefinite else x
  else if y.isInfinite then y
  else
    let sum := x.units + y.units
    ofUnits (sumSign sum x.negative y.negative) sum.natAbs 1

/-- The difference, rounded once. A NaN that is subtracted keeps its sign. -/
def sub (x y : Binary32) : Binary32 :=
  if x.isNaN then x.quiet else if y.isNaN then y.quiet else add x y.neg

/-- The product, rounded once. -/
def mul (x y : Binary32) : Binary32 :=
  let negative := x.negative != y.negative
  if x.isNaN then x.quiet
  else if y.isNaN then y.quiet
  else if x.isInfinite || y.isInfinite then
    if x.isZero || y.isZero then indefinite else infinity negative
  else ofUnits negative (x.units.natAbs * y.units.natAbs) unitsInOne

/-- The quotient, rounded once. -/
def div (x y : Binary32) : Binary32 :=
  let negative := x.negative != y.negative
  if x.isNaN then x.quiet
  else if y.isNaN then y.quiet
  else if x.isInfinite then
    if y.isInfinite then indefinite else infinity negative
  else if y.isInfinite then signedZero negative
  else if y.isZero then
    if x.isZero then indefinite else infinity negative
  else ofUnits negative (x.units.natAbs * unitsInOne) y.units.natAbs

/-- The product of `x` and `y` plus `z`, rounded once. The order of the factors matters only for the NaN
that is given if both are NaN. -/
def fma (x y z : Binary32) : Binary32 :=
  let negative := x.negative != y.negative
  if x.isNaN then x.quiet
  else if y.isNaN then y.quiet
  else if z.isNaN then z.quiet
  else if x.isInfinite || y.isInfinite then
    if x.isZero || y.isZero || (z.isInfinite && z.negative != negative) then indefinite
    else infinity negative
  else if z.isInfinite then z
  else
    let sum := x.units * y.units + z.units * unitsInOne
    ofUnits (sumSign sum negative z.negative) sum.natAbs unitsInOne

/-- The integer part of a square root. -/
def rootFloor (n : Nat) : Nat :=
  if n < 2 then n
  else
    let root := 2 * rootFloor (n / 4)
    if (root + 1) * (root + 1) ≤ n then root + 1 else root
termination_by n

/-- The square root, rounded once. The root of `u` units is the root of `u * 2 ^ 149`, which has
more bits than a significand, so that its integer part and one bit that tells whether anything
was cut off decide every rounding. -/
def sqrt (x : Binary32) : Binary32 :=
  if x.isNaN then x.quiet
  else if x.isZero then x
  else if x.negative then indefinite
  else if x.isInfinite then x
  else
    let square := x.units.natAbs * unitsInOne
    let root := rootFloor square
    ofUnits false (2 * root + if root * root = square then 0 else 1) 2

/-! ## Maximum and minimum -/

/-- The larger operand; the second one if either is NaN or the two are equal. -/
def selectMax (x y : Binary32) : Binary32 := if y.lt x then x else y

/-- The smaller operand; the second one if either is NaN or the two are equal. -/
def selectMin (x y : Binary32) : Binary32 := if x.lt y then x else y

/-- The larger operand, ignoring a NaN. -/
def maxNumber (x y : Binary32) : Binary32 :=
  if x.isNaN then y else if y.isNaN then x else selectMax x y

/-- The smaller operand, ignoring a NaN. -/
def minNumber (x y : Binary32) : Binary32 :=
  if x.isNaN then y else if y.isNaN then x else selectMin x y

end Pointwise.Binary32
