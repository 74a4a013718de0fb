/-!
# Single precision numbers

A number is its 32-bit pattern: a sign bit above a 31-bit *magnitude*. Magnitudes are ordered
like the absolute values they stand for, with infinity at `infinityMagnitude` and every NaN
above it.

Every finite number is a whole number of *units* of `2 ^ (-149)`, the smallest positive number.
Sums and products of finite numbers are therefore exact integers in units of `2 ^ (-149)` and
`2 ^ (-298)`, and each operation rounds one exact quotient, once.

## Main definitions

* `Binary32` — a single precision bit pattern.
* `Binary32.units` — the value of a finite number, in units of `2 ^ (-149)`.
* `Binary32.roundUnits` — the magnitude nearest to a quotient of naturals, a tie going to even.
* `Binary32.ofInt` — the number nearest to an integer.
* `Binary32.quiet`, `Binary32.indefinite` — the NaNs that operations give.
-/

set_option autoImplicit false

namespace Pointwise

/-- A single precision number, as its bit pattern. -/
structure Binary32 where
  bits : BitVec 32
  deriving DecidableEq, Hashable

namespace Binary32

/-! ## Parts of a bit pattern -/

/-- The weight of the sign bit, and the number of magnitudes. -/
def signWeight : Nat := 0x80000000

/-- The weight of the lowest bit of the exponent field, and the number of fractions. -/
def exponentWeight : Nat := 0x800000

/-- The magnitude of both infinities; the magnitudes above it are the NaNs. -/
def infinityMagnitude : Nat := 0x7f800000

/-- The 31 bits below the sign. -/
def magnitude (x : Binary32) : Nat := x.bits.toNat % signWeight

/-- Whether the sign bit is set. -/
def negative (x : Binary32) : Bool := x.bits.msb

/-- The pattern with a given sign and magnitude. -/
def ofMagnitude (negative : Bool) (magnitude : Nat) : Binary32 :=
  ⟨BitVec.ofNat 32 (magnitude + if negative then signWeight else 0)⟩

/-- Positive zero. -/
def zero : Binary32 := ⟨0⟩

instance : Inhabited Binary32 := ⟨zero⟩

/-- The quiet NaN without a sign and a payload. -/
def nan : Binary32 := ⟨0x7fc00000⟩

/-- The NaN that invalid operations give. -/
def indefinite : Binary32 := ⟨0xffc00000⟩

/-- The number with the highest bit of its fraction set, which makes a NaN a quiet one and keeps the rest of
its payload. -/
def quiet (x : Binary32) : Binary32 := ⟨x.bits ||| 0x00400000⟩

/-- The infinity of a given sign. -/
def infinity (negative : Bool) : Binary32 := ofMagnitude negative infinityMagnitude

/-- The zero of a given sign. -/
def signedZero (negative : Bool) : Binary32 := ofMagnitude negative 0

def isNaN (x : Binary32) : Bool := infinityMagnitude < x.magnitude

def isInfinite (x : Binary32) : Bool := x.magnitude = infinityMagnitude

def isZero (x : Binary32) : Bool := x.magnitude = 0

/-! ## Exact values -/

/-- The value of a finite magnitude in units of `2 ^ (-149)`: subnormals count units, and a
normal number with exponent field `e` has its 24-bit significand shifted by `e - 1`. -/
def unitsOf (magnitude : Nat) : Nat :=
  let exponent := magnitude / exponentWeight
  let fraction := magnitude % exponentWeight
  if exponent = 0 then fraction else (exponentWeight + fraction) <<< (exponent - 1)

/-- The value of a finite number in units of `2 ^ (-149)`. -/
def units (x : Binary32) : Int :=
  if x.negative then -(unitsOf x.magnitude : Int) else unitsOf x.magnitude

/-! ## Rounding -/

/-- The integer nearest to `num / den`; a tie goes to the even neighbour. -/
def divEven (num den : Nat) : Nat :=
  let quotient := num / den
  let twice := 2 * (num % den)
  if twice < den then quotient
  else if den < twice then quotient + 1
  else quotient + quotient % 2

/-- The magnitude nearest to `num / den` units. The quotient is divided by the power of two that
leaves 24 bits of it, so that the rounded significand, added to the exponent in its field, is
the magnitude: a carry out of the significand moves into the exponent by itself. A magnitude
that does not fit is infinite. -/
def roundUnits (num den : Nat) : Nat :=
  let shift := Nat.log2 (num / den) - 23
  min infinityMagnitude (divEven num (den <<< shift) + shift * exponentWeight)

/-- The number of units in one. -/
def unitsInOne : Nat := 1 <<< 149

/-- The number of a given sign nearest to `num / den` units. -/
def ofUnits (negative : Bool) (num den : Nat) : Binary32 :=
  ofMagnitude negative (roundUnits num den)

/-- The number nearest to an integer. -/
def ofInt (n : Int) : Binary32 := ofUnits (n < 0) (n.natAbs * unitsInOne) 1

end Binary32

end Pointwise
