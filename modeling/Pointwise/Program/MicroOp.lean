import Pointwise.Binary32.Arithmetic

/-!
# Operations of a program

A program computes one element of each output from one element of each input, by a list of
operations in which every operand is the position of an earlier operation.

## Main definitions

* `BinaryOp`, `UnaryOp` — the arithmetic operations by number of operands.
* `MicroOp` — one operation of a program.
* `MicroOp.operands` — the earlier values that an operation reads.
* `MicroOp.text` — an operation as messages show it.
-/

set_option autoImplicit false

namespace Pointwise

/-- The operations on two values. -/
inductive BinaryOp where
  | add | sub | mul | div | max | min
  deriving DecidableEq

/-- The operations on one value. -/
inductive UnaryOp where
  | neg | abs | sqrt | relu
  deriving DecidableEq

/-- One operation. Operands are positions of earlier operations. -/
inductive MicroOp where
  /-- The element of an input tensor. -/
  | input (param : Nat)
  /-- A constant. -/
  | const (value : Binary32)
  /-- The value that another operation has in the first lane of a vector pass. -/
  | broadcast (source : Nat)
  | binary (op : BinaryOp) (left right : Nat)
  /-- A product plus a third value, rounded once. -/
  | fma (left right addend : Nat)
  | unary (op : UnaryOp) (source : Nat)
  deriving DecidableEq

namespace MicroOp

/-- The earlier values that an operation reads, in order and with repetitions. -/
def operands : MicroOp → List Nat
  | .input _ | .const _ => []
  | .broadcast a | .unary _ a => [a]
  | .binary _ a b => [a, b]
  | .fma a b c => [a, b, c]

/-- The input tensor that an operation reads. -/
def inputParam? : MicroOp → Option Nat
  | .input p => some p
  | _ => none

/-- Whether two operations are the same, constants being compared as numbers: a NaN constant
differs from itself and the two zeros are equal. -/
def agrees : MicroOp → MicroOp → Bool
  | .const x, .const y => x.eq y
  | left, right => left = right

end MicroOp

/-! ## Texts -/

/-- The name of an operation on two values in a program. -/
def BinaryOp.text : BinaryOp → String
  | .add => "Add"
  | .sub => "Sub"
  | .mul => "Mul"
  | .div => "Div"
  | .max => "Max"
  | .min => "Min"

/-- The name of an operation on one value in a program. -/
def UnaryOp.text : UnaryOp → String
  | .neg => "Neg"
  | .abs => "Abs"
  | .sqrt => "Sqrt"
  | .relu => "Relu"

/-- An operation with its operands, as messages show it. -/
def MicroOp.text : MicroOp → String
  | .input p => s!"Input({p})"
  | .const value => s!"Const({value.bits.toNat})"
  | .broadcast a => s!"Broadcast({a})"
  | .binary op a b => s!"{op.text}({a}, {b})"
  | .fma a b c => s!"Fma({a}, {b}, {c})"
  | .unary op a => s!"{op.text}({a})"

end Pointwise
