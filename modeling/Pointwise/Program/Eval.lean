import Pointwise.Program.Registers

/-!
# Evaluation of a program

A program is evaluated on one element of each input. The meaning of its operations is a parameter:
the reference arithmetic ignores a NaN operand of a maximum, the arithmetic of the vector
instructions returns the second operand.

A fused operation on two NaN factors gives the first one. Which one this is depends on the instruction: the
first factor in the place of the result is the second factor of the instruction.

## Main definitions

* `Arithmetic` — the meaning of the operations.
* `Arithmetic.reference`, `Arithmetic.vector` — the two meanings.
* `Program.swapsFactors` — whether the factors of a fused operation are exchanged.
* `MicroOp.apply` — an operation applied to a list of arguments.
* `Program.eval` — the outputs of a program for one element of each input.
-/

set_option autoImplicit false

namespace Pointwise

/-- The meaning of the operations. -/
structure Arithmetic where
  binary : BinaryOp → Binary32 → Binary32 → Binary32
  /-- A product plus a third value, where an instruction may take the factors in the other order. -/
  fma : (swapped : Bool) → Binary32 → Binary32 → Binary32 → Binary32
  unary : UnaryOp → Binary32 → Binary32

namespace Arithmetic

/-- The reference arithmetic: maximum and minimum ignore a NaN operand. -/
def reference : Arithmetic where
  binary
    | .add => .add
    | .sub => .sub
    | .mul => .mul
    | .div => .div
    | .max => .maxNumber
    | .min => .minNumber
  fma _ := .fma
  unary
    | .neg => .neg
    | .abs => .abs
    | .sqrt => .sqrt
    | .relu => fun x => .maxNumber x .zero

/-- The arithmetic of the vector instructions: maximum and minimum return their second operand
unless the first one is strictly larger or smaller. -/
def vector : Arithmetic where
  binary
    | .add => .add
    | .sub => .sub
    | .mul => .mul
    | .div => .div
    | .max => .selectMax
    | .min => .selectMin
  fma swapped x y z := if swapped then .fma y x z else .fma x y z
  unary
    | .neg => .neg
    | .abs => .abs
    | .sqrt => .sqrt
    | .relu => fun x => .selectMax x .zero

theorem vector_fma (swapped : Bool) (x y z : Binary32) :
    vector.fma swapped x y z = if swapped then .fma y x z else .fma x y z := rfl

@[simp] theorem vector_fma_true (x y z : Binary32) : vector.fma true x y z = .fma y x z := by
  rw [vector_fma, if_pos rfl]

@[simp] theorem vector_fma_false (x y z : Binary32) : vector.fma false x y z = .fma x y z := by
  rw [vector_fma, if_neg Bool.false_ne_true]

end Arithmetic

/-- An operation applied to a list of arguments; surplus ones are ignored. -/
def MicroOp.apply (arith : Arithmetic) (op : MicroOp) (args : List Binary32)
    (swapped : Bool := false) : Except Error Binary32 := do
  match op with
  | .const value => return value
  | .input _ | .broadcast _ => Checked.get args 0
  | .binary op _ _ => return arith.binary op (← Checked.get args 0) (← Checked.get args 1)
  | .fma _ _ _ =>
    return arith.fma swapped (← Checked.get args 0) (← Checked.get args 1) (← Checked.get args 2)
  | .unary op _ => return arith.unary op (← Checked.get args 0)

namespace Program

/-- Whether the code of a fused operation exchanges its factors: where its result takes the place of the
first factor, and not also that of the addend, the product is computed onto the first factor, which is the
second one of the instruction. -/
def swapsFactors (program : Program) (value : Nat) : Bool :=
  match program.ops[value]? with
  | some (.fma left _ addend) =>
    let registers := program.registers.registers
    decide (registers[value]? = registers[left]? ∧ registers[value]? ≠ registers[addend]?)
  | _ => false

/-- The value of an operation, from one element of each input and the values of the operations
before it. -/
def evalOp (arith : Arithmetic) (swapped : Bool) (row values : List Binary32) (op : MicroOp) :
    Except Error Binary32 := do
  match op with
  | .input p => Checked.get row p
  | _ => op.apply arith (← op.operands.mapM (Checked.get values)) swapped

/-- The values of all operations, given those of the operations before them. -/
def evalFrom (arith : Arithmetic) (swaps : Nat → Bool) (row : List Binary32) :
    List MicroOp → (values : List Binary32) → Except Error (List Binary32)
  | [], values => return values
  | op :: ops, values => do
    let value ← evalOp arith (swaps values.length) row values op
    evalFrom arith swaps row ops (values ++ [value])

/-- The outputs of a program for one element of each input. -/
def eval (program : Program) (arith : Arithmetic) (row : List Binary32) :
    Except Error (List Binary32) := do
  let values ← evalFrom arith program.swapsFactors row program.ops []
  program.outputs.mapM (Checked.get values)

end Program

end Pointwise
