import Pointwise.Checked

/-!
# Instructions

The instructions that kernels are made of. Code is a list of instructions, and a branch names its
target by a distance: the number of instructions between the branch's successor and the target.
Code is therefore independent of its position, and pieces of code are put together by appending.

## Main definitions

* `MemoryOperand` — a base register and a displacement.
* `Instruction`, `Code` — the instructions and lists of them.
* `RegisterClass.pick` — the register with a given number, if there is one.
* `immediate`, `MemoryOperand.behind` — operands that have to fit 32 bits.
-/

set_option autoImplicit false

namespace Pointwise

/-- The address in a register plus a displacement. -/
structure MemoryOperand where
  base : Register
  displacement : Int
  deriving DecidableEq

/-- The outcomes of a signed comparison on which code branches. -/
inductive Condition where
  | less | equal | greaterEqual
  deriving DecidableEq

/-- The bitwise operations on vectors. -/
inductive BitwiseOp where
  | and | xor
  deriving DecidableEq

/-- An instruction. Destinations come first. -/
inductive Instruction where
  /-- A general register gets a word from memory. -/
  | loadWord (target : Register) (source : MemoryOperand)
  /-- A general register gets a constant of 64 bits. -/
  | setWord (target : Register) (value : Int)
  /-- A general register gets a constant of 32 bits, zeros above it. -/
  | setHalf (target : Register) (value : BitVec 32)
  | mulLoad (target : Register) (source : MemoryOperand)
  | addWord (target source : Register)
  | addLoad (target : Register) (source : MemoryOperand)
  | addImmediate (target : Register) (value : Int)
  | subImmediate (target : Register) (value : Int)
  | compare (left : Register) (right : Int)
  | push (source : Register)
  | pop (target : Register)
  | ret
  /-- Clears the upper parts of all vector registers. -/
  | zeroUpper
  | jump (distance : Int)
  | jumpIf (condition : Condition) (distance : Int)
  /-- All lanes from memory. -/
  | loadVector (w : VectorWidth) (target base : Register)
  /-- All lanes to memory. -/
  | storeVector (w : VectorWidth) (base source : Register)
  /-- The first lane from memory, zeros above it. -/
  | loadLane (target base : Register)
  /-- The first lane to memory. -/
  | storeLane (base source : Register)
  /-- All lanes from one number in memory. -/
  | splatLoad (w : VectorWidth) (target base : Register)
  /-- All lanes from the first lane of a register. -/
  | splat (w : VectorWidth) (target source : Register)
  /-- The first lane from the lower half of a general register, zeros above it. -/
  | laneFromWord (target source : Register)
  | moveVector (w : VectorWidth) (target source : Register)
  | binary (w : VectorWidth) (op : BinaryOp) (target left right : Register)
  | sqrt (w : VectorWidth) (target source : Register)
  | bitwise (w : VectorWidth) (op : BitwiseOp) (target left right : Register)
  /-- The target times `left` plus `addend`, to the target. -/
  | mulAddTarget (w : VectorWidth) (target left addend : Register)
  /-- `left` times `right` plus the target, to the target. -/
  | mulAddOnto (w : VectorWidth) (target left right : Register)
  deriving DecidableEq

/-- A list of instructions. -/
abbrev Code := List Instruction

/-! ## Operands -/

/-- The register with a given number. -/
def RegisterClass.pick (cls : RegisterClass) (index : Nat) : Except Error Register :=
  if h : index < registerCount then .ok ⟨index, h⟩
  else .error (.capacity (.registerIndex cls index))

theorem RegisterClass.pick_eq_ok {cls : RegisterClass} {index : Nat} {r : Register} :
    cls.pick index = .ok r ↔ index = r.val := by
  unfold pick
  split
  · rename_i h
    simp only [Except.ok.injEq]
    exact ⟨fun e => by rw [← e], fun e => Fin.ext e⟩
  · rename_i h
    simp only [reduceCtorEq, false_iff]
    exact fun e => h (by rw [e]; exact r.isLt)

/-- The vector register with a given number, at a given width. -/
def VectorWidth.pick (w : VectorWidth) (index : Nat) : Except Error Register :=
  w.registerClass.pick index

/-- A constant operand, if it fits 32 bits with a sign. -/
def immediate (value : Int) : Except Error Int :=
  if -0x80000000 ≤ value ∧ value < 0x80000000 then .ok value
  else .error (.capacity (.immediate value))

@[simp] theorem immediate_eq_ok {value x : Int} :
    immediate value = .ok x ↔ value = x ∧ -0x80000000 ≤ value ∧ value < 0x80000000 := by
  unfold immediate
  split <;> simp <;> omega

/-- The operand at a number of bytes behind the address in a register. -/
def MemoryOperand.behind (base displacement : Nat) : Except Error MemoryOperand := do
  let displacement ← immediate (Checked.toOffset displacement)
  return ⟨← RegisterClass.gpr64.pick base, displacement⟩

end Pointwise
