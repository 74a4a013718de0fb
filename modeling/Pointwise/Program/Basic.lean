import Pointwise.Checked
import Pointwise.Offset.Block

/-!
# Programs

A program is a list of operations in which every operand is the position of an earlier operation,
and a list of the values that are written to the outputs.

## Main definitions

* `Program.WellFormed` — what a list of operations and a list of outputs have to satisfy.
* `Program` — a well-formed program.
* `Program.ofOps` — the program with given operations and outputs, if they are well formed.
* `Program.Builder` — operations pushed one after the other.

## Main results

* `Program.findForward_eq_none` — no operation reads a later one.
* `Program.firstUnread_eq_none` — every input is read.
-/

set_option autoImplicit false

namespace Pointwise

/-- What a list of operations and a list of outputs have to satisfy to form a program that reads
the inputs below `inputs`. -/
structure Program.WellFormed (ops : List MicroOp) (outputs : List Nat) (inputs : Nat) : Prop where
  ops_ne_nil : ops ≠ []
  outputs_ne_nil : outputs ≠ []
  operands_lt : ∀ (i : Nat) (h : i < ops.length), ∀ a ∈ ops[i].operands, a < i
  outputs_lt : ∀ v ∈ outputs, v < ops.length
  input_mem_iff : ∀ p, MicroOp.input p ∈ ops ↔ p < inputs
  params_le : inputs + outputs.length ≤ maxParams

/-- A well-formed program. -/
structure Program where
  ops : List MicroOp
  /-- The values that are written to the outputs. -/
  outputs : List Nat
  /-- The number of input tensors. -/
  inputs : Nat
  wellFormed : Program.WellFormed ops outputs inputs

namespace Program

/-! ## Checking a list of operations -/

/-- The first operation that reads a value at or behind its own position, with its position and
that value. -/
def findForward (position : Nat) : List MicroOp → Option (Nat × MicroOp × Nat)
  | [] => none
  | op :: ops =>
    match op.operands.find? (position ≤ ·) with
    | some value => some (position, op, value)
    | none => findForward (position + 1) ops

/-- One more than the largest input that is read, or zero. -/
def inputCount (ops : List MicroOp) : Nat :=
  (ops.filterMap MicroOp.inputParam?).foldl (fun count p => max count (p + 1)) 0

/-- The first input from `first` on that is not read, among `count` many. -/
def firstUnread (ops : List MicroOp) : (count first : Nat) → Option Nat
  | 0, _ => none
  | count + 1, first =>
    if MicroOp.input first ∈ ops then firstUnread ops count (first + 1) else some first

theorem findForward_eq_none {ops : List MicroOp} {position : Nat} :
    findForward position ops = none ↔
      ∀ (i : Nat) (h : i < ops.length), ∀ a ∈ ops[i].operands, a < position + i := by
  induction ops generalizing position with
  | nil => simp [findForward]
  | cons op ops ih =>
    unfold findForward
    split
    · rename_i value hv
      have hm := List.mem_of_find?_eq_some hv
      have hp := List.find?_some hv
      simp only [decide_eq_true_eq] at hp
      constructor
      · simp
      · intro h
        have := h 0 (by simp) value hm
        omega
    · rename_i hv
      simp only [List.find?_eq_none, decide_eq_true_eq, Nat.not_le] at hv
      rw [ih]
      constructor
      · intro h i hi a ha
        cases i with
        | zero => exact hv a ha
        | succ i =>
          have := h i (by simpa using hi) a ha
          omega
      · intro h i hi a ha
        have := h (i + 1) (by simpa using hi) a (by simpa using ha)
        omega

theorem firstUnread_eq_none {ops : List MicroOp} {count first : Nat} :
    firstUnread ops count first = none ↔
      ∀ p, first ≤ p → p < first + count → MicroOp.input p ∈ ops := by
  induction count generalizing first with
  | zero =>
    simp only [firstUnread, true_iff]
    intro p _ _
    omega
  | succ count ih =>
    unfold firstUnread
    split
    · rename_i hread
      rw [ih]
      constructor
      · intro h p h₁ h₂
        rcases Nat.eq_or_lt_of_le h₁ with rfl | h₁
        · exact hread
        · exact h p h₁ (by omega)
      · intro h p h₁ h₂
        exact h p (by omega) (by omega)
    · rename_i hread
      constructor
      · simp
      · intro h
        exact absurd (h first (Nat.le_refl _) (by omega)) hread

theorem lt_inputCount {ops : List MicroOp} {p : Nat} (h : MicroOp.input p ∈ ops) :
    p < inputCount ops := by
  have grow : ∀ (params : List Nat) (count : Nat),
      count ≤ params.foldl (fun count p => max count (p + 1)) count ∧
        ∀ p ∈ params, p < params.foldl (fun count p => max count (p + 1)) count := by
    intro params
    induction params with
    | nil => simp
    | cons q params ih =>
      intro count
      obtain ⟨hle, hlt⟩ := ih (max count (q + 1))
      refine ⟨by simp only [List.foldl_cons]; omega, ?_⟩
      intro p hp
      simp only [List.foldl_cons]
      rcases List.mem_cons.1 hp with rfl | hp
      · omega
      · exact hlt p hp
  exact (grow _ 0).2 p (List.mem_filterMap.2 ⟨_, h, rfl⟩)

/-- The program with given operations and outputs, if they are well formed. -/
def ofOps (ops : List MicroOp) (outputs : List Nat) : Except Error Program :=
  if h₁ : ops = [] then .error (.invalid .noOps)
  else if h₂ : outputs = [] then .error (.invalid .noOutputs)
  else match h₃ : findForward 0 ops with
  | some (position, op, value) => .error (.invalid (.readBeforeDefinition position op value))
  | none => match h₄ : outputs.find? (ops.length ≤ ·) with
    | some value => .error (.invalid (.unknownOutput value))
    | none => match h₅ : firstUnread ops (inputCount ops) 0 with
      | some param => .error (.invalid (.unreadInput param))
      | none =>
        if h₆ : inputCount ops + outputs.length ≤ maxParams then
          .ok {
            ops, outputs
            inputs := inputCount ops
            wellFormed := {
              ops_ne_nil := h₁
              outputs_ne_nil := h₂
              operands_lt := by simpa using findForward_eq_none.1 h₃
              outputs_lt := by simpa using h₄
              input_mem_iff := fun p =>
                ⟨lt_inputCount, fun h =>
                  firstUnread_eq_none.1 h₅ p (Nat.zero_le p) (by simpa using h)⟩
              params_le := h₆ } }
        else .error (.capacity (.params (inputCount ops) outputs.length))

/-- The number of parameters: inputs and outputs. -/
def params (program : Program) : Nat := program.inputs + program.outputs.length

/-- Whether two programs are the same, constants being compared as numbers. -/
def agrees (left right : Program) : Bool :=
  left.ops.length = right.ops.length &&
    (left.ops.zip right.ops).all (fun (x, y) => x.agrees y) &&
    left.outputs = right.outputs && left.inputs = right.inputs

/-! ## Building a program step by step -/

/-- Operations pushed one after the other. -/
abbrev Builder := StateM (Array MicroOp)

namespace Builder

/-- Pushes an operation and returns its position. -/
def push (op : MicroOp) : Builder Nat := modifyGet fun ops => (ops.size, ops.push op)

def input (param : Nat) : Builder Nat := push (.input param)

def const (value : Binary32) : Builder Nat := push (.const value)

def broadcast (source : Nat) : Builder Nat := push (.broadcast source)

def binary (op : BinaryOp) (left right : Nat) : Builder Nat := push (.binary op left right)

def fma (left right addend : Nat) : Builder Nat := push (.fma left right addend)

def unary (op : UnaryOp) (source : Nat) : Builder Nat := push (.unary op source)

/-- The program of the pushed operations, with the outputs that the last step names. -/
def build (steps : Builder (List Nat)) : Except Error Program :=
  let (outputs, ops) := steps.run #[]
  ofOps ops.toList outputs

end Builder

end Program

end Pointwise
