import Pointwise.Program.Eval

/-!
# Values of a program at positions

A kernel computes a program at many positions of its tensors, several of them in one pass. Here
every operation has a value at every position, given by recursion on its operands. An operation
that broadcasts takes the value that its operand has at the first position of the pass.

## Main definitions

* `passStart` — the first position of the pass that a position belongs to.
* `Reading` — what a program finds at each position.
* `Program.valueAt` — the value of an operation at a position.

## Main results

* `Program.valueAt_eq` — the value of an operation is that of its symbol on those of its operands.
* `Program.valueAt_congr` — values depend on the elements of the inputs only.
* `Program.eval_eq_valueAt` — evaluation on one element of each input yields the values of the
  outputs.
-/

set_option autoImplicit false

namespace Pointwise

/-- The first position of the pass that a position belongs to, for rows of `inner` positions. In
each row passes of `lanes` positions follow each other as long as they fit; the positions behind
them are passes of their own. -/
def passStart (lanes inner position : Nat) : Nat :=
  let column := position % inner
  if column < inner / lanes * lanes then position - column % lanes else position

/-- What a program finds at each position. -/
structure Reading where
  arith : Arithmetic
  /-- The position whose value a broadcast takes. -/
  start : Nat → Nat
  /-- The element of an input. -/
  input : (param position : Nat) → Binary32

/-- The same row of elements at every position, each of which is a pass of its own. -/
def Reading.ofRow (arith : Arithmetic) (row : List Binary32) : Reading where
  arith
  start := id
  input param _ := row.getD param .zero

/-- The value of an operation at a position, given the values of its operands and the order of its factors. -/
def MicroOp.valueFrom (reading : Reading) (swapped : Bool) (values : (operand position : Nat) → Binary32)
    (position : Nat) : MicroOp → Binary32
  | .input p => reading.input p position
  | .const value => value
  | .broadcast a => values a (reading.start position)
  | .binary op a b => reading.arith.binary op (values a position) (values b position)
  | .fma a b c => reading.arith.fma swapped (values a position) (values b position) (values c position)
  | .unary op a => reading.arith.unary op (values a position)

/-- The value of an operation depends on the values of its operands only. -/
theorem MicroOp.valueFrom_congr {reading : Reading} {swapped : Bool}
    {left right : (operand position : Nat) → Binary32} {op : MicroOp}
    (h : ∀ a ∈ op.operands, left a = right a) (position : Nat) :
    op.valueFrom reading swapped left position = op.valueFrom reading swapped right position := by
  cases op <;> simp_all [valueFrom, operands]

namespace Program

/-- The value of an operation at a position. -/
def valueAt (program : Program) (reading : Reading) (value position : Nat) : Binary32 :=
  match program.ops[value]? with
  | some op =>
    op.valueFrom reading (program.swapsFactors value)
      (fun a p => if a < value then program.valueAt reading a p else .zero) position
  | none => .zero
termination_by value

/-- **The meaning of an operation.** Its value is that of its symbol, applied to the values of its
operands. -/
theorem valueAt_eq (program : Program) (reading : Reading) {value : Nat}
    (h : value < program.ops.length) (position : Nat) :
    program.valueAt reading value position =
      program.ops[value].valueFrom reading (program.swapsFactors value) (program.valueAt reading)
        position := by
  rw [valueAt, List.getElem?_eq_getElem h]
  refine MicroOp.valueFrom_congr (fun a ha => ?_) position
  funext p
  rw [if_pos (program.wellFormed.operands_lt value h a ha)]

/-- **Values depend on the elements of the inputs only.** Readings that agree at some positions yield the
same values there, if the passes of these positions begin at such positions, too. -/
theorem valueAt_congr {program : Program} {left right : Reading} (P : Nat → Prop)
    (harith : left.arith = right.arith) (hstart : left.start = right.start)
    (hclosed : ∀ position, P position → P (left.start position))
    (hinput : ∀ p < program.inputs, ∀ position, P position →
      left.input p position = right.input p position)
    (value : Nat) {position : Nat} (hposition : P position) :
    program.valueAt left value position = program.valueAt right value position := by
  induction value using Nat.strongRecOn generalizing position with
  | ind value ih =>
    by_cases hlt : value < program.ops.length
    · rw [valueAt_eq program left hlt, valueAt_eq program right hlt]
      have hoperand : ∀ a ∈ program.ops[value].operands, ∀ f, P f →
          program.valueAt left a f = program.valueAt right a f :=
        fun a ha f hf => ih a (program.wellFormed.operands_lt value hlt a ha) hf
      have hmem := List.getElem_mem hlt
      cases hop : program.ops[value] with
      | input p =>
        rw [hop] at hmem
        exact hinput p ((program.wellFormed.input_mem_iff p).1 hmem) position hposition
      | const _ => rfl
      | broadcast a =>
        rw [hop] at hoperand
        have hfirst := hoperand a (by simp [MicroOp.operands]) _ (hclosed position hposition)
        rw [MicroOp.valueFrom, MicroOp.valueFrom, hfirst, hstart]
      | binary op a b =>
        rw [hop] at hoperand
        simp only [MicroOp.valueFrom, harith, hoperand a (by simp [MicroOp.operands]) _ hposition,
          hoperand b (by simp [MicroOp.operands]) _ hposition]
      | fma a b c =>
        rw [hop] at hoperand
        simp only [MicroOp.valueFrom, harith, hoperand a (by simp [MicroOp.operands]) _ hposition,
          hoperand b (by simp [MicroOp.operands]) _ hposition,
          hoperand c (by simp [MicroOp.operands]) _ hposition]
      | unary op a =>
        rw [hop] at hoperand
        simp only [MicroOp.valueFrom, harith, hoperand a (by simp [MicroOp.operands]) _ hposition]
    · rw [valueAt, valueAt, List.getElem?_eq_none (by omega)]

/-! ## Agreement with evaluation -/

section Eval

variable {arith : Arithmetic} {row : List Binary32}

/-- A look-up among the first values of a sequence. -/
theorem get_map_range (f : Nat → Binary32) {count a : Nat} (h : a < count) :
    Checked.get ((List.range count).map f) a = .ok (f a) := by
  simp [h]

/-- An operation that reads the first values of a sequence is evaluated to its value on them. -/
theorem evalOp_map_range (f : Nat → Binary32) {count : Nat} {op : MicroOp} {swapped : Bool}
    (hoperands : ∀ a ∈ op.operands, a < count) (hinput : ∀ p, op = .input p → p < row.length) :
    evalOp arith swapped row ((List.range count).map f) op =
      .ok (op.valueFrom (.ofRow arith row) swapped (fun a _ => f a) 0) := by
  cases op with
  | input p =>
    have hp := hinput p rfl
    simp [evalOp, MicroOp.valueFrom, Reading.ofRow, hp]
  | const value => rfl
  | broadcast a =>
    have ha := get_map_range f (hoperands a (by simp [MicroOp.operands]))
    simp only [evalOp, MicroOp.operands, List.mapM_cons, List.mapM_nil, ha, bind, Except.bind,
      pure, Except.pure]
    rfl
  | binary op a b =>
    have ha := get_map_range f (hoperands a (by simp [MicroOp.operands]))
    have hb := get_map_range f (hoperands b (by simp [MicroOp.operands]))
    simp only [evalOp, MicroOp.operands, List.mapM_cons, List.mapM_nil, ha, hb, bind, Except.bind,
      pure, Except.pure]
    rfl
  | fma a b c =>
    have ha := get_map_range f (hoperands a (by simp [MicroOp.operands]))
    have hb := get_map_range f (hoperands b (by simp [MicroOp.operands]))
    have hc := get_map_range f (hoperands c (by simp [MicroOp.operands]))
    simp only [evalOp, MicroOp.operands, List.mapM_cons, List.mapM_nil, ha, hb, hc, bind,
      Except.bind, pure, Except.pure]
    rfl
  | unary op a =>
    have ha := get_map_range f (hoperands a (by simp [MicroOp.operands]))
    simp only [evalOp, MicroOp.operands, List.mapM_cons, List.mapM_nil, ha, bind, Except.bind,
      pure, Except.pure]
    rfl

/-- The values of all operations, from those of the operations before position `count` on. -/
theorem evalFrom_drop (program : Program) (h : program.inputs ≤ row.length) {count rest : Nat}
    (hcount : count + rest = program.ops.length) :
    evalFrom arith program.swapsFactors row (program.ops.drop count)
        ((List.range count).map fun v => program.valueAt (.ofRow arith row) v 0) =
      .ok ((List.range program.ops.length).map fun v =>
        program.valueAt (.ofRow arith row) v 0) := by
  induction rest generalizing count with
  | zero =>
    obtain rfl : count = program.ops.length := by omega
    simp [evalFrom, pure, Except.pure]
  | succ rest ih =>
    have hlt : count < program.ops.length := by omega
    rw [List.drop_eq_getElem_cons hlt]
    have hop : evalOp arith (program.swapsFactors count) row
        ((List.range count).map fun v => program.valueAt (.ofRow arith row) v 0)
        program.ops[count] = .ok (program.valueAt (.ofRow arith row) count 0) := by
      rw [valueAt_eq program _ hlt, evalOp_map_range _ (program.wellFormed.operands_lt count hlt)]
      · rfl
      · intro p hp
        have hread := (program.wellFormed.input_mem_iff p).1 (hp ▸ List.getElem_mem hlt)
        omega
    simp only [evalFrom, List.length_map, List.length_range, hop, bind, Except.bind]
    have hnext := @ih (count + 1) (by omega)
    rwa [List.range_succ, List.map_append] at hnext

/-- **Evaluation yields the values of the outputs.** One element of each input is read at every
position. -/
theorem eval_eq_valueAt (program : Program) (h : program.inputs ≤ row.length) :
    program.eval arith row =
      .ok (program.outputs.map fun v => program.valueAt (.ofRow arith row) v 0) := by
  have hvalues := @evalFrom_drop arith row program h 0 _ (Nat.zero_add program.ops.length)
  have hget : ∀ outputs : List Nat, (∀ v ∈ outputs, v < program.ops.length) →
      outputs.mapM (Checked.get ((List.range program.ops.length).map fun v =>
        program.valueAt (.ofRow arith row) v 0)) =
      .ok (outputs.map fun v => program.valueAt (.ofRow arith row) v 0) := by
    intro outputs houtputs
    induction outputs with
    | nil => rfl
    | cons v outputs ih =>
      have hv := get_map_range (fun v => program.valueAt (.ofRow arith row) v 0)
        (houtputs v (by simp))
      rw [List.mapM_cons, hv, ih fun w hw => houtputs w (by simp [hw])]
      rfl
  simp only [List.range_zero, List.map_nil, List.drop_zero] at hvalues
  simp only [eval, hvalues, bind, Except.bind]
  exact hget _ program.wellFormed.outputs_lt

end Eval

end Program

end Pointwise
