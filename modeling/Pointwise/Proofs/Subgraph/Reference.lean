import Pointwise.Proofs.Program.Reference
import Pointwise.Proofs.Subgraph.Dynamic

/-!
# Kernels and the reference

A program that broadcasts no value computes each position of its outputs from the elements of the inputs
at this position alone. What a kernel writes there is what the arithmetic of the vector instructions
gives for these elements, in a vector pass as in a pass of one element. It is the result of the
reference, unless the run compares zeros of opposite sign or has a maximum or minimum whose second
operand alone is NaN.

## Main definitions

* `Program.BroadcastFree` — a program that broadcasts no value.
* `Buffers.rowAt` — the elements of the inputs at a position.
* `Program.FollowsReference` — outputs that are results of the reference, wherever they have to be.

## Main results

* `Program.valueAt_of_broadcastFree` — values depend on the elements at the position only.
* `Compiler.kernels_follow_reference` — kernels of broadcast-free programs follow the reference.
-/

set_option autoImplicit false

namespace Pointwise

open Binary32

/-! ## Programs that broadcast no value -/

/-- A program that broadcasts no value. -/
def Program.BroadcastFree (program : Program) : Prop := ∀ a, MicroOp.broadcast a ∉ program.ops

/-- **Values depend on the elements at the position only**, if no value is broadcast. -/
theorem Program.valueAt_of_broadcastFree {program : Program} (h : program.BroadcastFree)
    {reading : Reading} {row : List Binary32} {position : Nat}
    (hinput : ∀ p < program.inputs, reading.input p position = row.getD p .zero) (value : Nat) :
    program.valueAt reading value position =
      program.valueAt (.ofRow reading.arith row) value 0 := by
  induction value using Nat.strongRecOn with
  | ind value ih =>
    by_cases hlt : value < program.ops.length
    · have hmem := List.getElem_mem hlt
      have hoperand : ∀ a ∈ program.ops[value].operands, program.valueAt reading a position =
          program.valueAt (.ofRow reading.arith row) a 0 :=
        fun a ha => ih a (program.wellFormed.operands_lt value hlt a ha)
      rw [valueAt_eq program _ hlt, valueAt_eq program _ hlt]
      cases hop : program.ops[value] with
      | input p =>
        rw [hop] at hmem
        exact hinput p ((program.wellFormed.input_mem_iff p).1 hmem)
      | const _ => rfl
      | broadcast a =>
        rw [hop] at hmem
        exact absurd hmem (h a)
      | binary op a b =>
        rw [hop] at hoperand
        simp only [MicroOp.valueFrom, hoperand a (by simp [MicroOp.operands]),
          hoperand b (by simp [MicroOp.operands])]
        rfl
      | fma a b c =>
        rw [hop] at hoperand
        simp only [MicroOp.valueFrom, hoperand a (by simp [MicroOp.operands]),
          hoperand b (by simp [MicroOp.operands]), hoperand c (by simp [MicroOp.operands])]
        rfl
      | unary op a =>
        rw [hop] at hoperand
        simp only [MicroOp.valueFrom, hoperand a (by simp [MicroOp.operands])]
        rfl
    · rw [valueAt, valueAt, List.getElem?_eq_none (by omega)]

/-! ## Positions of buffers -/

/-- The elements of the inputs that are broadcast to a position. -/
def Buffers.rowAt (outputShape : Shape) (shapes : List Shape) (ins : List Buffers.Buffer)
    (position : Nat) : List Binary32 :=
  List.zipWith (fun shape buffer => buffer.getD (Shape.sourcePosition outputShape shape position) .zero)
    shapes ins

section Rows

variable {program : Program} {shapes : List Shape} {outputShape : Shape} {ins : List Buffers.Buffer}

/-- The element of an input in a row. -/
theorem Buffers.getD_rowAt (position : Nat) {p : Nat} (hshapes : p < shapes.length)
    (hins : p < ins.length) : (rowAt outputShape shapes ins position).getD p .zero =
      (ins.getD p []).getD (Shape.sourcePosition outputShape (shapes.getD p []) position) .zero := by
  simp [rowAt, List.getD_eq_getElem?_getD, List.getElem?_zipWith, List.getElem?_eq_getElem hshapes,
    List.getElem?_eq_getElem hins]

/-- **Outputs that follow the reference.** At every position they hold what the arithmetic of the vector
instructions gives for the elements of the inputs there; and this is what the reference gives, if its run
neither compares zeros of opposite sign nor has a maximum or minimum whose second operand alone is NaN. -/
def Program.FollowsReference (program : Program) (arith : Arithmetic) (outputShape : Shape)
    (shapes : List Shape) (ins results : List Buffers.Buffer) : Prop :=
  ∀ position < outputShape.count, ∃ values,
    program.eval .vector (Buffers.rowAt outputShape shapes ins position) = .ok values ∧
    results.map (·[position]?) = values.map some ∧
    (¬ program.ComparesZeros arith (Buffers.rowAt outputShape shapes ins position) →
      ¬ program.DropsNaN arith (Buffers.rowAt outputShape shapes ins position) →
      ∃ reference, program.eval arith (Buffers.rowAt outputShape shapes ins position) = .ok reference ∧
        List.Forall₂ Same values reference)

/-- **What a program computes on buffers** follows the reference, if it broadcasts no value. -/
theorem Program.followsReference_onBuffers (hfree : program.BroadcastFree) {arith : Arithmetic}
    (harith : arith.IsReference) (hshapes : shapes.length = program.inputs)
    (hins : ins.length = program.inputs) (lanes inner : Nat) :
    program.FollowsReference arith outputShape shapes ins
      (program.onBuffers lanes inner outputShape shapes ins) := by
  intro position hposition
  have hrow : program.inputs ≤ (Buffers.rowAt outputShape shapes ins position).length := by
    rw [Buffers.rowAt, List.length_zipWith]
    omega
  have hvector : program.eval .vector (Buffers.rowAt outputShape shapes ins position) = .ok _ :=
    program.eval_eq_valueAt hrow
  refine ⟨_, hvector, ?_, fun hzeros hnan => ?_⟩
  · simp only [onBuffers, List.map_map]
    refine List.map_congr_left fun value _ => ?_
    simp only [Function.comp_apply, List.getElem?_map, List.getElem?_range hposition, Option.map_some,
      Option.some_inj]
    exact valueAt_of_broadcastFree hfree
      (fun p hp => (Buffers.getD_rowAt position (by omega) (by omega)).symm) value
  · obtain ⟨values, reference, hvalues, hreference, hsame⟩ := same_eval harith hrow hzeros hnan
    rw [hvector, Except.ok.injEq] at hvalues
    exact ⟨reference, hreference, hvalues ▸ hsame⟩

end Rows

/-! ## A sample -/

theorem Program.wellFormed_larger :
    Program.WellFormed [.input 0, .input 1, .binary .max 0 1] [2] 2 where
  ops_ne_nil := by decide
  outputs_ne_nil := by decide
  operands_lt := by decide
  outputs_lt := by decide
  input_mem_iff p := by
    simp
    omega
  params_le := by decide

/-- The program that gives the larger one of two numbers. -/
def Program.larger : Program where
  ops := [.input 0, .input 1, .binary .max 0 1]
  outputs := [2]
  inputs := 2
  wellFormed := wellFormed_larger

theorem Program.broadcastFree_larger : Program.larger.BroadcastFree := by
  intro a hmem
  simp [Program.larger] at hmem

/-! ## Kernels -/

namespace Compiler

/-- **Kernels of broadcast-free programs follow the reference.** On buffers of shapes with elements,
static and dynamic subgraphs compute at every position what the arithmetic of the vector instructions
gives for the elements of the inputs there, whatever the calls of the kernel find in the registers. With
all NaNs counted as one, this is the result of the reference, except for runs of the reference that compare
zeros of opposite sign, and runs with a maximum or minimum whose second operand alone is NaN.

**Proof sketch.** The subgraphs compute the values of the program at every position. Without a broadcast
these depend on the elements at the position only, and are compared with those of the reference operation
by operation. -/
theorem kernels_follow_reference {compiler : Compiler} {program : Program} {shapes : List Shape}
    {outputShape : Shape} {ins outs : List Buffers.Buffer} {arith : Arithmetic}
    (hfree : program.BroadcastFree) (harith : arith.IsReference)
    (hbroadcast : Shape.broadcast shapes = .ok outputShape) (hpos : 0 < outputShape.count)
    (hsuit : Buffers.Suit shapes program.outputs.length outputShape ins outs) :
    (∀ graph, compiler.compile program shapes = .ok graph → graph.isOptimized = true →
      ∃ results, (∀ found, graph.execute ins outs found = .ok results) ∧
        program.FollowsReference arith outputShape shapes ins results) ∧
    ∀ samples graph domain block, compiler.compileDynamic program samples = .ok graph →
      graph.isOptimized = true → graph.prepare shapes = .ok (domain, block) →
      ∃ results, (∀ found, graph.execute shapes ins outs found = .ok results) ∧
        program.FollowsReference arith outputShape shapes ins results := by
  have hins : ins.length = shapes.length := by simpa using congrArg List.length hsuit.inputs
  constructor
  · intro graph hcompile hoptimized
    obtain ⟨image, hkernel⟩ := StaticSubgraph.exists_kernel hoptimized
    have h := optimized_of_compile hcompile hkernel
    obtain rfl : graph.outputShape = outputShape :=
      Except.ok.inj (h.outputShape.symm.trans hbroadcast)
    exact ⟨_, h.execute hpos hsuit, Program.followsReference_onBuffers hfree harith h.length_shapes
      (hins.trans h.length_shapes) _ _⟩
  · intro samples graph domain block hcompile hoptimized hprepare
    obtain ⟨image, hkernel⟩ := DynamicSubgraph.exists_kernel hoptimized
    have hgraph := optimized_of_compileDynamic hcompile hkernel
    have hprepared := DynamicSubgraph.prepared_of_prepare hprepare
    have hplanned := hprepared.plannedFor hgraph hbroadcast hpos
    refine ⟨_, fun found => ?_, Program.followsReference_onBuffers hfree harith hplanned.length_shapes
      (hins.trans hplanned.length_shapes) compiler.config.isa.lanes domain.tiled.inner⟩
    rw [DynamicSubgraph.execute, hkernel]
    dsimp only
    rw [hprepare, Checked.ok_bind]
    dsimp only
    rw [hplanned.elements, hgraph.outputs, hsuit.check hbroadcast hpos, Checked.ok_bind]
    exact hprepared.through hgraph hbroadcast hpos hsuit found

/-- The larger ones of three pairs of numbers, the first of which begins with NaN. -/
theorem kernels_follow_reference_of_larger :
    ∃ static dynamic results results',
      Compiler.sample.compile .larger [[3], [3]] = .ok static ∧
      Compiler.sample.compileDynamic .larger [[5], [5]] = .ok dynamic ∧
      (∀ found, static.execute [[.nan, ⟨0x3f800000⟩, .zero], [⟨0x3f800000⟩, .zero, .zero]]
        [List.replicate 3 .zero] found = .ok results) ∧
      Program.larger.FollowsReference .reference [3] [[3], [3]]
        [[.nan, ⟨0x3f800000⟩, .zero], [⟨0x3f800000⟩, .zero, .zero]] results ∧
      (∀ found, dynamic.execute [[3], [3]] [[.nan, ⟨0x3f800000⟩, .zero], [⟨0x3f800000⟩, .zero, .zero]]
        [List.replicate 3 .zero] found = .ok results') ∧
      Program.larger.FollowsReference .reference [3] [[3], [3]]
        [[.nan, ⟨0x3f800000⟩, .zero], [⟨0x3f800000⟩, .zero, .zero]] results' ∧
      ¬ Program.larger.ComparesZeros .reference [.nan, ⟨0x3f800000⟩] ∧
      ¬ Program.larger.DropsNaN .reference [.nan, ⟨0x3f800000⟩] := by
  have hstatic : (Compiler.sample.compile .larger [[3], [3]]).toOption.map (·.isOptimized) =
      some true := by decide +kernel
  have hdynamic : ((Compiler.sample.compileDynamic .larger [[5], [5]]).toOption.bind fun dynamic =>
      (dynamic.prepare [[3], [3]]).toOption.map fun _ => dynamic.isOptimized) = some true := by
    decide +kernel
  obtain ⟨static, hstatic, hoptimized⟩ := Option.map_eq_some_iff.1 hstatic
  obtain ⟨dynamic, hdynamic, hprepare⟩ := Option.bind_eq_some_iff.1 hdynamic
  obtain ⟨⟨domain, block⟩, hprepare, hkernel⟩ := Option.map_eq_some_iff.1 hprepare
  rw [Checked.toOption_eq_some] at hstatic hdynamic hprepare
  have hsuit : Buffers.Suit [[3], [3]] 1 [3]
      [[.nan, ⟨0x3f800000⟩, .zero], [⟨0x3f800000⟩, .zero, .zero]] [List.replicate 3 .zero] :=
    ⟨by decide, by decide, by decide, by decide⟩
  obtain ⟨hstatics, hdynamics⟩ := @kernels_follow_reference Compiler.sample .larger _ _ _ _ .reference
    Program.broadcastFree_larger Arithmetic.isReference_reference rfl (by decide) hsuit
  obtain ⟨results, hexecute, hfollows⟩ := hstatics static hstatic hoptimized
  obtain ⟨results', hexecute', hfollows'⟩ :=
    hdynamics _ dynamic domain block hdynamic hkernel hprepare
  exact ⟨static, dynamic, results, results', hstatic, hdynamic, hexecute, hfollows, hexecute',
    hfollows', by decide +kernel, by decide +kernel⟩

/-- The kernel for the larger one of two numbers gives NaN if the second one is, while the reference gives
the first one. -/
theorem larger_gives_second_nan :
    ∃ graph, Compiler.sample.compile .larger [[1], [1]] = .ok graph ∧
      (∀ found, graph.execute [[⟨0x3f800000⟩], [.nan]] [[.zero]] found = .ok [[.nan]]) ∧
      Program.larger.eval .reference [⟨0x3f800000⟩, .nan] = .ok [⟨0x3f800000⟩] ∧
      Program.larger.BroadcastFree ∧
      ¬ Program.larger.ComparesZeros .reference [⟨0x3f800000⟩, .nan] ∧
      ¬ Same .nan ⟨0x3f800000⟩ := by
  have hoptimized : (Compiler.sample.compile .larger [[1], [1]]).toOption.map (·.isOptimized) =
      some true := by decide +kernel
  obtain ⟨graph, hcompile, hkernel⟩ := Option.map_eq_some_iff.1 hoptimized
  rw [Checked.toOption_eq_some] at hcompile
  obtain ⟨image, himage⟩ := StaticSubgraph.exists_kernel hkernel
  have h := optimized_of_compile hcompile himage
  have hshape : graph.outputShape = [1] := Except.ok.inj (h.outputShape.symm.trans rfl)
  have hsuit : Buffers.Suit [[1], [1]] 1 graph.outputShape [[⟨0x3f800000⟩], [.nan]] [[.zero]] := by
    rw [hshape]
    exact ⟨by decide, by decide, by decide, by decide⟩
  have hvalue : ∀ inner, Program.larger.valueAt (.ofTensors 8 inner [1] [[1], [1]] fun p i =>
      ([[⟨0x3f800000⟩], [.nan]].getD p []).getD i .zero) 2 0 = .nan := by
    intro inner
    have hrow : Program.larger.valueAt (.ofRow .vector [⟨0x3f800000⟩, .nan]) 2 0 = .nan := by
      decide +kernel
    refine (Program.valueAt_of_broadcastFree Program.broadcastFree_larger (fun p hp => ?_) 2).trans hrow
    match p with
    | 0 => rfl
    | 1 => rfl
    | p + 2 => exact absurd hp (by simp [Program.larger])
  refine ⟨graph, hcompile, fun found => ?_, by decide, Program.broadcastFree_larger, by decide +kernel,
    by decide⟩
  rw [h.execute (by rw [hshape]; decide) hsuit found, hshape]
  exact congrArg (fun x => Except.ok [[x]]) (hvalue graph.domain.tiled.inner)

end Compiler

end Pointwise
