import Pointwise.Proofs.Domain.Pattern
import Pointwise.Proofs.Kernel.DynamicCapacity
import Pointwise.Proofs.Subgraph.Dynamic

/-!
# Subgraphs without a kernel

A program can be compiled for all shapes that can be broadcast. A static subgraph has no kernel exactly
if a capacity is exhausted: the dimensions that are left to the calls, the registers, or the range of the
row offsets. A dynamic one has none if a shape has too many dimensions or the registers are exhausted;
sizes and offsets do not matter, since it is not compiled for them.

## Main definitions

* `StaticSubgraph.WithinCapacity` — a subgraph that exhausts no capacity.

## Main results

* `Compiler.exists_build` — whether a kernel is built is decided by what limits its code.
* `Compiler.compile_falls_back`, `Compiler.compileDynamic_falls_back` — compilation succeeds, and there
  is a kernel exactly within the capacities.
-/

set_option autoImplicit false

namespace Pointwise

/-- A subgraph that exhausts no capacity: its calls get index vectors of a bounded length, its program
leaves enough registers, and the offsets between its rows fit instructions. -/
structure StaticSubgraph.WithinCapacity (graph : StaticSubgraph) (program : Program) : Prop where
  callDims : graph.domain.rank - graph.domain.tileRank ≤ 5
  registers : program.FitsRegisters
  rowOffsets : 1 < graph.domain.tiled.outer → ∀ x ∈ graph.table.rowOffsets, FitsImmediate x

namespace Compiler

variable {compiler : Compiler} {program : Program} {shapes : List Shape} {outputShape : Shape}

/-- **Whether a kernel is built** is decided by what limits its code. -/
theorem exists_build {domain : Domain} {mode : KernelMode} {P : Prop}
    (h : Checked.Limited (compiler.generate program domain mode) P) :
    ∃ kernel, compiler.build program domain mode = .ok kernel ∧ (kernel.toBool = true ↔ P) := by
  rw [build]
  by_cases hP : P
  · obtain ⟨code, hcode⟩ := h.succeeds hP
    have hne : code.length ≠ 0 := by
      obtain ⟨-, -, -, pointers, rows, -, -, -, -, -, -, -, -, rfl⟩ := generate_eq_ok hcode
      simp [Kernel.postamble]
    rw [hcode]
    dsimp only
    rw [KernelImage.ofCode, require_eq_ok.2 hne]
    exact ⟨.ok ⟨code⟩, rfl, iff_of_true rfl hP⟩
  · obtain ⟨cause, hcause⟩ := h.exhausts hP
    rw [hcause]
    exact ⟨.error (.exhausted cause), rfl, iff_of_false Bool.false_ne_true hP⟩

/-- **Compilation falls back exactly when a capacity is exhausted.** For shapes that can be broadcast,
one for each input, with bytes that can be numbered by offsets, compilation gives a subgraph, which has
a kernel exactly if no capacity is exhausted.

**Proof sketch.** The shapes can be planned, and the planned domain has a table. If the dimensions left
to the calls are not too many, the code of the kernel is limited by the registers and the row offsets
only. -/
theorem compile_falls_back (hisa : compiler.config.isa = .avx2 ∨ compiler.config.isa = .avx512)
    (hinputs : 0 < program.inputs) (hshapes : shapes.length = program.inputs)
    (hbroadcast : Shape.broadcast shapes = .ok outputShape) (hpos : 0 < outputShape.count)
    (hbytes : outputShape.count * elementSize < 2 ^ 63) :
    ∃ graph, compiler.compile program shapes = .ok graph ∧
      (graph.isOptimized = true ↔ graph.WithinCapacity program) := by
  obtain ⟨w, hw⟩ : ∃ w, compiler.config.isa.vectorWidth = .ok w := by
    rcases hisa with h | h <;> rw [h] <;> exact ⟨_, rfl⟩
  have hsmall : outputShape.count < 2 ^ 63 := by
    rw [elementSize] at hbytes
    omega
  obtain ⟨domain, hplan⟩ : ∃ domain,
      (Optimizer.ofConfig compiler.config).plan shapes program.outputs.length = .ok domain :=
    Optimizer.plan_succeeds (List.ne_nil_of_length_pos (hshapes ▸ hinputs)) hbroadcast hpos (by omega)
  obtain ⟨hplanned, hlen⟩ := Optimizer.planned_of_plan hplan
  have helements := (Optimizer.sameReading_of_plan hbroadcast hplan).2
  rw [← helements] at hpos hbytes hsmall
  obtain ⟨table, htable⟩ := OffsetTable.exists_ofDomain hplanned hpos hbytes
  have hrank := hplanned.rank
  rw [tensorRank] at hrank
  have htile : domain.tileRank ≤ 2 := by
    obtain ⟨-, -, ⟨htile, -⟩ | ⟨htile, -⟩⟩ := hplanned.split <;> omega
  have hdims : domain.callDims = .ok (domain.rank - domain.tileRank) :=
    Checked.sub_eq_ok.2 ⟨by rw [Domain.rank]; omega, rfl⟩
  have hdomain : compiler.plan program shapes = .ok domain :=
    Checked.bind_eq_ok.2 ⟨(), require_eq_ok.2 hshapes, hplan⟩
  rw [compile, hbroadcast, Checked.ok_bind, hdomain, Checked.ok_bind, htable, Checked.ok_bind, hdims,
    Checked.ok_bind]
  split
  · rename_i hlt
    rw [maxCallDims] at hlt
    exact ⟨_, rfl, iff_of_false Bool.false_ne_true fun hwithin => Nat.not_le.2 hlt hwithin.callDims⟩
  · rename_i hle
    rw [maxCallDims, Domain.rank] at hle
    obtain ⟨kernel, hbuild, hiff⟩ := exists_build (limited_generate hw hplanned
      (hlen.trans hshapes) (by omega) hpos hsmall htable)
    rw [hbuild]
    refine ⟨_, rfl, hiff.trans ⟨fun h => ⟨?_, h.1, h.2⟩, fun h => ⟨h.registers, h.rowOffsets⟩⟩⟩
    exact Nat.le_of_not_lt hle

/-- Two rows of nine have a kernel. -/
theorem compile_falls_back_of_rows :
    ∃ graph, Compiler.sample.compile .shiftedProduct [[2, 9], [9]] = .ok graph ∧
      (graph.isOptimized = true ↔ graph.WithinCapacity .shiftedProduct) :=
  compile_falls_back (.inl rfl) (by decide) (by decide) rfl (by decide) (by decide)

/-- **Dynamic compilation falls back exactly when dimensions or registers are exhausted.** For shapes that
can be broadcast, one for each input, compilation gives a dynamic subgraph. It has a kernel exactly if no
shape has more than six dimensions and the program leaves enough registers: the values take at most
sixteen vector registers, one less if an operation needs a mask or a zero, and there are at most eleven
parameters, one less if an operation needs a constant or a mask.

Sizes of zero are allowed; the others have to stay in range when they are multiplied.

**Proof sketch.** The shapes can be planned, and the rank of the plan is six if no shape has more
dimensions. Then the code of the kernel is limited by the registers only. -/
theorem compileDynamic_falls_back
    (hisa : compiler.config.isa = .avx2 ∨ compiler.config.isa = .avx512)
    (hinputs : 0 < program.inputs) (hshapes : shapes.length = program.inputs)
    (hbroadcast : Shape.broadcast shapes = .ok outputShape)
    (hextent : Shape.extent outputShape < 2 ^ 64) :
    ∃ graph, compiler.compileDynamic program shapes = .ok graph ∧
      (graph.isOptimized = true ↔
        (∀ shape ∈ shapes, shape.length ≤ 6) ∧ program.FitsDynamicRegisters) := by
  obtain ⟨w, hw⟩ : ∃ w, compiler.config.isa.vectorWidth = .ok w := by
    rcases hisa with h | h <;> rw [h] <;> exact ⟨_, rfl⟩
  obtain ⟨domain, hplan⟩ : ∃ domain,
      (Optimizer.ofConfig compiler.config).plan shapes program.outputs.length = .ok domain :=
    Optimizer.plan_succeeds_of_extent (List.ne_nil_of_length_pos (hshapes ▸ hinputs)) hbroadcast
      (by omega)
  obtain ⟨hplanned, hlen⟩ := Optimizer.planned_of_plan hplan
  have hrank : domain.rank = tensorRank ↔ ∀ shape ∈ shapes, shape.length ≤ 6 := by
    rw [Optimizer.rank_of_plan hplan, Optimizer.planRank_eq_tensorRank]
  have hdomain : compiler.plan program shapes = .ok domain :=
    Checked.bind_eq_ok.2 ⟨(), require_eq_ok.2 hshapes, hplan⟩
  rw [compileDynamic, hdomain, Checked.ok_bind, Optimizer.broadcastFlags_of_plan hplan]
  by_cases hsix : domain.rank = tensorRank
  · rw [if_neg (not_not.2 hsix)]
    obtain ⟨kernel, hbuild, hiff⟩ :=
      exists_build (limited_generate_dynamic hw hplanned (hlen.trans hshapes))
    rw [hbuild]
    refine ⟨_, rfl, hiff.trans ?_⟩
    exact (and_iff_right (hrank.1 hsix)).symm
  · rw [if_pos hsix]
    exact ⟨_, rfl, iff_of_false Bool.false_ne_true fun hfits => hsix (hrank.2 hfits.1)⟩

/-- Two rows of nine have a dynamic kernel. -/
theorem compileDynamic_falls_back_of_rows :
    ∃ graph, Compiler.sample.compileDynamic .shiftedProduct [[2, 9], [9]] = .ok graph ∧
      (graph.isOptimized = true ↔ (∀ shape ∈ [[2, 9], [9]], shape.length ≤ 6) ∧
        Program.shiftedProduct.FitsDynamicRegisters) :=
  compileDynamic_falls_back (.inl rfl) (by decide) (by decide) rfl (by decide)

end Compiler

end Pointwise
