import Pointwise.Proofs.Subgraph.Buffers
import Pointwise.Subgraph.Static

/-!
# Static subgraphs are correct

A static subgraph with a kernel computes its program: wherever the tensors lie, the outputs hold the
values of the program at every position, whatever they held before and whatever calls of the kernel find in
the registers.

## Main definitions

* `StaticSubgraph.Optimized` — what is known of a subgraph that has a kernel.

## Main results

* `Compiler.optimized_of_compile` — compilation taken apart into its stages.
* `StaticSubgraph.Optimized.executeAt` — the computation on tensors in memory.
* `StaticSubgraph.Optimized.execute` — the computation on buffers.
* `Compiler.compile_correct` — compiled subgraphs compute their programs.
-/

set_option autoImplicit false

namespace Pointwise

open Machine

/-- A kernel that was built has the code that was generated. -/
theorem Compiler.generate_of_build {compiler : Compiler} {program : Program} {domain : Domain}
    {mode : KernelMode} {image : KernelImage}
    (h : compiler.build program domain mode = .ok (.ok image)) :
    compiler.generate program domain mode = .ok image.code := by
  unfold build at h
  split at h
  · obtain ⟨image', himage, h⟩ := Checked.bind_eq_ok.1 h
    obtain ⟨-, himage⟩ := Checked.require_bind_eq_ok.1 himage
    rw [Checked.pure_eq_ok] at himage h
    cases h
    rw [← himage]
    assumption
  · cases h
  · cases h

/-- The dimensions for which a kernel is called. -/
theorem Domain.Planned.length_dropLast_le {domain : Domain} {outputs dims : Nat}
    (h : domain.Planned outputs) (hdims : domain.callDims = .ok dims) :
    domain.callShape.dropLast.length ≤ dims + 1 := by
  obtain ⟨-, rfl⟩ := Checked.sub_eq_ok.1 hdims
  obtain ⟨front, hcall, ⟨htile, -, hmaster⟩ | ⟨htile, hmaster⟩⟩ := h.split
  · simp [hcall, hmaster, htile, Domain.rank]
  · simp [hcall, hmaster, htile, Domain.rank]

/-- A subgraph that is optimized has a kernel. -/
theorem StaticSubgraph.exists_kernel {graph : StaticSubgraph} (h : graph.isOptimized = true) :
    ∃ image, graph.kernel = .ok image := by
  rw [isOptimized] at h
  cases himage : graph.kernel with
  | ok image => exact ⟨image, rfl⟩
  | error cause =>
    rw [himage] at h
    cases h

/-- What is known of a subgraph that has a kernel. -/
structure StaticSubgraph.Optimized (graph : StaticSubgraph) (compiler : Compiler) (program : Program)
    (shapes : List Shape) (image : KernelImage) : Prop where
  kernel : graph.kernel = .ok image
  inputShapes : graph.inputShapes = shapes
  length_shapes : shapes.length = program.inputs
  outputShape : Shape.broadcast shapes = .ok graph.outputShape
  plan : (Optimizer.ofConfig compiler.config).plan shapes program.outputs.length = .ok graph.domain
  table : OffsetTable.ofDomain graph.domain = .ok graph.table
  callDims : ∃ dims ≤ maxCallDims, graph.domain.callDims = .ok dims
  code : compiler.generate program graph.domain (.static graph.table) = .ok image.code

/-- **Compilation taken apart** into its stages. -/
theorem Compiler.optimized_of_compile {compiler : Compiler} {program : Program} {shapes : List Shape}
    {graph : StaticSubgraph} {image : KernelImage}
    (hcompile : compiler.compile program shapes = .ok graph) (hkernel : graph.kernel = .ok image) :
    graph.Optimized compiler program shapes image := by
  obtain ⟨outputShape, hshape, h⟩ := Checked.bind_eq_ok.1 hcompile
  obtain ⟨domain, hplan, h⟩ := Checked.bind_eq_ok.1 h
  obtain ⟨hlength, hplan⟩ := Checked.require_bind_eq_ok.1 hplan
  obtain ⟨table, htable, h⟩ := Checked.bind_eq_ok.1 h
  obtain ⟨dims, hdims, h⟩ := Checked.bind_eq_ok.1 h
  dsimp only at h
  split at h
  · rw [Checked.bind_eq_ok] at h
    obtain ⟨kernel, hbuild, h⟩ := h
    rw [Checked.pure_eq_ok] at hbuild h
    subst hbuild h
    cases hkernel
  · rename_i hle
    obtain ⟨kernel, hbuild, h⟩ := Checked.bind_eq_ok.1 h
    rw [Checked.pure_eq_ok] at h
    subst h
    dsimp only at hkernel
    subst hkernel
    exact ⟨rfl, rfl, hlength, hshape, hplan, htable, ⟨dims, Nat.le_of_not_lt hle, hdims⟩,
      generate_of_build hbuild⟩

namespace StaticSubgraph.Optimized

variable {graph : StaticSubgraph} {compiler : Compiler} {program : Program} {shapes : List Shape}
  {image : KernelImage}

/-- The domain of a subgraph with elements. -/
theorem plannedFor (h : graph.Optimized compiler program shapes image)
    (hpos : 0 < graph.outputShape.count) :
    graph.domain.PlannedFor (Optimizer.ofConfig compiler.config) program shapes graph.outputShape :=
  ⟨h.length_shapes, h.outputShape, hpos, h.plan⟩

/-- The index vectors of a kernel have a bounded length. -/
theorem dims_le (h : graph.Optimized compiler program shapes image) :
    graph.domain.callShape.dropLast.length ≤ tensorRank := by
  obtain ⟨dims, hle, hdims⟩ := h.callDims
  have hlen := (Optimizer.planned_of_plan h.plan).1.length_dropLast_le hdims
  rw [maxCallDims] at hle
  rw [tensorRank]
  omega

/-- The table knows the numbers of inputs and outputs. -/
theorem table_params (h : graph.Optimized compiler program shapes image) :
    graph.table.inputs = program.inputs ∧ graph.table.outputs = program.outputs.length := by
  obtain ⟨-, htable⟩ := Checked.require_bind_eq_ok.1 h.table
  obtain ⟨inputs, -, htable⟩ := Checked.bind_eq_ok.1 htable
  obtain ⟨targets, -, htable⟩ := Checked.bind_eq_ok.1 htable
  rw [Checked.pure_eq_ok] at htable
  obtain ⟨hplanned, hlen⟩ := Optimizer.planned_of_plan h.plan
  rw [← htable]
  exact ⟨hlen.trans h.length_shapes, by simp [hplanned.outputShapes]⟩

/-- **The computation on tensors in memory** writes the values of the program to the outputs. -/
theorem executeAt (h : graph.Optimized compiler program shapes image)
    (hpos : 0 < graph.outputShape.count) {site : CallSite} {sources targets : List Address}
    (hplaced : Placed shapes program.outputs.length graph.outputShape
      graph.domain.callShape.dropLast.length site sources targets) (memory : Memory)
    (found : Residue) :
    ∃ memory', graph.executeAt site sources targets memory found = .ok memory' ∧
      program.Written compiler.config.isa.lanes graph.domain.tiled.inner graph.outputShape shapes
        sources targets memory memory' := by
  obtain ⟨w, flags, hw, hflags, hcomputes⟩ := (KernelMode.Covers.static h.table .empty).computesIn h.code
  have hplanned := h.plannedFor hpos
  have hcomputes := (hcomputes sources targets (hplaced.valid hplanned hflags)).computes
  obtain ⟨calls, memory', htasks, hcalls, hwritten⟩ :=
    hplaced.callAll hplanned hflags hcomputes graph.maxTasks memory found
  obtain ⟨hinputs, houtputs⟩ := h.table_params
  refine ⟨memory', ?_, Isa.lanes_vectorWidth hw ▸ hwritten⟩
  rw [StaticSubgraph.executeAt, h.kernel]
  dsimp only
  rw [Buffers.checkCounts, require_eq_ok.2, Checked.ok_bind, if_neg, htasks, Checked.ok_bind]
  · exact hcalls
  · rw [hplanned.elements]
    omega
  · rw [hinputs, houtputs, hplaced.length_sources, hplaced.length_targets, h.length_shapes]
    exact ⟨rfl, rfl⟩

/-- **The computation on buffers** gives the values of the program. -/
theorem execute (h : graph.Optimized compiler program shapes image)
    (hpos : 0 < graph.outputShape.count) {ins outs : List Buffers.Buffer}
    (hsuit : Buffers.Suit shapes program.outputs.length graph.outputShape ins outs) (found : Residue) :
    graph.execute ins outs found = .ok (program.onBuffers compiler.config.isa.lanes
      graph.domain.tiled.inner graph.outputShape shapes ins) := by
  have hthrough := Buffers.through_eq_ok h.length_shapes h.outputShape hpos hsuit h.dims_le
    fun sources targets memory hplaced => h.executeAt hpos hplaced memory found
  rw [StaticSubgraph.execute, h.inputShapes, h.table_params.2, (h.plannedFor hpos).elements,
    hsuit.check h.outputShape hpos, Checked.ok_bind, hthrough]

end StaticSubgraph.Optimized

/-- **Compiled subgraphs compute their programs.** Wherever the tensors of the given shapes lie, all calls
of the kernel return, and the outputs then hold the values of the program at every position of the
broadcast of the shapes, whatever they held before and whatever each call finds in the registers. The same
holds of buffers that are placed in memory for the computation.

**Proof sketch.** The code of the kernel computes on the planned domain, on which every input is read
like its given shape. -/
theorem Compiler.compile_correct {compiler : Compiler} {program : Program} {shapes : List Shape}
    {outputShape : Shape} {graph : StaticSubgraph} (hcompile : compiler.compile program shapes = .ok graph)
    (hkernel : graph.isOptimized = true) (hbroadcast : Shape.broadcast shapes = .ok outputShape)
    (hpos : 0 < outputShape.count) :
    (∀ (site : CallSite) (sources targets : List Address) (memory : Memory) (found : Residue),
      Placed shapes program.outputs.length outputShape graph.domain.callShape.dropLast.length site
        sources targets →
      ∃ memory', graph.executeAt site sources targets memory found = .ok memory' ∧
        program.Written compiler.config.isa.lanes graph.domain.tiled.inner outputShape shapes sources
          targets memory memory') ∧
      ∀ (ins outs : List Buffers.Buffer) (found : Residue),
        Buffers.Suit shapes program.outputs.length outputShape ins outs →
        graph.execute ins outs found = .ok (program.onBuffers compiler.config.isa.lanes
          graph.domain.tiled.inner outputShape shapes ins) := by
  obtain ⟨image, hkernel⟩ := StaticSubgraph.exists_kernel hkernel
  have h := optimized_of_compile hcompile hkernel
  obtain rfl : graph.outputShape = outputShape := Except.ok.inj (h.outputShape.symm.trans hbroadcast)
  exact ⟨fun site sources targets memory found hplaced => h.executeAt hpos hplaced memory found,
    fun ins outs found hsuit => h.execute hpos hsuit found⟩

/-- There is a kernel for two rows of nine. -/
theorem Compiler.exists_static_of_rows :
    ∃ graph, Compiler.sample.compile .shiftedProduct [[2, 9], [9]] = .ok graph ∧
      graph.isOptimized = true := by
  have hkernel : (Compiler.sample.compile .shiftedProduct [[2, 9], [9]]).toOption.map
      (·.isOptimized) = some true := by decide +kernel
  obtain ⟨graph, hcompile, hkernel⟩ := Option.map_eq_some_iff.1 hkernel
  exact ⟨graph, Checked.toOption_eq_some.1 hcompile, hkernel⟩

/-- Buffers of ones and twos for two rows of nine. -/
theorem Buffers.suit_of_rows : Buffers.Suit [[2, 9], [9]] 1 [2, 9]
    [List.replicate 18 ⟨0x3f800000⟩, List.replicate 9 ⟨0x40000000⟩] [List.replicate 18 .zero] :=
  ⟨by decide, by decide, by decide, by decide⟩

/-- Two rows of nine, the second input being broadcast along the rows' number. -/
theorem Compiler.compile_correct_of_rows :
    ∃ graph, Compiler.sample.compile .shiftedProduct [[2, 9], [9]] = .ok graph ∧
      ∀ found, (∃ memory', graph.executeAt Buffers.callSite [0x100000000, 0x100000048] [0x10000006c] .empty
          found = .ok memory' ∧
        Program.shiftedProduct.Written 8 graph.domain.tiled.inner [2, 9] [[2, 9], [9]]
          [0x100000000, 0x100000048] [0x10000006c] .empty memory') ∧
      graph.execute [List.replicate 18 ⟨0x3f800000⟩, List.replicate 9 ⟨0x40000000⟩]
          [List.replicate 18 .zero] found =
        .ok (Program.shiftedProduct.onBuffers 8 graph.domain.tiled.inner [2, 9] [[2, 9], [9]]
          [List.replicate 18 ⟨0x3f800000⟩, List.replicate 9 ⟨0x40000000⟩]) := by
  obtain ⟨graph, hcompile, hkernel⟩ := exists_static_of_rows
  obtain ⟨image, himage⟩ := StaticSubgraph.exists_kernel hkernel
  have hplaced := Buffers.suit_of_rows.placed (optimized_of_compile hcompile himage).dims_le
  obtain ⟨hplaces, hbuffers⟩ := compile_correct hcompile hkernel rfl (by decide)
  exact ⟨graph, hcompile, fun found =>
    ⟨hplaces _ _ _ _ found hplaced, hbuffers _ _ found Buffers.suit_of_rows⟩⟩

end Pointwise
