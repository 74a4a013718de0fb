import Pointwise.Proofs.Subgraph.Static
import Pointwise.Subgraph.Dynamic

/-!
# Dynamic subgraphs can take the place of static ones

A dynamic subgraph is compiled for other shapes than those of a call, but computes the same values as
the static subgraph for these shapes: both compute the program on the same planned domain. The values are
determined by the inputs; what the outputs hold before, where the tensors lie and what the calls of either
kernel find in the registers may differ.

## Main definitions

* `DynamicSubgraph.Optimized` — what is known of a dynamic subgraph that has a kernel.
* `DynamicSubgraph.Prepared` — what is known of a call that was prepared.

## Main results

* `Compiler.optimized_of_compileDynamic`, `DynamicSubgraph.prepared_of_prepare` — compilation and
  preparation taken apart into their stages.
* `DynamicSubgraph.Prepared.executeAt` — the computation on tensors in memory.
* `DynamicSubgraph.Prepared.executeAt_agrees`, `DynamicSubgraph.execute_agrees` — agreement with the static
  subgraph on tensors in memory and on buffers.
* `Compiler.dynamic_agrees_with_static` — a dynamic subgraph computes what the static one does.
-/

set_option autoImplicit false

namespace Pointwise

open Machine

/-! ## Compilation -/

/-- A dynamic subgraph that is optimized has a kernel. -/
theorem DynamicSubgraph.exists_kernel {graph : DynamicSubgraph} (h : graph.isOptimized = true) :
    ∃ image, graph.kernel = .ok image := by
  rw [isOptimized] at h
  cases himage : graph.kernel with
  | ok image => exact ⟨image, rfl⟩
  | error cause =>
    rw [himage] at h
    cases h

/-- What is known of a dynamic subgraph that has a kernel. -/
structure DynamicSubgraph.Optimized (graph : DynamicSubgraph) (compiler : Compiler) (program : Program)
    (image : KernelImage) : Prop where
  kernel : graph.kernel = .ok image
  settings : graph.compiler = compiler
  inputs : graph.inputs = program.inputs
  outputs : graph.outputs = program.outputs.length
  /-- The domain of the sample shapes. -/
  code : ∃ domain : Domain, domain.broadcastFlags = .ok graph.pattern ∧
    compiler.generate program domain .dynamic = .ok image.code

/-- **Compilation for many shapes taken apart** into its stages. -/
theorem Compiler.optimized_of_compileDynamic {compiler : Compiler} {program : Program}
    {shapes : List Shape} {graph : DynamicSubgraph} {image : KernelImage}
    (hcompile : compiler.compileDynamic program shapes = .ok graph) (hkernel : graph.kernel = .ok image) :
    graph.Optimized compiler program image := by
  obtain ⟨domain, -, h⟩ := Checked.bind_eq_ok.1 hcompile
  dsimp only at h
  split at h
  · obtain ⟨kernel, hbuild, h⟩ := Checked.bind_eq_ok.1 h
    obtain ⟨pattern, -, h⟩ := Checked.bind_eq_ok.1 h
    rw [Checked.pure_eq_ok] at hbuild h
    subst hbuild h
    cases hkernel
  · obtain ⟨kernel, hbuild, h⟩ := Checked.bind_eq_ok.1 h
    obtain ⟨pattern, hpattern, h⟩ := Checked.bind_eq_ok.1 h
    rw [Checked.pure_eq_ok] at h
    subst h
    dsimp only at hkernel
    subst hkernel
    exact ⟨rfl, rfl, rfl, rfl, domain, hpattern, generate_of_build hbuild⟩

namespace DynamicSubgraph

/-! ## Calls -/

/-- What is known of a call that was prepared for given shapes. -/
structure Prepared (graph : DynamicSubgraph) (shapes : List Shape) (domain : Domain)
    (block : ArgumentBlock) : Prop where
  length_shapes : shapes.length = graph.inputs
  plan : (Optimizer.ofConfig graph.compiler.config).plan shapes graph.outputs = .ok domain
  rank : domain.rank = tensorRank
  flags : domain.broadcastFlags = .ok graph.pattern
  block : ∃ table, OffsetTable.ofDomain domain = .ok table ∧ block = .ofTable table

/-- **Preparation taken apart** into its stages. -/
theorem prepared_of_prepare {graph : DynamicSubgraph} {shapes : List Shape} {domain : Domain}
    {block : ArgumentBlock} (h : graph.prepare shapes = .ok (domain, block)) :
    graph.Prepared shapes domain block := by
  obtain ⟨hlength, h⟩ := Checked.require_bind_eq_ok.1 h
  obtain ⟨domain', hplan, h⟩ := Checked.bind_eq_ok.1 h
  obtain ⟨hrank, h⟩ := Checked.require_bind_eq_ok.1 h
  obtain ⟨pattern, hflags, h⟩ := Checked.bind_eq_ok.1 h
  obtain ⟨hpattern, h⟩ := Checked.require_bind_eq_ok.1 h
  obtain ⟨table, htable, h⟩ := Checked.bind_eq_ok.1 h
  cases Checked.pure_eq_ok.1 h
  exact ⟨hlength, hplan, hrank, hpattern ▸ hflags, table, htable, rfl⟩

section Prepared

variable {graph : DynamicSubgraph} {compiler : Compiler} {program : Program} {shapes : List Shape}
  {image : KernelImage} {domain : Domain} {block : ArgumentBlock} {outputShape : Shape}

/-- The domain of a call with elements. -/
theorem Prepared.plannedFor (h : graph.Prepared shapes domain block)
    (hgraph : graph.Optimized compiler program image)
    (hbroadcast : Shape.broadcast shapes = .ok outputShape) (hpos : 0 < outputShape.count) :
    domain.PlannedFor (Optimizer.ofConfig compiler.config) program shapes outputShape := by
  obtain ⟨hlength, hplan, -⟩ := h
  rw [hgraph.inputs] at hlength
  rw [hgraph.settings, hgraph.outputs] at hplan
  exact ⟨hlength, hbroadcast, hpos, hplan⟩

/-- **The computation on tensors in memory** writes the values of the program to the outputs. -/
theorem Prepared.executeAt (h : graph.Prepared shapes domain block)
    (hgraph : graph.Optimized compiler program image)
    (hbroadcast : Shape.broadcast shapes = .ok outputShape) (hpos : 0 < outputShape.count)
    {site : CallSite} {sources targets : List Address}
    (hplaced : Placed shapes program.outputs.length outputShape domain.callShape.dropLast.length site
      sources targets) (memory : Memory) (found : Residue) :
    ∃ memory', graph.executeAt image domain block site sources targets memory found = .ok memory' ∧
      program.Written compiler.config.isa.lanes domain.tiled.inner outputShape shapes sources targets
        memory memory' := by
  obtain ⟨sample, hsample, hcode⟩ := hgraph.code
  obtain ⟨table, htable, rfl⟩ := h.block
  obtain ⟨w, flags, hw, hflags, hcomputes⟩ :=
    (KernelMode.Covers.dynamic hsample h.flags h.rank htable).computesIn hcode
  have hplanned := h.plannedFor hgraph hbroadcast hpos
  have hcomputes := (hcomputes sources targets (hplaced.valid hplanned hflags)).computes
  obtain ⟨calls, memory', htasks, hcalls, hwritten⟩ :=
    hplaced.callAll hplanned hflags hcomputes compiler.config.minParallelism memory found
  refine ⟨memory', ?_, Isa.lanes_vectorWidth hw ▸ hwritten⟩
  rw [DynamicSubgraph.executeAt, if_neg, hgraph.settings, htasks, Checked.ok_bind]
  · exact hcalls
  · rw [hplanned.elements]
    omega

/-- **The computation on buffers** gives the values of the program. -/
theorem Prepared.through (h : graph.Prepared shapes domain block)
    (hgraph : graph.Optimized compiler program image)
    (hbroadcast : Shape.broadcast shapes = .ok outputShape) (hpos : 0 < outputShape.count)
    {ins outs : List Buffers.Buffer}
    (hsuit : Buffers.Suit shapes program.outputs.length outputShape ins outs) (found : Residue) :
    Buffers.through ins outs (graph.executeAt image domain block Buffers.callSite · · · found) =
      .ok (program.onBuffers compiler.config.isa.lanes domain.tiled.inner outputShape shapes ins) := by
  have hplanned := h.plannedFor hgraph hbroadcast hpos
  have hdims : domain.callShape.dropLast.length ≤ tensorRank := by
    have hrank : domain.master.length = tensorRank := h.rank
    rw [List.length_dropLast, hplanned.planned.length_callShape.2, hrank]
    exact Nat.sub_le _ _
  exact Buffers.through_eq_ok hplanned.length_shapes hbroadcast hpos hsuit hdims
    fun sources targets memory hplaced => h.executeAt hgraph hbroadcast hpos hplaced memory found

end Prepared

end DynamicSubgraph

/-! ## Agreement with static subgraphs -/

/-- Without elements nothing is computed. -/
theorem StaticSubgraph.Optimized.executeAt_of_eq_zero {graph : StaticSubgraph} {compiler : Compiler}
    {program : Program} {shapes : List Shape} {image : KernelImage}
    (h : graph.Optimized compiler program shapes image) (hzero : graph.domain.elements = 0)
    (site : CallSite) {sources targets : List Address} (hsources : sources.length = program.inputs)
    (htargets : targets.length = program.outputs.length) (memory : Memory) (found : Residue) :
    graph.executeAt site sources targets memory found = .ok memory := by
  rw [StaticSubgraph.executeAt, h.kernel]
  dsimp only
  rw [Buffers.checkCounts, require_eq_ok.2, Checked.ok_bind, if_pos hzero]
  · rfl
  · rw [h.table_params.1, h.table_params.2]
    exact ⟨hsources, htargets⟩

section Agreement

variable {dynamic : DynamicSubgraph} {static : StaticSubgraph} {compiler : Compiler} {program : Program}
  {shapes : List Shape} {image image' : KernelImage} {block : ArgumentBlock}

/-- Both kernels write the same numbers, on tensors of their own that hold the same inputs. -/
theorem DynamicSubgraph.Prepared.executeAt_agrees (hprepared : dynamic.Prepared shapes static.domain block)
    (hgraph : dynamic.Optimized compiler program image)
    (h : static.Optimized compiler program shapes image')
    (helements : static.domain.elements = static.outputShape.count) {site site' : CallSite}
    {sources targets sources' targets' : List Address} {memory memory' : Memory} (found found' : Residue)
    (hplaced : Placed shapes program.outputs.length static.outputShape
      static.domain.callShape.dropLast.length site sources targets)
    (hplaced' : Placed shapes program.outputs.length static.outputShape
      static.domain.callShape.dropLast.length site' sources' targets')
    (hsame : Memory.SameInputs shapes memory sources memory' sources') :
    ∃ memory₁ memory₂,
      dynamic.executeAt image static.domain block site sources targets memory found = .ok memory₁ ∧
      static.executeAt site' sources' targets' memory' found' = .ok memory₂ ∧
      ∀ (o : Nat) (target target' : Address), targets[o]? = some target → targets'[o]? = some target' →
        ∀ f < static.outputShape.count,
          memory₁.readNumber (target + BitVec.ofNat 64 (4 * f)) =
            memory₂.readNumber (target' + BitVec.ofNat 64 (4 * f)) := by
  rcases Nat.eq_zero_or_pos static.outputShape.count with hzero | hpos
  · have hdynamic :
        dynamic.executeAt image static.domain block site sources targets memory found = .ok memory := by
      rw [DynamicSubgraph.executeAt, if_pos (helements.trans hzero)]
      rfl
    have hstatic := h.executeAt_of_eq_zero (helements.trans hzero) site'
      (hplaced'.length_sources.trans h.length_shapes) hplaced'.length_targets memory' found'
    refine ⟨memory, memory', hdynamic, hstatic, fun o target target' _ _ f hf => ?_⟩
    rw [hzero] at hf
    exact absurd hf (Nat.not_lt_zero f)
  · obtain ⟨memory₁, hmemory₁, hwritten₁⟩ :=
      hprepared.executeAt hgraph h.outputShape hpos hplaced memory found
    obtain ⟨memory₂, hmemory₂, hwritten₂⟩ := h.executeAt hpos hplaced' memory' found'
    refine ⟨memory₁, memory₂, hmemory₁, hmemory₂, fun o target target' htarget htarget' f hf => ?_⟩
    obtain ⟨hlt, -⟩ := List.getElem?_eq_some_iff.1 htarget
    exact hwritten₁.readNumber_eq h.length_shapes h.outputShape hpos hwritten₂ hsame
      (hplaced.length_targets ▸ hlt) htarget htarget' hf

/-- Both subgraphs give the same answer on the same inputs, for outputs of the same lengths. -/
theorem DynamicSubgraph.execute_agrees
    (hprepare : dynamic.prepare shapes = .ok (static.domain, block))
    (hgraph : dynamic.Optimized compiler program image)
    (h : static.Optimized compiler program shapes image')
    (helements : static.domain.elements = static.outputShape.count) {ins outs outs' : List Buffers.Buffer}
    (hlengths : outs.map List.length = outs'.map List.length)
    (hfit : Buffers.firstAddress + Buffers.extent (ins ++ outs) ≤ 2 ^ 64) (found found' : Residue) :
    dynamic.execute shapes ins outs found = static.execute ins outs' found' := by
  have hprepared := prepared_of_prepare hprepare
  rw [DynamicSubgraph.execute, hgraph.kernel]
  dsimp only
  rw [hprepare, Checked.ok_bind, StaticSubgraph.execute, h.inputShapes, h.table_params.2,
    hgraph.outputs, helements, ← Buffers.check_congr _ _ _ _ hlengths]
  cases hcheck : Buffers.check shapes static.outputShape.count program.outputs.length ins outs with
  | error cause => rfl
  | ok _ =>
    have hsuit := Buffers.Suit.of_check hcheck hfit
    rw [Checked.ok_bind, Checked.ok_bind]
    rcases Nat.eq_zero_or_pos static.outputShape.count with hzero | hpos
    · -- the outputs are empty
      obtain rfl : outs = outs' := hsuit.outputs_eq (hsuit.congr hlengths) hzero
      have hplaced := hsuit.placed h.dims_le
      rw [Buffers.through, Buffers.through, DynamicSubgraph.executeAt, if_pos (helements.trans hzero),
        h.executeAt_of_eq_zero (helements.trans hzero) _
          (hplaced.length_sources.trans h.length_shapes) hplaced.length_targets]
      rfl
    · rw [hprepared.through hgraph h.outputShape hpos hsuit,
        Buffers.through_eq_ok h.length_shapes h.outputShape hpos (hsuit.congr hlengths) h.dims_le
          fun sources targets memory hplaced => h.executeAt hpos hplaced memory found']

end Agreement

/-- **A dynamic subgraph can take the place of the static one** for the shapes of a call, whatever the
shapes were that it was compiled for. The domains are the same. Let each of them compute on tensors of its
own that hold the same inputs, and let the outputs hold anything before, and the registers with every call:
then both write the same numbers to the outputs. So on buffers both give the same answer.

**Proof sketch.** Both compute the program on the same planned domain, and the values of the program depend
on the inputs only. Without elements neither of them computes anything. -/
theorem Compiler.dynamic_agrees_with_static {compiler : Compiler} {program : Program}
    {sampleShapes shapes : List Shape} {dynamic : DynamicSubgraph} {static : StaticSubgraph}
    {image : KernelImage} {domain : Domain} {block : ArgumentBlock}
    (hdynamic : compiler.compileDynamic program sampleShapes = .ok dynamic)
    (hkernel : dynamic.kernel = .ok image) (hprepare : dynamic.prepare shapes = .ok (domain, block))
    (hstatic : compiler.compile program shapes = .ok static) (hoptimized : static.isOptimized = true) :
    domain = static.domain ∧
      (∀ (site site' : CallSite) (found found' : Residue)
          (sources targets sources' targets' : List Address) (memory memory' : Memory),
        Placed shapes program.outputs.length static.outputShape domain.callShape.dropLast.length site
          sources targets →
        Placed shapes program.outputs.length static.outputShape domain.callShape.dropLast.length site'
          sources' targets' →
        Memory.SameInputs shapes memory sources memory' sources' →
        ∃ memory₁ memory₂,
          dynamic.executeAt image domain block site sources targets memory found = .ok memory₁ ∧
          static.executeAt site' sources' targets' memory' found' = .ok memory₂ ∧
          ∀ (o : Nat) (target target' : Address), targets[o]? = some target →
            targets'[o]? = some target' → ∀ f < static.outputShape.count,
              memory₁.readNumber (target + BitVec.ofNat 64 (4 * f)) =
                memory₂.readNumber (target' + BitVec.ofNat 64 (4 * f))) ∧
      ∀ (found found' : Residue) (ins outs outs' : List Buffers.Buffer),
        outs.map List.length = outs'.map List.length →
        Buffers.firstAddress + Buffers.extent (ins ++ outs) ≤ 2 ^ 64 →
        dynamic.execute shapes ins outs found = static.execute ins outs' found' ∧
          (0 < static.outputShape.count →
            Buffers.Suit shapes program.outputs.length static.outputShape ins outs →
            ∃ results, static.execute ins outs' found' = .ok results) := by
  obtain ⟨image', hkernel'⟩ := StaticSubgraph.exists_kernel hoptimized
  have hgraph := optimized_of_compileDynamic hdynamic hkernel
  have hprepared := DynamicSubgraph.prepared_of_prepare hprepare
  have h := optimized_of_compile hstatic hkernel'
  have hplan := hprepared.plan
  rw [hgraph.settings, hgraph.outputs] at hplan
  obtain rfl : domain = static.domain := Except.ok.inj (hplan.symm.trans h.plan)
  have helements : static.domain.elements = static.outputShape.count :=
    (Optimizer.sameReading_of_plan h.outputShape h.plan).2
  refine ⟨rfl, ?_, fun found found' ins outs outs' hlengths hfit => ⟨?_, fun hpos hsuit => ?_⟩⟩
  · intro site site' found found' sources targets sources' targets' memory memory' hplaced hplaced' hsame
    exact hprepared.executeAt_agrees hgraph h helements found found' hplaced hplaced' hsame
  · exact DynamicSubgraph.execute_agrees hprepare hgraph h helements hlengths hfit found found'
  · exact ⟨_, h.execute hpos (hsuit.congr hlengths) found'⟩

/-- There is a kernel for four rows of five that can be called for two rows of nine. -/
theorem Compiler.exists_dynamic_of_rows :
    ∃ graph domain block, Compiler.sample.compileDynamic .shiftedProduct [[4, 5], [5]] = .ok graph ∧
      graph.isOptimized = true ∧ graph.prepare [[2, 9], [9]] = .ok (domain, block) ∧
      domain.callShape = [1, 1, 1, 1, 2, 1] := by
  have hall : ((Compiler.sample.compileDynamic .shiftedProduct [[4, 5], [5]]).toOption.bind
      fun graph => (graph.prepare [[2, 9], [9]]).toOption.map fun x =>
        (graph.isOptimized, x.1.callShape)) = some (true, [1, 1, 1, 1, 2, 1]) := by decide +kernel
  obtain ⟨graph, hcompile, hall⟩ := Option.bind_eq_some_iff.1 hall
  obtain ⟨⟨domain, block⟩, hprepare, hall⟩ := Option.map_eq_some_iff.1 hall
  rw [Checked.toOption_eq_some] at hcompile hprepare
  obtain ⟨hkernel, hshape⟩ := Prod.mk.inj hall
  exact ⟨graph, domain, block, hcompile, hkernel, hprepare, hshape⟩

/-- A kernel for four rows of five, called for two rows of nine, where the output holds other numbers before
than for the static kernel. -/
theorem Compiler.dynamic_agrees_with_static_of_rows :
    ∃ dynamic static image domain block,
      Compiler.sample.compileDynamic .shiftedProduct [[4, 5], [5]] = .ok dynamic ∧
      dynamic.kernel = .ok image ∧ dynamic.prepare [[2, 9], [9]] = .ok (domain, block) ∧
      Compiler.sample.compile .shiftedProduct [[2, 9], [9]] = .ok static ∧ domain = static.domain ∧
      ∀ found found', (∃ memory₁ memory₂,
        dynamic.executeAt image domain block Buffers.callSite [0x100000000, 0x100000048] [0x10000006c]
          .empty found = .ok memory₁ ∧
        static.executeAt Buffers.callSite [0x100000000, 0x100000048] [0x10000006c]
          (Memory.empty.writeNumbers 0x10000006c (List.replicate 18 ⟨0x3f800000⟩)) found' = .ok memory₂ ∧
        ∀ f < 18, memory₁.readNumber (0x10000006c + BitVec.ofNat 64 (4 * f)) =
          memory₂.readNumber (0x10000006c + BitVec.ofNat 64 (4 * f))) ∧
      dynamic.execute [[2, 9], [9]] [List.replicate 18 ⟨0x3f800000⟩, List.replicate 9 ⟨0x40000000⟩]
          [List.replicate 18 .zero] found =
        static.execute [List.replicate 18 ⟨0x3f800000⟩, List.replicate 9 ⟨0x40000000⟩]
          [List.replicate 18 ⟨0x3f800000⟩] found' := by
  obtain ⟨dynamic, domain, block, hdynamic, hkernel, hprepare, -⟩ := exists_dynamic_of_rows
  obtain ⟨static, hstatic, hoptimized⟩ := exists_static_of_rows
  obtain ⟨image, hkernel⟩ := DynamicSubgraph.exists_kernel hkernel
  obtain ⟨image', himage'⟩ := StaticSubgraph.exists_kernel hoptimized
  have h := optimized_of_compile hstatic himage'
  have hshape : static.outputShape = [2, 9] := Except.ok.inj (h.outputShape.symm.trans rfl)
  have hsuit : Buffers.Suit [[2, 9], [9]] 1 static.outputShape
      [List.replicate 18 ⟨0x3f800000⟩, List.replicate 9 ⟨0x40000000⟩] [List.replicate 18 .zero] := by
    rw [hshape]
    exact Buffers.suit_of_rows
  obtain ⟨hdomain, hplaces, hbuffers⟩ :=
    dynamic_agrees_with_static hdynamic hkernel hprepare hstatic hoptimized
  have hplaced : Placed [[2, 9], [9]] 1 static.outputShape domain.callShape.dropLast.length
      Buffers.callSite [0x100000000, 0x100000048] [0x10000006c] := by
    rw [hdomain]
    exact hsuit.placed h.dims_le
  have hsame : Memory.SameInputs [[2, 9], [9]] .empty [0x100000000, 0x100000048]
      (Memory.empty.writeNumbers 0x10000006c (List.replicate 18 ⟨0x3f800000⟩))
        [0x100000000, 0x100000048] :=
    Memory.sameInputs_writeNumbers _ rfl fun input hinput =>
      hplaced.inputs input hinput _ (List.mem_append_right _ (by rw [hshape]; exact .head _))
  refine ⟨dynamic, static, image, domain, block, hdynamic, hkernel, hprepare, hstatic, hdomain,
    fun found found' => ⟨?_, (hbuffers found found' _ _ _ (by simp) hsuit.extent).1⟩⟩
  obtain ⟨memory₁, memory₂, hmemory₁, hmemory₂, hnumbers⟩ :=
    hplaces _ _ found found' _ _ _ _ _ _ hplaced hplaced hsame
  rw [hshape] at hnumbers
  exact ⟨memory₁, memory₂, hmemory₁, hmemory₂, hnumbers 0 _ _ rfl rfl⟩

end Pointwise
