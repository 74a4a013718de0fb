import Pointwise.Proofs.Subgraph.Attempt
import Pointwise.Proofs.Subgraph.Causes

/-!
# Calls are carried out or leave no trace

Every check of a call precedes its first kernel call, and nothing fails behind them. A call is therefore
carried out as a whole, or it makes no kernel call and changes no output. It is carried out exactly if
there is a kernel, the shapes can be used, and the buffers conform to the shapes.

## Main definitions

* `Buffers.Outcome.AllOrNothing` — an outcome that is decided by a condition, and shows no trace of the
  call if this does not hold.

## Main results

* `Compiler.call_all_or_nothing` — the outcomes of all calls of subgraphs are of this kind.
-/

set_option autoImplicit false

namespace Pointwise

namespace Buffers.Outcome

/-- An outcome of a call that is carried out exactly if the call can be made at all and the buffers conform
to the shapes. Otherwise there is no trace of it. -/
structure AllOrNothing (outcome : Outcome) (program : Program) (shapes : List Shape)
    (ins outs : List Buffer) (ready : Prop) : Prop where
  /-- A failure makes no kernel call and changes no output. -/
  failed : ∀ cause, outcome.result = .error cause → outcome.calls = [] ∧ outcome.outputs = outs
  succeeds_iff : outcome.result = .ok () ↔
    ready ∧ ∃ outputShape, Shape.broadcast shapes = .ok outputShape ∧
      Conform program shapes outputShape ins outs
  /-- Without elements there is no kernel call. -/
  empty : ∀ outputShape, Shape.broadcast shapes = .ok outputShape → outputShape.count = 0 →
    outcome.calls = []

namespace AllOrNothing

variable {outcome : Outcome} {program : Program} {shapes : List Shape} {ins outs : List Buffer}
  {ready : Prop} {outputShape : Shape}

/-- A failure without a trace. -/
theorem of_error {cause : Error} (h : outcome = ⟨.error cause, [], outs⟩)
    (hnot : ready → ∀ outputShape, Shape.broadcast shapes = .ok outputShape →
      ¬ Conform program shapes outputShape ins outs) :
    outcome.AllOrNothing program shapes ins outs ready := by
  subst h
  refine ⟨fun _ _ => ⟨rfl, rfl⟩, ⟨fun hok => ?_, ?_⟩, fun _ _ _ => rfl⟩
  · cases hok
  · rintro ⟨hready, outputShape, hbroadcast, hconform⟩
    exact absurd hconform (hnot hready outputShape hbroadcast)

/-- A success on buffers that conform to their shapes. -/
theorem of_answer {results : List Buffer} (h : outcome.answer = .ok results) (hready : ready)
    (hbroadcast : Shape.broadcast shapes = .ok outputShape)
    (hconform : Conform program shapes outputShape ins outs)
    (hempty : outputShape.count = 0 → outcome = ⟨.ok (), [], outs⟩) :
    outcome.AllOrNothing program shapes ins outs ready := by
  have hresult : outcome.result = .ok () := by
    rw [answer] at h
    cases hcase : outcome.result with
    | ok _ => rfl
    | error cause =>
      rw [hcase] at h
      cases h
  refine ⟨fun cause hcause => ?_, iff_of_true hresult ⟨hready, _, hbroadcast, hconform⟩, ?_⟩
  · rw [hresult] at hcause
    cases hcause
  · intro outputShape' hbroadcast' hzero
    rw [hbroadcast, Except.ok.injEq] at hbroadcast'
    rw [hempty (hbroadcast' ▸ hzero)]

end AllOrNothing

end Buffers.Outcome

/-! ## The two kinds of subgraphs -/

section Subgraphs

variable {compiler : Compiler} {program : Program} {samples shapes : List Shape}
  {ins outs : List Buffers.Buffer}

/-- Without elements a call on accepted buffers does nothing. -/
theorem StaticSubgraph.Optimized.attempt_of_eq_zero {graph : StaticSubgraph} {image : KernelImage}
    (h : graph.Optimized compiler program shapes image)
    (hcheck : Buffers.check shapes graph.outputShape.count program.outputs.length ins outs = .ok ())
    (hfit : Buffers.firstAddress + Buffers.extent (ins ++ outs) ≤ 2 ^ 64)
    (hzero : graph.outputShape.count = 0) (found : Residue) :
    graph.attempt ins outs found = ⟨.ok (), [], outs⟩ := by
  have hplaced := (Buffers.Suit.of_check hcheck hfit).placed h.dims_le
  have helements := (Optimizer.sameReading_of_plan h.outputShape h.plan).2
  rw [← h.inputShapes, ← helements, ← h.table_params.2] at hcheck
  refine Buffers.run_of_pure hfit ((Attempt.run_check_bind_of_ok hcheck).trans ?_)
  rw [attemptAt, h.kernel]
  refine (Attempt.run_check_bind_of_ok (require_eq_ok.2
    ⟨hplaced.length_sources.trans (h.length_shapes.trans h.table_params.1.symm),
      hplaced.length_targets.trans h.table_params.2.symm⟩)).trans ?_
  rw [if_pos (helements.trans hzero)]
  rfl

/-- **Calls of static subgraphs** are carried out or leave no trace. -/
theorem StaticSubgraph.attempt_allOrNothing {graph : StaticSubgraph}
    (hcompile : compiler.compile program shapes = .ok graph)
    (hfit : Buffers.firstAddress + Buffers.extent (ins ++ outs) ≤ 2 ^ 64) (found : Residue) :
    (graph.attempt ins outs found).AllOrNothing program shapes ins outs
      (graph.isOptimized = true ∧ Shape.Counted shapes) := by
  cases hcheck : Buffers.check graph.inputShapes graph.domain.elements graph.table.outputs ins outs with
  | error cause =>
    refine .of_error (Buffers.run_of_error cause hfit fun sources targets progress =>
      Attempt.run_check_bind_of_error hcheck) ?_
    rintro ⟨hoptimized, hcounted⟩ outputShape hbroadcast hconform
    obtain ⟨image, hkernel⟩ := StaticSubgraph.exists_kernel hoptimized
    have h := Compiler.optimized_of_compile hcompile hkernel
    have helements := (Optimizer.sameReading_of_plan hbroadcast h.plan).2
    rw [h.inputShapes, helements, h.table_params.2,
      (Buffers.check_eq_ok_iff_conform h.length_shapes).2 ⟨hcounted, hconform⟩] at hcheck
    cases hcheck
  | ok _ =>
    cases hkernel : graph.kernel with
    | error why =>
      refine .of_error (Buffers.run_of_error (.notCompiled why) hfit
        fun sources targets progress => (Attempt.run_check_bind_of_ok hcheck).trans ?_) ?_
      · rw [attemptAt, hkernel]
        rfl
      · rintro ⟨hoptimized, -⟩
        rw [isOptimized, hkernel] at hoptimized
        cases hoptimized
    | ok image =>
      have h := Compiler.optimized_of_compile hcompile hkernel
      have hexecute := graph.answer_attempt ins outs found
      rw [execute, hcheck, Checked.ok_bind] at hexecute
      rw [h.inputShapes, (Optimizer.sameReading_of_plan h.outputShape h.plan).2,
        h.table_params.2] at hcheck
      obtain ⟨results, hresults⟩ := h.exists_through hcheck hfit found
      obtain ⟨hcounted, hconform⟩ := (Buffers.check_eq_ok_iff_conform h.length_shapes).1 hcheck
      refine .of_answer (hexecute.trans hresults) ⟨?_, hcounted⟩ h.outputShape hconform
        fun hzero => h.attempt_of_eq_zero hcheck hfit hzero found
      rw [isOptimized, hkernel]
      rfl

/-- **Prepared calls** are carried out or leave no trace. -/
theorem DynamicSubgraph.attempt_allOrNothing_of_prepare {graph : DynamicSubgraph} {image : KernelImage}
    {domain : Domain} {block : ArgumentBlock}
    (hcompile : compiler.compileDynamic program samples = .ok graph) (hkernel : graph.kernel = .ok image)
    (hprepare : graph.prepare shapes = .ok (domain, block))
    (hcounted : Shape.Counted shapes)
    (hfit : Buffers.firstAddress + Buffers.extent (ins ++ outs) ≤ 2 ^ 64) (found : Residue) :
    (graph.attempt shapes ins outs found).AllOrNothing program shapes ins outs
      (graph.isOptimized = true ∧ ∃ domain block, graph.prepare shapes = .ok (domain, block)) := by
  have hgraph := Compiler.optimized_of_compileDynamic hcompile hkernel
  have hprepared := prepared_of_prepare hprepare
  have hsuits := Compiler.suits_of_prepared hcompile hprepared
  obtain ⟨outputShape, hbroadcast⟩ := hsuits.broadcasts
  have helements := (Optimizer.sameReading_of_plan hbroadcast hprepared.plan).2
  have hconform : Buffers.check shapes domain.elements graph.outputs ins outs = .ok () ↔
      Buffers.Conform program shapes outputShape ins outs := by
    rw [helements, hgraph.outputs, Buffers.check_eq_ok_iff_conform hsuits.length]
    exact and_iff_right hcounted
  cases hcheck : Buffers.check shapes domain.elements graph.outputs ins outs with
  | error cause =>
    refine .of_error (Buffers.run_of_error cause hfit fun sources targets progress => ?_) ?_
    · rw [hkernel]
      exact (Attempt.run_check_bind_of_ok hprepare).trans (Attempt.run_check_bind_of_error hcheck)
    · intro _ outputShape' hbroadcast' hconform'
      rw [hbroadcast, Except.ok.injEq] at hbroadcast'
      rw [hconform.2 (hbroadcast' ▸ hconform')] at hcheck
      cases hcheck
  | ok _ =>
    have hexecute := graph.answer_attempt shapes ins outs found
    simp only [execute, hkernel, hprepare, Checked.ok_bind, hcheck] at hexecute
    obtain ⟨results, hresults⟩ :=
      hprepared.exists_through hgraph hbroadcast (helements ▸ hgraph.outputs ▸ hcheck) hfit found
    refine .of_answer (hexecute.trans hresults) ⟨?_, domain, block, hprepare⟩ hbroadcast
      (hconform.1 hcheck) fun hzero => ?_
    · rw [isOptimized, hkernel]
      rfl
    · refine Buffers.run_of_pure hfit ?_
      rw [hkernel]
      refine (Attempt.run_check_bind_of_ok hprepare).trans
        ((Attempt.run_check_bind_of_ok hcheck).trans ?_)
      rw [attemptAt, if_pos (helements.trans hzero)]
      rfl

/-- **Calls of dynamic subgraphs** are carried out or leave no trace. -/
theorem DynamicSubgraph.attempt_allOrNothing {graph : DynamicSubgraph}
    (hcompile : compiler.compileDynamic program samples = .ok graph)
    (hcounted : Shape.Counted shapes)
    (hfit : Buffers.firstAddress + Buffers.extent (ins ++ outs) ≤ 2 ^ 64) (found : Residue) :
    (graph.attempt shapes ins outs found).AllOrNothing program shapes ins outs
      (graph.isOptimized = true ∧ ∃ domain block, graph.prepare shapes = .ok (domain, block)) := by
  cases hkernel : graph.kernel with
  | error why =>
    refine .of_error (Buffers.run_of_error (.notCompiled why) hfit
      fun sources targets progress => ?_) ?_
    · rw [hkernel]
      rfl
    · rintro ⟨hoptimized, -⟩
      rw [isOptimized, hkernel] at hoptimized
      cases hoptimized
  | ok image =>
    cases hprepare : graph.prepare shapes with
    | error cause =>
      refine .of_error (Buffers.run_of_error cause hfit fun sources targets progress => ?_) ?_
      · rw [hkernel]
        exact Attempt.run_check_bind_of_error hprepare
      · rintro ⟨-, domain, block, hok⟩
        cases hok
    | ok call =>
      rw [← hprepare]
      exact graph.attempt_allOrNothing_of_prepare hcompile hkernel hprepare hcounted hfit found

end Subgraphs

/-! ## All calls -/

namespace Compiler

/-- **A failed call leaves no trace, and success is decided in advance.** Whatever the number and the
lengths of the buffers are, a call that fails makes no kernel call and leaves every output as it was. A
subgraph is carried out exactly if it has a kernel, the call can be prepared, and there is one buffer for
each tensor, with as many elements as its shape; outputs have the broadcast shape. Without elements there
is no kernel call.

For a static subgraph there is nothing to prepare, but the elements of each shape that it was compiled for
have to be counted without leaving the range on the way. For a dynamic one the sizes of each shape, other
than zero, multiplied are in range. The buffers have to fit the memory.

**Proof sketch.** Checks make no progress, and the first kernel call comes behind all of them. Calls on
buffers that are accepted succeed. -/
theorem call_all_or_nothing {compiler : Compiler} {program : Program} :
    (∀ (shapes : List Shape) (graph : StaticSubgraph) (ins outs : List Buffers.Buffer) (found : Residue),
      compiler.compile program shapes = .ok graph →
      Buffers.firstAddress + Buffers.extent (ins ++ outs) ≤ 2 ^ 64 →
        (graph.attempt ins outs found).answer = graph.execute ins outs found ∧
        (graph.attempt ins outs found).AllOrNothing program shapes ins outs
          (graph.isOptimized = true ∧ Shape.Counted shapes)) ∧
    ∀ (samples shapes : List Shape) (graph : DynamicSubgraph) (ins outs : List Buffers.Buffer)
        (found : Residue),
      compiler.compileDynamic program samples = .ok graph →
      (∀ shape ∈ shapes, Shape.extent shape < 2 ^ 64) →
      Buffers.firstAddress + Buffers.extent (ins ++ outs) ≤ 2 ^ 64 →
        (graph.attempt shapes ins outs found).answer = graph.execute shapes ins outs found ∧
        (graph.attempt shapes ins outs found).AllOrNothing program shapes ins outs
          (graph.isOptimized = true ∧ ∃ domain block, graph.prepare shapes = .ok (domain, block)) :=
  ⟨fun _ graph ins outs found hcompile hfit =>
      ⟨graph.answer_attempt ins outs found, graph.attempt_allOrNothing hcompile hfit found⟩,
    fun _ shapes graph ins outs found hcompile hextent hfit =>
      ⟨graph.answer_attempt shapes ins outs found,
        graph.attempt_allOrNothing hcompile (Shape.counted_of_extent hextent) hfit found⟩⟩

/-- Two rows of nine, with all buffers and without those of the inputs. -/
theorem call_all_or_nothing_of_rows :
    ∃ static dynamic, Compiler.sample.compile .shiftedProduct [[2, 9], [9]] = .ok static ∧
      Compiler.sample.compileDynamic .shiftedProduct [[4, 5], [5]] = .ok dynamic ∧
      ∀ found : Residue,
        (static.attempt [List.replicate 18 .zero, List.replicate 9 .zero]
          [List.replicate 18 .zero] found).result = .ok () ∧
        (static.attempt [] [List.replicate 18 .zero] found).calls = [] ∧
        (static.attempt [] [List.replicate 18 .zero] found).outputs = [List.replicate 18 .zero] ∧
        (dynamic.attempt [[2, 9], [9]] [List.replicate 18 .zero, List.replicate 9 .zero]
          [List.replicate 18 .zero] found).result = .ok () ∧
        (dynamic.attempt [[2, 9], [9]] [] [List.replicate 18 .zero] found).calls = [] ∧
        (dynamic.attempt [[2, 9], [9]] [] [List.replicate 18 .zero] found).outputs =
          [List.replicate 18 .zero] := by
  obtain ⟨static, hstatic, hoptimized⟩ := exists_static_of_rows
  obtain ⟨dynamic, domain, block, hdynamic, hkernel, hprepare, -⟩ := exists_dynamic_of_rows
  have hconform : Buffers.Conform .shiftedProduct [[2, 9], [9]] [2, 9]
      [List.replicate 18 .zero, List.replicate 9 .zero] [List.replicate 18 .zero] :=
    .of_map_length rfl rfl rfl (by decide)
  have hnone : ∀ outputShape,
      ¬ Buffers.Conform .shiftedProduct [[2, 9], [9]] outputShape [] [List.replicate 18 .zero] := by
    rintro outputShape ⟨hlength, -⟩
    cases hlength
  have hfailed : ∀ {outcome : Buffers.Outcome} {ready : Prop},
      outcome.AllOrNothing .shiftedProduct [[2, 9], [9]] [] [List.replicate 18 .zero] ready →
        outcome.calls = [] ∧ outcome.outputs = [List.replicate 18 .zero] := by
    intro outcome ready h
    cases hresult : outcome.result with
    | error cause => exact h.failed cause hresult
    | ok _ =>
      obtain ⟨-, outputShape, -, hconform⟩ := h.succeeds_iff.1 hresult
      exact absurd hconform (hnone outputShape)
  obtain ⟨hstatics, hdynamics⟩ := @call_all_or_nothing Compiler.sample .shiftedProduct
  refine ⟨static, dynamic, hstatic, hdynamic, fun found => ?_⟩
  have hnone₁ := hfailed (hstatics _ static [] [List.replicate 18 .zero] found hstatic (by decide)).2
  have hnone₂ := hfailed (hdynamics _ _ dynamic [] [List.replicate 18 .zero] found hdynamic (by decide)
    (by decide)).2
  exact ⟨(hstatics _ static _ _ found hstatic (by decide)).2.succeeds_iff.2
      ⟨⟨hoptimized, Shape.counted_of_extent (by decide)⟩, _, rfl, hconform⟩, hnone₁.1, hnone₁.2,
    (hdynamics _ _ dynamic _ _ found hdynamic (by decide) (by decide)).2.succeeds_iff.2
      ⟨⟨hkernel, domain, block, hprepare⟩, _, rfl, hconform⟩, hnone₂.1, hnone₂.2⟩

/-- Empty buffers conform to shapes without elements. They are still refused if the sizes in front of the
zero are too large to be multiplied. -/
theorem execute_overflows_without_elements :
    ∃ graph, Compiler.sample.compile .shiftedProduct [[1, 2 ^ 40, 2 ^ 40, 0], [0, 1, 1, 1]] = .ok graph ∧
      graph.isOptimized = true ∧ graph.outputShape.count = 0 ∧
      Buffers.Conform .shiftedProduct [[1, 2 ^ 40, 2 ^ 40, 0], [0, 1, 1, 1]] graph.outputShape [[], []]
        [[]] ∧
      ∀ found, graph.execute [[], []] [[]] found = .error (.fault .overflow) := by
  have hcompile : ((Compiler.sample.compile .shiftedProduct
      [[1, 2 ^ 40, 2 ^ 40, 0], [0, 1, 1, 1]]).toOption.map fun graph =>
        (graph.isOptimized, graph.outputShape.count)) = some (true, 0) := by decide +kernel
  obtain ⟨graph, hcompile, h⟩ := Option.map_eq_some_iff.1 hcompile
  obtain ⟨hoptimized, hcount⟩ := Prod.mk.inj h
  rw [Checked.toOption_eq_some] at hcompile
  have hshapes := inputShapes_of_compile hcompile
  refine ⟨graph, hcompile, hoptimized, hcount, .of_map_length rfl rfl rfl ?_, fun found => ?_⟩
  · rw [hcount]
    decide
  · obtain ⟨image, hkernel⟩ := StaticSubgraph.exists_kernel hoptimized
    rw [StaticSubgraph.execute, hshapes, (optimized_of_compile hcompile hkernel).table_params.2]
    rfl

end Compiler

end Pointwise
