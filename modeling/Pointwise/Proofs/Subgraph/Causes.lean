import Pointwise.Proofs.Offset.Overflow
import Pointwise.Proofs.Subgraph.Preparation

/-!
# Why a call fails

What can go wrong with a call is found out before the first kernel call. A subgraph without a kernel
cannot be called, and the shapes and buffers of a call have to fit the subgraph and each other. There is
one capacity that a call can exhaust: the six dimensions of a dynamic subgraph with a kernel, if the
shapes have more and can be broadcast. And sizes can be so large that their products leave their range.

## Main definitions

* `Shape.Counted` — shapes whose elements can be counted.
* `Buffers.Conform` — buffers with as many elements as their shapes.
* `CallFailure` — the causes for which calls of both kinds of subgraphs fail.
* `Shape.ExceedsOffsets` — shapes whose broadcast is too large for offsets.
* `DynamicSubgraph.ExceedsRank` — shapes with too many dimensions for a dynamic subgraph.

## Main results

* `Buffers.check_eq_ok_iff_conform` — buffers are accepted exactly if they conform to their shapes, and
  the elements of these can be counted.
* `StaticSubgraph.Optimized.exists_through`, `DynamicSubgraph.Prepared.exists_through` — nothing fails
  once the buffers are accepted.
* `Compiler.raises_execute_static`, `Compiler.raises_execute_dynamic` — the two kinds of subgraphs.
* `Compiler.execute_fails_for_kernel_shapes_or_rank` — the causes for which a call fails.
-/

set_option autoImplicit false

namespace Pointwise

/-! ## Buffers -/

/-- The sizes of each shape can be multiplied, from the first to the last, without leaving the range. A zero
helps only the products behind it. -/
def Shape.Counted (shapes : List Shape) : Prop :=
  ∀ shape ∈ shapes, ∃ elements, Checked.product shape = .ok elements

/-- Shapes whose sizes other than zero multiplied are in range. -/
theorem Shape.counted_of_extent {shapes : List Shape} (h : ∀ shape ∈ shapes, Shape.extent shape < 2 ^ 64) :
    Shape.Counted shapes :=
  fun shape hshape => ⟨_, Shape.product_eq_ok_of_extent (h shape hshape)⟩

namespace Buffers

variable {program : Program} {shapes : List Shape} {outputShape : Shape} {ins outs : List Buffer}

/-- Buffers, one for each tensor of a program, that have as many elements as their shapes. -/
structure Conform (program : Program) (shapes : List Shape) (outputShape : Shape)
    (ins outs : List Buffer) : Prop where
  length_inputs : ins.length = program.inputs
  inputs : ∀ (i : Nat) (buffer : Buffer) (shape : Shape), ins[i]? = some buffer →
    shapes[i]? = some shape → buffer.length = shape.count
  length_outputs : outs.length = program.outputs.length
  outputs : ∀ buffer ∈ outs, buffer.length = outputShape.count

/-- Buffers whose lengths can be compared with the shapes all at once. -/
theorem Conform.of_map_length (hinputs : ins.length = program.inputs)
    (hlengths : ins.map List.length = shapes.map Shape.count)
    (houtputs : outs.length = program.outputs.length)
    (hcount : ∀ buffer ∈ outs, buffer.length = outputShape.count) :
    Conform program shapes outputShape ins outs where
  length_inputs := hinputs
  inputs i buffer shape hbuffer hshape := by
    have hget : (ins.map List.length)[i]? = (shapes.map Shape.count)[i]? := by rw [hlengths]
    rwa [List.getElem?_map, List.getElem?_map, hbuffer, hshape, Option.map_some, Option.map_some,
      Option.some_inj] at hget
  length_outputs := houtputs
  outputs := hcount

/-- **Buffers are accepted exactly if they conform to their shapes**, and the elements of these can be
counted. -/
theorem check_eq_ok_iff_conform (hlength : shapes.length = program.inputs) :
    check shapes outputShape.count program.outputs.length ins outs = .ok () ↔
      Shape.Counted shapes ∧ Conform program shapes outputShape ins outs := by
  rw [check_eq_ok, List.forall₂_iff_get]
  constructor
  · rintro ⟨⟨hlen, hins⟩, hlen', houts⟩
    refine ⟨fun shape hshape => ?_, hlen.trans hlength, fun i buffer shape hbuffer hshape => ?_, hlen',
      houts⟩
    · obtain ⟨i, hi, rfl⟩ := List.getElem_of_mem hshape
      exact ⟨_, hins i (by omega) hi⟩
    · obtain ⟨hi, rfl⟩ := List.getElem?_eq_some_iff.1 hbuffer
      obtain ⟨hi', rfl⟩ := List.getElem?_eq_some_iff.1 hshape
      exact Shape.eq_count_of_product (hins i hi hi')
  · rintro ⟨hcounted, hlen, hins, hlen', houts⟩
    refine ⟨⟨hlen.trans hlength.symm, fun i hi hi' => ?_⟩, hlen', houts⟩
    obtain ⟨elements, helements⟩ := hcounted _ (List.getElem_mem hi')
    have hbuffer := hins i _ _ (List.getElem?_eq_getElem hi) (List.getElem?_eq_getElem hi')
    rw [← Shape.eq_count_of_product helements] at hbuffer
    simpa only [List.get_eq_getElem, hbuffer] using helements

/-- Buffers that are not accepted do not match, unless there is a shape with too many elements to be
counted. -/
theorem raises_check {outputLength outputs : Nat} :
    Checked.Raises (fun cause => (∃ why, cause = .shape why) ∨
        cause = .fault .overflow ∧ ∃ shape ∈ shapes, 2 ^ 64 ≤ Shape.extent shape)
      (check shapes outputLength outputs ins outs) := by
  refine (Checked.Raises.require (.inl ⟨_, rfl⟩)).bind fun _ _ => Checked.Raises.bind ?_ fun _ _ => ?_
  · refine Checked.Raises.forM fun ⟨⟨buffer, shape⟩, i⟩ hmem => ?_
    obtain ⟨-, hshape⟩ := List.of_mem_zip (List.mem_of_getElem? (List.mk_mem_zipIdx_iff_getElem?.1 hmem))
    have hproduct := (Checked.Raises.product shape).and fun hlt =>
      ⟨_, Shape.product_eq_ok_of_extent (Nat.not_le.1 hlt)⟩
    exact (hproduct.mono fun _ ⟨hcause, hlarge⟩ => .inr ⟨hcause, shape, hshape, hlarge⟩).bind
      fun _ _ => .require (.inl ⟨_, rfl⟩)
  · exact Checked.Raises.forM fun _ _ => .require (.inl ⟨_, rfl⟩)

end Buffers

/-! ## Accepted buffers -/

/-- **On buffers that are accepted** a static subgraph with a kernel computes something. -/
theorem StaticSubgraph.Optimized.exists_through {graph : StaticSubgraph} {compiler : Compiler}
    {program : Program} {shapes : List Shape} {image : KernelImage} {ins outs : List Buffers.Buffer}
    (h : graph.Optimized compiler program shapes image)
    (hcheck : Buffers.check shapes graph.outputShape.count program.outputs.length ins outs = .ok ())
    (hfit : Buffers.firstAddress + Buffers.extent (ins ++ outs) ≤ 2 ^ 64) (found : Residue) :
    ∃ results, Buffers.through ins outs (graph.executeAt Buffers.callSite · · · found) = .ok results := by
  have hsuit := Buffers.Suit.of_check hcheck hfit
  rcases Nat.eq_zero_or_pos graph.outputShape.count with hzero | hpos
  · have hplaced := hsuit.placed h.dims_le
    have helements : graph.domain.elements = 0 :=
      (Optimizer.sameReading_of_plan h.outputShape h.plan).2.trans hzero
    rw [Buffers.through, h.executeAt_of_eq_zero helements _
      (hplaced.length_sources.trans h.length_shapes) hplaced.length_targets]
    exact ⟨_, rfl⟩
  · exact ⟨_, Buffers.through_eq_ok h.length_shapes h.outputShape hpos hsuit h.dims_le
      fun sources targets memory hplaced => h.executeAt hpos hplaced memory found⟩

/-- **On buffers that are accepted** a prepared call of a dynamic subgraph computes something. -/
theorem DynamicSubgraph.Prepared.exists_through {graph : DynamicSubgraph} {compiler : Compiler}
    {program : Program} {shapes : List Shape} {image : KernelImage} {domain : Domain}
    {block : ArgumentBlock} {outputShape : Shape} {ins outs : List Buffers.Buffer}
    (h : graph.Prepared shapes domain block) (hgraph : graph.Optimized compiler program image)
    (hbroadcast : Shape.broadcast shapes = .ok outputShape)
    (hcheck : Buffers.check shapes outputShape.count program.outputs.length ins outs = .ok ())
    (hfit : Buffers.firstAddress + Buffers.extent (ins ++ outs) ≤ 2 ^ 64) (found : Residue) :
    ∃ results, Buffers.through ins outs (graph.executeAt image domain block Buffers.callSite · · · found) =
      .ok results := by
  rcases Nat.eq_zero_or_pos outputShape.count with hzero | hpos
  · have helements : domain.elements = 0 :=
      (Optimizer.sameReading_of_plan hbroadcast h.plan).2.trans hzero
    rw [Buffers.through, DynamicSubgraph.executeAt, if_pos helements]
    exact ⟨_, rfl⟩
  · exact ⟨_, h.through hgraph hbroadcast hpos (Buffers.Suit.of_check hcheck hfit) found⟩

/-! ## Causes -/

/-- The causes for which calls of both kinds of subgraphs fail: shapes or buffers that do not match, the
want of a kernel, and an overflow, where sizes out of range make one possible. -/
inductive CallFailure (kernel : Except Fallback KernelImage) (outOfRange : Prop) : Error → Prop where
  | shape (why : ShapeError) : CallFailure kernel outOfRange (.shape why)
  | notCompiled (why : Fallback) (h : kernel = .error why) :
    CallFailure kernel outOfRange (.notCompiled why)
  | overflow (h : outOfRange) : CallFailure kernel outOfRange (.fault .overflow)

/-- A failure about shapes, or an overflow if sizes out of range make one possible. -/
theorem CallFailure.of_shape_or_overflow {kernel : Except Fallback KernelImage}
    {outOfRange condition : Prop} (hle : condition → outOfRange) {cause : Error}
    (h : (∃ why, cause = .shape why) ∨ cause = .fault .overflow ∧ condition) :
    CallFailure kernel outOfRange cause := by
  rcases h with ⟨why, rfl⟩ | ⟨rfl, hcondition⟩
  · exact .shape why
  · exact .overflow (hle hcondition)

/-- Shapes that can be broadcast to sizes which, other than zero, multiplied give too many elements for
offsets to number their bytes. -/
def Shape.ExceedsOffsets (shapes : List Shape) : Prop :=
  ∃ master, Shape.broadcast shapes = .ok master ∧ 2 ^ 61 ≤ Shape.extent master

/-- Shapes that a dynamic subgraph with a kernel could be called for, if they had no more than six
dimensions. -/
structure DynamicSubgraph.ExceedsRank (graph : DynamicSubgraph) (program : Program)
    (shapes : List Shape) : Prop where
  optimized : graph.isOptimized = true
  length : shapes.length = program.inputs
  broadcasts : ∃ master, Shape.broadcast shapes = .ok master
  rank : ∃ shape ∈ shapes, 6 < shape.length

namespace Compiler

variable {compiler : Compiler} {program : Program} {samples shapes : List Shape}

/-- The shapes that a static subgraph was compiled for. -/
theorem inputShapes_of_compile {graph : StaticSubgraph}
    (h : compiler.compile program shapes = .ok graph) : graph.inputShapes = shapes := by
  obtain ⟨outputShape, -, h⟩ := Checked.bind_eq_ok.1 h
  obtain ⟨domain, -, h⟩ := Checked.bind_eq_ok.1 h
  obtain ⟨table, -, h⟩ := Checked.bind_eq_ok.1 h
  obtain ⟨dims, -, h⟩ := Checked.bind_eq_ok.1 h
  dsimp only at h
  split at h <;>
  · obtain ⟨kernel, -, h⟩ := Checked.bind_eq_ok.1 h
    rw [Checked.pure_eq_ok] at h
    rw [← h]

/-- A shape that takes part in a broadcast has at most its extent. -/
theorem extent_le_of_broadcast {master : Shape} (h : Shape.broadcast shapes = .ok master) {shape : Shape}
    (hshape : shape ∈ shapes) : Shape.extent shape ≤ Shape.extent master := by
  have hle := ((Shape.fits_of_broadcast h).2 shape hshape).extent_le
  rwa [Shape.extent_padTo] at hle

variable {graph : DynamicSubgraph}

/-- As many shapes as inputs are at least one. -/
theorem ne_nil_of_compileDynamic (h : compiler.compileDynamic program samples = .ok graph)
    (hlength : shapes.length = program.inputs) : shapes ≠ [] := by
  obtain ⟨-, -, -, hsamples, hne, -⟩ := pattern_of_compileDynamic h
  rintro rfl
  exact hne (List.length_eq_zero_iff.1 (hsamples.trans hlength.symm))

/-- **A call for too many dimensions** cannot be prepared. -/
theorem prepare_of_exceedsRank (h : compiler.compileDynamic program samples = .ok graph)
    (hexceeds : graph.ExceedsRank program shapes) :
    ∃ cause, graph.prepare shapes = .error cause ∧
      (cause = .capacity (.dynamicRank (Shape.maxRank shapes)) ∨
        cause = .fault .overflow ∧ Shape.ExceedsOffsets shapes) := by
  obtain ⟨-, hlength, ⟨master, hmaster⟩, shape, hshape, hlong⟩ := hexceeds
  obtain ⟨-, hinputs, -⟩ := pattern_of_compileDynamic h
  rw [DynamicSubgraph.prepare, require_eq_ok.2 (hlength.trans hinputs.symm), Checked.ok_bind]
  cases hplan : (Optimizer.ofConfig graph.compiler.config).plan shapes graph.outputs with
  | error cause =>
    obtain ⟨rfl, hlarge⟩ :=
      Optimizer.raises_plan_of_broadcast (ne_nil_of_compileDynamic h hlength) hmaster cause hplan
    exact ⟨_, rfl, .inr ⟨rfl, master, hmaster, by omega⟩⟩
  | ok domain =>
    have hle := Shape.length_le_maxRank hshape
    have hrank : domain.rank = Shape.maxRank shapes := by
      rw [Optimizer.rank_of_plan hplan, Optimizer.planRank, tensorRank]
      omega
    have hne : ¬ domain.rank = tensorRank := by
      rw [hrank, tensorRank]
      omega
    refine ⟨_, ?_, .inl rfl⟩
    rw [Checked.ok_bind, require, if_neg hne, hrank]
    rfl

/-- **A call that cannot be prepared** has the wrong shapes, or they have too many dimensions or elements. -/
theorem raises_prepare (h : compiler.compileDynamic program samples = .ok graph)
    (hoptimized : graph.isOptimized = true) (hrank : ¬ graph.ExceedsRank program shapes) :
    Checked.Raises (CallFailure graph.kernel (Shape.ExceedsOffsets shapes)) (graph.prepare shapes) := by
  obtain ⟨-, hinputs, -⟩ := pattern_of_compileDynamic h
  refine (Checked.Raises.require (.shape _)).bind fun _ hlength => ?_
  replace hlength := (require_eq_ok.1 hlength).trans hinputs
  have hne := ne_nil_of_compileDynamic h hlength
  have hexceeds : (∃ master, Shape.broadcast shapes = .ok master ∧ 2 ^ 64 ≤ Shape.extent master) →
      Shape.ExceedsOffsets shapes := fun ⟨master, hmaster, hlarge⟩ => ⟨master, hmaster, by omega⟩
  refine ((Optimizer.raises_plan hne).mono fun _ => .of_shape_or_overflow hexceeds).bind
    fun domain hplan => ?_
  obtain ⟨-, padded, -, -, hpadded, -⟩ := Optimizer.plan_eq_ok.1 hplan
  obtain ⟨master, hmaster⟩ := Shape.exists_broadcast_of_padTo hne (Nat.le_max_left _ _) hpadded
  have hsix : domain.rank = tensorRank := by
    rw [Optimizer.rank_of_plan hplan, Optimizer.planRank_eq_tensorRank]
    intro shape hshape
    by_contra hlong
    exact hrank ⟨hoptimized, hlength, ⟨master, hmaster⟩, shape, hshape, by omega⟩
  rw [require_eq_ok.2 hsix, Checked.ok_bind, Optimizer.broadcastFlags_of_plan hplan, Checked.ok_bind]
  refine (Checked.Raises.require (.shape _)).bind fun _ _ => Checked.Raises.bind ?_ fun _ _ => .of_ok rfl
  refine (OffsetTable.raises_ofDomain (Optimizer.planned_of_plan hplan).1).mono ?_
  rintro _ ⟨rfl, hlarge⟩
  have hle := Optimizer.extent_le_of_plan hmaster hplan
  rw [elementSize] at hlarge
  exact .overflow ⟨master, hmaster, by omega⟩

variable {ins outs : List Buffers.Buffer}

/-- **A call of a static subgraph** fails for want of a kernel or for its buffers. -/
theorem raises_execute_static {graph : StaticSubgraph} (hcompile : compiler.compile program shapes = .ok graph)
    (hfit : Buffers.firstAddress + Buffers.extent (ins ++ outs) ≤ 2 ^ 64) (found : Residue) :
    Checked.Raises (CallFailure graph.kernel (∃ shape ∈ shapes, 2 ^ 64 ≤ Shape.extent shape))
      (graph.execute ins outs found) := by
  rw [← inputShapes_of_compile hcompile]
  refine (Buffers.raises_check.mono fun _ => .of_shape_or_overflow id).bind fun _ hcheck => ?_
  cases hkernel : graph.kernel with
  | error why =>
    simp only [Buffers.through, StaticSubgraph.executeAt, hkernel, Checked.error_bind]
    exact .error (.notCompiled why rfl)
  | ok image =>
    have h := optimized_of_compile hcompile hkernel
    have helements := (Optimizer.sameReading_of_plan h.outputShape h.plan).2
    rw [h.inputShapes, helements, h.table_params.2] at hcheck
    obtain ⟨results, hresults⟩ := h.exists_through hcheck hfit found
    exact .of_ok hresults

/-- **A call of a dynamic subgraph** fails for want of a kernel, for its shapes or for its buffers, unless the
shapes have too many dimensions. -/
theorem raises_execute_dynamic (hcompile : compiler.compileDynamic program samples = .ok graph)
    (hfit : Buffers.firstAddress + Buffers.extent (ins ++ outs) ≤ 2 ^ 64)
    (hrank : ¬ graph.ExceedsRank program shapes) (found : Residue) :
    Checked.Raises (CallFailure graph.kernel (Shape.ExceedsOffsets shapes))
      (graph.execute shapes ins outs found) := by
  cases hkernel : graph.kernel with
  | error why =>
    simp only [DynamicSubgraph.execute, hkernel]
    exact .error (.notCompiled why rfl)
  | ok image =>
    have hgraph := optimized_of_compileDynamic hcompile hkernel
    have hoptimized : graph.isOptimized = true := by
      rw [DynamicSubgraph.isOptimized, hkernel]
      rfl
    simp only [DynamicSubgraph.execute, hkernel]
    refine (hkernel ▸ raises_prepare hcompile hoptimized hrank).bind fun call hprepare => ?_
    obtain ⟨domain, block⟩ := call
    have hprepared := DynamicSubgraph.prepared_of_prepare hprepare
    obtain ⟨outputShape, hbroadcast⟩ := (suits_of_prepared hcompile hprepared).broadcasts
    have hexceeds : (∃ shape ∈ shapes, 2 ^ 64 ≤ Shape.extent shape) → Shape.ExceedsOffsets shapes := by
      rintro ⟨shape, hshape, hlarge⟩
      have hle := extent_le_of_broadcast hbroadcast hshape
      exact ⟨outputShape, hbroadcast, by omega⟩
    refine (Buffers.raises_check.mono fun _ => .of_shape_or_overflow hexceeds).bind fun _ hcheck => ?_
    rw [(Optimizer.sameReading_of_plan hbroadcast hprepared.plan).2, hgraph.outputs] at hcheck
    obtain ⟨results, hresults⟩ := hprepared.exists_through hgraph hbroadcast hcheck hfit found
    exact .of_ok hresults

/-- **A call fails for want of a kernel or for its shapes**, with one exception: a dynamic subgraph with a
kernel reports an exhausted capacity for shapes, one for each input, that can be broadcast and have more
than six dimensions. Settings, programs, instruction sets and the mapping of code are no causes of a
failing call, and there is no fault but an overflow.

An overflow takes sizes which, other than zero, have a product out of range: those of a shape that a static
subgraph was compiled for, or those of the broadcast of the shapes that a dynamic one is called for.

**Proof sketch.** All checks but the one on the number of dimensions are about shapes. Once they are
passed, all kernel calls return. -/
theorem execute_fails_for_kernel_shapes_or_rank {compiler : Compiler} {program : Program} :
    (∀ (shapes : List Shape) (graph : StaticSubgraph) (ins outs : List Buffers.Buffer) (found : Residue)
        (cause : Error),
      compiler.compile program shapes = .ok graph →
      Buffers.firstAddress + Buffers.extent (ins ++ outs) ≤ 2 ^ 64 →
      graph.execute ins outs found = .error cause →
        CallFailure graph.kernel (∃ shape ∈ shapes, 2 ^ 64 ≤ Shape.extent shape) cause) ∧
    ∀ (samples shapes : List Shape) (graph : DynamicSubgraph) (ins outs : List Buffers.Buffer)
        (found : Residue),
      compiler.compileDynamic program samples = .ok graph →
      Buffers.firstAddress + Buffers.extent (ins ++ outs) ≤ 2 ^ 64 →
        (graph.ExceedsRank program shapes → ∃ cause, graph.execute shapes ins outs found = .error cause ∧
          (cause = .capacity (.dynamicRank (Shape.maxRank shapes)) ∨
            cause = .fault .overflow ∧ Shape.ExceedsOffsets shapes)) ∧
        (¬ graph.ExceedsRank program shapes → ∀ cause,
          graph.execute shapes ins outs found = .error cause →
          CallFailure graph.kernel (Shape.ExceedsOffsets shapes) cause) := by
  refine ⟨fun shapes graph ins outs found cause hcompile hfit herror =>
    raises_execute_static hcompile hfit found cause herror, ?_⟩
  intro samples shapes graph ins outs found hcompile hfit
  refine ⟨fun hexceeds => ?_, fun hrank cause herror =>
    raises_execute_dynamic hcompile hfit hrank found cause herror⟩
  obtain ⟨image, hkernel⟩ := DynamicSubgraph.exists_kernel hexceeds.optimized
  obtain ⟨cause, hprepare, hcause⟩ := prepare_of_exceedsRank hcompile hexceeds
  refine ⟨cause, ?_, hcause⟩
  simp only [DynamicSubgraph.execute, hkernel, hprepare, Checked.error_bind]

/-- A call without buffers, one for a row of seven dimensions and one for narrow rows, of graphs for rows
of nine and of five. -/
theorem execute_fails_for_kernel_shapes_or_rank_of_rows :
    ∃ static dynamic, Compiler.sample.compile .shiftedProduct [[2, 9], [9]] = .ok static ∧
      Compiler.sample.compileDynamic .shiftedProduct [[4, 5], [5]] = .ok dynamic ∧
      (∃ cause, static.execute [] [] = .error cause ∧
        CallFailure static.kernel (∃ shape ∈ [[2, 9], [9]], 2 ^ 64 ≤ Shape.extent shape) cause) ∧
      dynamic.ExceedsRank .shiftedProduct [[1, 1, 1, 1, 1, 2, 9], [9]] ∧
      dynamic.execute [[1, 1, 1, 1, 1, 2, 9], [9]] [] [] = .error (.capacity (.dynamicRank 7)) ∧
      ¬ dynamic.ExceedsRank .shiftedProduct [[2, 1], [1]] ∧
      ∃ cause, dynamic.execute [[2, 1], [1]] [] [] = .error cause ∧
        CallFailure dynamic.kernel (Shape.ExceedsOffsets [[2, 1], [1]]) cause := by
  have hstatic : ((Compiler.sample.compile .shiftedProduct [[2, 9], [9]]).toOption.map
      fun static => (static.execute [] []).toBool) = some false := by decide +kernel
  have hdynamic : ((Compiler.sample.compileDynamic .shiftedProduct [[4, 5], [5]]).toOption.map
      fun dynamic => (dynamic.isOptimized, (dynamic.execute [[2, 1], [1]] [] []).toBool)) =
        some (true, false) := by decide +kernel
  obtain ⟨static, hstatic, hfails⟩ := Option.map_eq_some_iff.1 hstatic
  obtain ⟨dynamic, hdynamic, h⟩ := Option.map_eq_some_iff.1 hdynamic
  rw [Checked.toOption_eq_some] at hstatic hdynamic
  obtain ⟨hoptimized, hfails'⟩ := Prod.mk.inj h
  have hcause : ∀ {x : Except Error (List Buffers.Buffer)}, x.toBool = false →
      ∃ cause, x = .error cause := by
    rintro (cause | results) hx
    · exact ⟨cause, rfl⟩
    · cases hx
  obtain ⟨cause, hcause₁⟩ := hcause hfails
  obtain ⟨cause', hcause₂⟩ := hcause hfails'
  have hexceeds : dynamic.ExceedsRank .shiftedProduct [[1, 1, 1, 1, 1, 2, 9], [9]] :=
    ⟨hoptimized, rfl, ⟨_, rfl⟩, _, .head _, by decide⟩
  have hnarrow : ¬ dynamic.ExceedsRank .shiftedProduct [[2, 1], [1]] := by
    rintro ⟨-, -, -, hrank⟩
    revert hrank
    decide
  obtain ⟨hstatics, hdynamics⟩ := @execute_fails_for_kernel_shapes_or_rank Compiler.sample .shiftedProduct
  refine ⟨static, dynamic, hstatic, hdynamic,
    ⟨cause, hcause₁, hstatics _ static [] [] _ cause hstatic (by decide) hcause₁⟩, hexceeds, ?_, hnarrow,
    cause', hcause₂, (hdynamics _ _ dynamic [] [] _ hdynamic (by decide)).2 hnarrow cause' hcause₂⟩
  obtain ⟨cause'', hcause₃, rfl | ⟨-, master, hmaster, hlarge⟩⟩ :=
    (hdynamics _ _ dynamic [] [] _ hdynamic (by decide)).1 hexceeds
  · exact hcause₃
  · -- Eighteen elements are not too many.
    cases hmaster
    exact absurd hlarge (by decide)

/-- A shape of seven dimensions exhausts a capacity at the time of a call. -/
theorem execute_exhausts_rank :
    ∃ graph, Compiler.sample.compileDynamic .shiftedProduct [[4, 5], [5]] = .ok graph ∧
      graph.execute [[1, 1, 1, 1, 1, 2, 9], [9]]
          [List.replicate 18 ⟨0x3f800000⟩, List.replicate 9 ⟨0x40000000⟩] [List.replicate 18 .zero] =
        .error (.capacity (.dynamicRank 7)) := by
  have hexecute : ((Compiler.sample.compileDynamic .shiftedProduct [[4, 5], [5]]).toOption.bind
      fun graph => match graph.execute [[1, 1, 1, 1, 1, 2, 9], [9]]
          [List.replicate 18 ⟨0x3f800000⟩, List.replicate 9 ⟨0x40000000⟩] [List.replicate 18 .zero] with
        | .ok _ => none
        | .error cause => some cause) = some (.capacity (.dynamicRank 7)) := by decide +kernel
  obtain ⟨graph, hcompile, hexecute⟩ := Option.bind_eq_some_iff.1 hexecute
  refine ⟨graph, Checked.toOption_eq_some.1 hcompile, ?_⟩
  split at hexecute
  · cases hexecute
  · rename_i hcause
    rw [hcause, Option.some_inj.1 hexecute]

end Compiler

end Pointwise
