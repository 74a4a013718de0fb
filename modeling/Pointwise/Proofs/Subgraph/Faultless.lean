import Pointwise.Proofs.Strict.Code
import Pointwise.Proofs.Strict.Dispatch
import Pointwise.Proofs.Strict.Offsets
import Pointwise.Proofs.Strict.Planning
import Pointwise.Proofs.Subgraph.Causes

/-!
# Compiling and calling without faults

Sizes, strides, offsets in bytes, shares of tasks and index vectors are computed in different orders and with
different signs. All of them are bounded by one number, the bytes of the broadcast shape: if these can be
numbered by offsets, no step leaves its range. Nothing is divided by zero, no list is read behind its end, and
no size changes its value when it is read as an offset.

*Core idea.* The stages are confirmed one by one. What a strict stage needs is a bound on the extent of its
domain, and a plan keeps the extent of the shapes it was made for, however many dimensions are merged.

## Main definitions

* `Strict.planFor`, `Strict.prepare` — the strict forms of planning for a program and of preparing a call.
* `Compiler.Faultless` — a program and shapes whose stages raise no faults.

## Main results

* `Domain.PlannedFor.exists_table`, `Domain.PlannedFor.exists_calls` — the stages behind a plan.
* `Compiler.confirms_prepare` — the preparation of a call is confirmed.
* `Compiler.no_step_faults` — no stage raises a fault for shapes with few enough elements.
-/

set_option autoImplicit false

namespace Pointwise

/-! ## Strict stages -/

namespace Strict

/-- The strict form of `Compiler.plan`. -/
def planFor (compiler : Compiler) (program : Program) (shapes : List Shape) : Except Error Domain := do
  require (shapes.length = program.inputs) (.shape (.shapeCount program.inputs shapes.length))
  plan (Optimizer.ofConfig compiler.config) shapes program.outputs.length

/-- The strict form of `DynamicSubgraph.prepare`. -/
def prepare (graph : DynamicSubgraph) (shapes : List Shape) : Except Error (Domain × ArgumentBlock) := do
  require (shapes.length = graph.inputs) (.shape (.shapeCount graph.inputs shapes.length))
  let domain ← plan (Optimizer.ofConfig graph.compiler.config) shapes graph.outputs
  require (domain.rank = tensorRank) (.capacity (.dynamicRank domain.rank))
  let pattern ← domain.broadcastFlags
  require (pattern = graph.pattern) (.shape (.pattern graph.pattern pattern shapes))
  let table ← ofDomain domain
  return (domain, ← ofTable table domain.rank)

end Strict

/-! ## Planned domains -/

section Planned

variable {limits : Optimizer} {program : Program} {shapes : List Shape} {outputShape : Shape}
  {domain : Domain} (h : domain.PlannedFor limits program shapes outputShape)
include h

/-- A planned domain with elements has no larger extent than their number. -/
theorem Domain.PlannedFor.extent_master : Shape.extent domain.master = outputShape.count := by
  have hcount := h.planned.elements.symm.trans h.elements
  rw [Shape.extent_eq_count (hcount ▸ h.pos), hcount]

/-- A planned domain has few dimensions if the shapes have. -/
theorem Domain.PlannedFor.rank_lt (hranks : ∀ shape ∈ shapes, shape.length < 2 ^ 60) :
    domain.master.length < 2 ^ 60 := by
  have hmax : Shape.maxRank shapes ≤ 2 ^ 60 - 1 :=
    Shape.maxRank_le fun shape hshape => Nat.le_sub_one_of_lt (hranks shape hshape)
  have hrank := Optimizer.rank_of_plan h.plan
  rw [Domain.rank, Optimizer.planRank, tensorRank] at hrank
  omega

variable (hbytes : 4 * outputShape.count < 2 ^ 63)
include hbytes

/-- **The offset table of a planned domain** is found and confirmed. -/
theorem Domain.PlannedFor.exists_table (hranks : ∀ shape ∈ shapes, shape.length < 2 ^ 60) :
    ∃ table, OffsetTable.ofDomain domain = .ok table ∧ Strict.ofDomain domain = .ok table := by
  have hextent : Shape.extent domain.master * elementSize < 0x8000000000000000 := by
    rw [h.extent_master, elementSize]
    omega
  have hparams : domain.params.length ≤ 12 :=
    (Kernel.length_params_of_planned h.planned h.length_inputShapes).trans_le program.wellFormed.params_le
  have hrank := h.rank_lt hranks
  have hroom : domain.params.length * (domain.master.length - 1) ≤ 12 * 2 ^ 60 :=
    Nat.mul_le_mul hparams (by omega)
  obtain ⟨table, htable⟩ := OffsetTable.exists_ofDomain_of_extent h.planned hextent
  exact ⟨table, htable, (Strict.ofDomain_eq h.planned hextent (by omega)).trans htable⟩

/-- **The calls for a planned domain** are found and confirmed. -/
theorem Domain.PlannedFor.exists_calls (maxTasks : Nat) :
    ∃ calls, Dispatch.tasks domain.callShape maxTasks = .ok calls ∧
      Strict.tasks domain.callShape maxTasks = .ok calls := by
  have hpos : 0 < domain.elements := h.elements ▸ h.pos
  have hcount := h.planned.count_callShape
  obtain ⟨houter, hinner⟩ := h.planned.tiled_pos hpos
  have hle := Nat.le_mul_of_pos_right (Shape.count domain.callShape.dropLast) (Nat.mul_pos houter hinner)
  have hrank : 0 < domain.callShape.length := by
    rw [h.planned.length_callShape.2]
    exact Nat.lt_of_lt_of_le (by decide) h.planned.rank
  have helements := h.elements
  rw [← hcount] at hpos
  obtain ⟨calls, hcalls, -⟩ := h.tasks_eq maxTasks
  exact ⟨calls, hcalls, (Strict.confirms_tasks maxTasks hrank (Nat.pos_of_mul_pos_right hpos)
    (by omega)).eq.trans hcalls⟩

end Planned

/-! ## All stages -/

namespace Compiler

open Strict (Confirms)

/-- A program and shapes for which no stage raises a fault. A strict stage makes the steps of the plain one
and checks each of them; where there is a plan, the stages behind it are confirmed for its domain. -/
structure Faultless (compiler : Compiler) (program : Program) (shapes : List Shape) : Prop where
  /-- Without inputs there is nothing to plan for. -/
  exists_plan : 0 < program.inputs → ∃ domain, compiler.plan program shapes = .ok domain
  plan : Confirms (Strict.planFor compiler program shapes) (compiler.plan program shapes)
  table : ∀ domain, compiler.plan program shapes = .ok domain →
    ∃ table, OffsetTable.ofDomain domain = .ok table ∧ Strict.ofDomain domain = .ok table
  static : ∀ domain table, compiler.plan program shapes = .ok domain →
    OffsetTable.ofDomain domain = .ok table →
      Confirms (Strict.generate compiler program domain (.static table))
        (compiler.generate program domain (.static table))
  dynamic : ∀ domain, compiler.plan program shapes = .ok domain →
    Confirms (Strict.generate compiler program domain .dynamic) (compiler.generate program domain .dynamic)
  /-- Calls may be prepared for other shapes than those of the samples. -/
  prepare : ∀ samples graph, compiler.compileDynamic program samples = .ok graph →
    Confirms (Strict.prepare graph shapes) (graph.prepare shapes)
  /-- A prepared call has a row to compute in each of its calls. -/
  prepared : ∀ samples graph domain block, compiler.compileDynamic program samples = .ok graph →
    graph.prepare shapes = .ok (domain, block) →
      compiler.plan program shapes = .ok domain ∧ 1 ≤ block.outer
  /-- Products of sizes are checked in the plain stage already. -/
  buffers : ∀ outputLength outputs ins outs cause,
    Buffers.check shapes outputLength outputs ins outs ≠ .error (.fault cause)
  calls : ∀ domain maxTasks, compiler.plan program shapes = .ok domain →
    ∃ calls, Dispatch.tasks domain.callShape maxTasks = .ok calls ∧
      Strict.tasks domain.callShape maxTasks = .ok calls

section Stages

variable {compiler : Compiler} {program : Program} {samples shapes : List Shape} {outputShape : Shape}
  {graph : DynamicSubgraph} (hlength : shapes.length = program.inputs)
  (hbroadcast : Shape.broadcast shapes = .ok outputShape) (hpos : 0 < outputShape.count)
include hlength hbroadcast hpos

/-- The domain of a plan. -/
theorem plannedFor_of_plan {domain : Domain} (h : compiler.plan program shapes = .ok domain) :
    domain.PlannedFor (Optimizer.ofConfig compiler.config) program shapes outputShape :=
  ⟨hlength, hbroadcast, hpos, (Checked.require_bind_eq_ok.1 h).2⟩

variable (hbytes : 4 * outputShape.count < 2 ^ 63)
include hbytes

/-- There is a plan if there are inputs. -/
theorem exists_plan (hinputs : 0 < program.inputs) :
    ∃ domain, compiler.plan program shapes = .ok domain := by
  have hne : shapes ≠ [] := List.ne_nil_of_length_pos (hlength ▸ hinputs)
  obtain ⟨domain, hplan⟩ : ∃ domain, (Optimizer.ofConfig compiler.config).plan shapes
      program.outputs.length = .ok domain :=
    Optimizer.plan_succeeds hne hbroadcast hpos (by omega)
  exact ⟨domain, Checked.bind_eq_ok.2 ⟨(), require_eq_ok.2 hlength, hplan⟩⟩

/-- **Planning is confirmed**, whether there are inputs or not. -/
theorem confirms_plan : Confirms (Strict.planFor compiler program shapes) (compiler.plan program shapes) := by
  rcases Nat.eq_zero_or_pos program.inputs with hinputs | hinputs
  · have hnil : shapes = [] := List.length_eq_zero_iff.1 (hlength.trans hinputs)
    subst hnil
    refine ⟨?_, fun cause hcause => ?_⟩
    · rw [Strict.planFor, plan, Strict.plan, Optimizer.plan]
      rfl
    · rw [Strict.planFor, require_eq_ok.2 hlength] at hcause
      cases hcause
  · obtain ⟨domain, hplan⟩ : ∃ domain, compiler.plan program shapes = .ok domain :=
      exists_plan hlength hbroadcast hpos hbytes hinputs
    have hstrict := Strict.plan_eq (Checked.require_bind_eq_ok.1 hplan).2
    exact .of_ok (Checked.bind_eq_ok.2 ⟨(), require_eq_ok.2 hlength, hstrict⟩) hplan

variable (hranks : ∀ shape ∈ shapes, shape.length < 2 ^ 60)
include hranks

/-- **The preparation of a call is confirmed.**

**Proof sketch.** The shapes have a plan, made with the settings that the subgraph was compiled with, and its
table has few enough parameters to fill the argument block. -/
theorem confirms_prepare (hcompile : compiler.compileDynamic program samples = .ok graph) :
    Confirms (Strict.prepare graph shapes) (graph.prepare shapes) := by
  obtain ⟨hcompiler, hinputs, houtputs, -⟩ := pattern_of_compileDynamic hcompile
  have hne := ne_nil_of_compileDynamic hcompile hlength
  obtain ⟨domain, hplan⟩ : ∃ domain, compiler.plan program shapes = .ok domain :=
    exists_plan hlength hbroadcast hpos hbytes (hlength ▸ List.length_pos_iff.2 hne)
  have h := plannedFor_of_plan hlength hbroadcast hpos hplan
  have hstrict := Strict.plan_eq h.plan
  have hflags := Optimizer.broadcastFlags_of_plan h.plan
  have hparams : domain.params.length ≤ maxParams :=
    (Kernel.length_params_of_planned h.planned h.length_inputShapes).trans_le program.wellFormed.params_le
  obtain ⟨table, htable, htable'⟩ := h.exists_table hbytes hranks
  rw [Strict.prepare, DynamicSubgraph.prepare, hcompiler, houtputs, hstrict, h.plan]
  refine (Confirms.require (by rintro _ ⟨⟩)).bind fun _ _ => ?_
  rw [Checked.ok_bind, Checked.ok_bind]
  refine (Confirms.require (by rintro _ ⟨⟩)).bind fun _ hrank => ?_
  rw [hflags, Checked.ok_bind, Checked.ok_bind, htable, htable', Checked.ok_bind, Checked.ok_bind]
  refine (Confirms.require (by rintro _ ⟨⟩)).bind fun _ _ => ?_
  rw [Strict.ofTable_eq h.planned (require_eq_ok.1 hrank) hparams htable (by rw [h.extent_master]; omega)]
  exact .of_ok rfl rfl

omit hranks in
/-- A prepared call has a row to compute in each of its calls. -/
theorem outer_pos_of_prepare {domain : Domain} {block : ArgumentBlock}
    (hcompile : compiler.compileDynamic program samples = .ok graph)
    (hprepare : graph.prepare shapes = .ok (domain, block)) :
    compiler.plan program shapes = .ok domain ∧ 1 ≤ block.outer := by
  obtain ⟨hcompiler, -, houtputs, -⟩ := pattern_of_compileDynamic hcompile
  have hprepared := DynamicSubgraph.prepared_of_prepare hprepare
  obtain ⟨table, htable, rfl⟩ := hprepared.block
  have hplan : compiler.plan program shapes = .ok domain := by
    refine Checked.bind_eq_ok.2 ⟨(), require_eq_ok.2 hlength, ?_⟩
    rw [← hcompiler, ← houtputs]
    exact hprepared.plan
  have h := plannedFor_of_plan hlength hbroadcast hpos hplan
  obtain ⟨houter, -⟩ := h.planned.tiled_pos (h.elements ▸ h.pos)
  obtain ⟨hle, -⟩ := ArgumentBlock.tiled_le_extent h.planned
  rw [h.extent_master] at hle
  obtain ⟨-, -, -, htiled⟩ := OffsetTable.lengths_of_ofDomain h.planned htable
  refine ⟨hplan, ?_⟩
  have hvalue : (ArgumentBlock.ofTable table).outer = domain.tiled.outer := by
    simp only [ArgumentBlock.ofTable, htiled]
    exact Checked.toOffset_of_lt (by omega)
  omega

end Stages

/-- **No step raises a fault.** For every program, every compiler that generates code, and shapes, one for
each input, that can be broadcast to a shape with elements whose bytes can be numbered by offsets: planning,
the offset table, the code of static and of dynamic kernels, the preparation of calls of a dynamic subgraph,
whatever samples it was compiled for, the check of any buffers and the calls of any number of tasks come to
the same whether each of their steps is checked or not. No check finds a step out of range, a division by
zero, a position behind the end of a list, or a size that would change its value when read as an offset.

The operations of the program and the dimensions of a shape lie in memory, several bytes each, which limits
their number.

**Proof sketch.** The extent of a planned domain is the number of elements, and all sizes and offsets are at
most the bytes of it. -/
theorem no_step_faults {compiler : Compiler} {program : Program} {shapes : List Shape} {outputShape : Shape}
    (hisa : compiler.config.isa = .avx2 ∨ compiler.config.isa = .avx512)
    (hops : program.ops.length < 2 ^ 60) (hranks : ∀ shape ∈ shapes, shape.length < 2 ^ 60)
    (hlength : shapes.length = program.inputs) (hbroadcast : Shape.broadcast shapes = .ok outputShape)
    (hpos : 0 < outputShape.count) (hbytes : 4 * outputShape.count ≤ 2 ^ 63 - 1) :
    compiler.Faultless program shapes := by
  replace hbytes : 4 * outputShape.count < 2 ^ 63 := by omega
  obtain ⟨w, hw⟩ : ∃ w, compiler.config.isa.vectorWidth = .ok w := by
    rcases hisa with h | h
    · exact ⟨.ymm, h ▸ rfl⟩
    · exact ⟨.zmm, h ▸ rfl⟩
  have hplanned := fun domain (h : compiler.plan program shapes = .ok domain) =>
    plannedFor_of_plan hlength hbroadcast hpos h
  refine {
    exists_plan := exists_plan hlength hbroadcast hpos hbytes
    plan := confirms_plan hlength hbroadcast hpos hbytes
    table := fun domain h => (hplanned domain h).exists_table hbytes hranks
    static := fun domain table h htable => ?_
    dynamic := fun domain h => ?_
    prepare := fun _ _ hcompile => confirms_prepare hlength hbroadcast hpos hbytes hranks hcompile
    prepared := fun _ _ _ _ => outer_pos_of_prepare hlength hbroadcast hpos hbytes
    buffers := fun _ _ _ _ cause hcause => ?_
    calls := fun domain maxTasks h => (hplanned domain h).exists_calls hbytes maxTasks }
  · have h := hplanned domain h
    have helements := h.elements
    exact Strict.confirms_generate_static hw (by omega) h.planned h.length_inputShapes
      (h.rank_lt hranks) (h.elements ▸ h.pos) (by omega) htable
  · have h := hplanned domain h
    exact Strict.confirms_generate_dynamic hw (by omega) h.planned h.length_inputShapes
  · have hextent : ∀ shape ∈ shapes, Shape.extent shape < 2 ^ 64 := by
      intro shape hshape
      have hle := extent_le_of_broadcast hbroadcast hshape
      rw [Shape.extent_eq_count hpos] at hle
      omega
    rcases Buffers.raises_check _ hcause with ⟨why, hwhy⟩ | ⟨-, shape, hshape, hlarge⟩
    · cases hwhy
    · exact absurd (hextent shape hshape) (Nat.not_lt.2 hlarge)

/-- Two rows of nine, for a kernel that was compiled for four rows of five and four tasks. -/
theorem no_step_faults_of_rows :
    ∃ domain graph block table code calls,
      Strict.planFor Compiler.sample .shiftedProduct [[2, 9], [9]] = .ok domain ∧
      Compiler.sample.compileDynamic .shiftedProduct [[4, 5], [5]] = .ok graph ∧
      Strict.prepare graph [[2, 9], [9]] = .ok (domain, block) ∧
      Strict.ofDomain domain = .ok table ∧
      Strict.generate Compiler.sample .shiftedProduct domain (.static table) = .ok code ∧
      Strict.tasks domain.callShape 4 = .ok calls := by
  have hrun : ((do
      let domain ← Compiler.sample.plan .shiftedProduct [[2, 9], [9]]
      let table ← OffsetTable.ofDomain domain
      let graph ← Compiler.sample.compileDynamic .shiftedProduct [[4, 5], [5]]
      let _ ← graph.prepare [[2, 9], [9]]
      Compiler.sample.generate .shiftedProduct domain (.static table)).toOption.isSome) = true := by
    decide +kernel
  obtain ⟨code, hrun⟩ := Option.isSome_iff_exists.1 hrun
  rw [Checked.toOption_eq_some] at hrun
  obtain ⟨domain, hplan, hrun⟩ := Checked.bind_eq_ok.1 hrun
  obtain ⟨table, htable, hrun⟩ := Checked.bind_eq_ok.1 hrun
  obtain ⟨graph, hcompile, hrun⟩ := Checked.bind_eq_ok.1 hrun
  obtain ⟨⟨domain', block⟩, hprepare, hcode⟩ := Checked.bind_eq_ok.1 hrun
  have hbroadcast : Shape.broadcast [[2, 9], [9]] = .ok [2, 9] := rfl
  have h : Compiler.sample.Faultless .shiftedProduct [[2, 9], [9]] :=
    no_step_faults (by decide) (by decide) (by decide) (by decide) hbroadcast (by decide) (by decide)
  obtain ⟨hplan', -⟩ := h.prepared _ _ _ _ hcompile hprepare
  cases hplan.symm.trans hplan'
  obtain ⟨calls, -, hcalls⟩ := h.calls domain 4 hplan
  obtain ⟨table', htable', hstrict⟩ := h.table domain hplan
  cases htable.symm.trans htable'
  exact ⟨domain, graph, block, table, code, calls, h.plan.eq.trans hplan, hcompile,
    (h.prepare _ _ hcompile).eq.trans hprepare, hstrict,
    (h.static domain table hplan htable).eq.trans hcode, hcalls⟩

end Compiler

end Pointwise
