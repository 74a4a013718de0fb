import Pointwise.Proofs.Domain.Pattern
import Pointwise.Proofs.Offset.Fill
import Pointwise.Proofs.Subgraph.Dynamic

/-!
# The shapes a dynamic subgraph accepts

A dynamic subgraph is compiled for sample shapes and then called for others. A call is prepared exactly
for shapes that can be broadcast, have no more than six dimensions and are narrow in the same places as
the sample shapes. The settings of the compiler have no say in that, although they decide how many
dimensions of either request are merged.

## Main definitions

* `Compiler.Suits` — shapes that take the place of sample shapes.

## Main results

* `Compiler.pattern_of_compileDynamic` — the pattern of a dynamic subgraph.
* `Compiler.prepare_accepts_suited_shapes` — calls are prepared for suited shapes only, and for all of
  them; their argument blocks hold the offset tables of their domains.
-/

set_option autoImplicit false

namespace Pointwise

namespace Compiler

variable {compiler : Compiler} {program : Program} {samples shapes : List Shape}
  {graph : DynamicSubgraph}

/-- Shapes that take the place of the sample shapes that a program was compiled for. -/
structure Suits (program : Program) (samples shapes : List Shape) : Prop where
  length : shapes.length = program.inputs
  broadcasts : ∃ master, Shape.broadcast shapes = .ok master
  rank : ∀ shape ∈ shapes, shape.length ≤ 6
  /-- The last dimension is one, or missing, in the same inputs. -/
  narrow : ∀ (i : Nat) (sample shape : Shape), samples[i]? = some sample → shapes[i]? = some shape →
    (shape.isNarrow ↔ sample.isNarrow)

/-- **The pattern of a dynamic subgraph** tells which sample shapes are narrow. -/
theorem pattern_of_compileDynamic (h : compiler.compileDynamic program samples = .ok graph) :
    graph.compiler = compiler ∧ graph.inputs = program.inputs ∧
      graph.outputs = program.outputs.length ∧ samples.length = program.inputs ∧ samples ≠ [] ∧
      graph.pattern = samples.map Shape.isNarrow := by
  obtain ⟨domain, hplan, h⟩ := Checked.bind_eq_ok.1 h
  obtain ⟨hlength, hplan⟩ := Checked.require_bind_eq_ok.1 hplan
  have hflags := Optimizer.broadcastFlags_of_plan hplan
  have hne := (Optimizer.plan_eq_ok.1 hplan).1
  dsimp only at h
  split at h
  · obtain ⟨kernel, -, h⟩ := Checked.bind_eq_ok.1 h
    rw [hflags, Checked.ok_bind, Checked.pure_eq_ok] at h
    subst h
    exact ⟨rfl, rfl, rfl, hlength, hne, rfl⟩
  · obtain ⟨kernel, -, h⟩ := Checked.bind_eq_ok.1 h
    rw [hflags, Checked.ok_bind, Checked.pure_eq_ok] at h
    subst h
    exact ⟨rfl, rfl, rfl, hlength, hne, rfl⟩

/-- A call that is prepared has suited shapes. -/
theorem suits_of_prepared {domain : Domain} {block : ArgumentBlock}
    (hcompile : compiler.compileDynamic program samples = .ok graph)
    (h : graph.Prepared shapes domain block) : Suits program samples shapes := by
  obtain ⟨-, hinputs, -, hsamples, -, hpattern⟩ := pattern_of_compileDynamic hcompile
  have hlength : shapes.length = program.inputs := h.length_shapes.trans hinputs
  obtain ⟨hne, padded, -, -, hpadded, -⟩ := Optimizer.plan_eq_ok.1 h.plan
  refine ⟨hlength, Shape.exists_broadcast_of_padTo hne (Nat.le_max_left _ _) hpadded, ?_, ?_⟩
  · rw [← Optimizer.planRank_eq_tensorRank, ← Optimizer.rank_of_plan h.plan]
    exact h.rank
  · have hflags := h.flags
    rw [Optimizer.broadcastFlags_of_plan h.plan, Except.ok.injEq, hpattern] at hflags
    exact (Shape.map_isNarrow_eq_iff (hlength.trans hsamples.symm)).1 hflags

/-- A call for suited shapes whose extent is in range can be prepared. -/
theorem exists_prepare (hcompile : compiler.compileDynamic program samples = .ok graph)
    (hbytes : Shape.extent (Shape.largest shapes) < 2 ^ 61) (h : Suits program samples shapes) :
    ∃ domain block, graph.prepare shapes = .ok (domain, block) := by
  obtain ⟨-, hinputs, -, hsamples, hne, hpattern⟩ := pattern_of_compileDynamic hcompile
  obtain ⟨master, hmaster⟩ := h.broadcasts
  have hlt := (Shape.extent_le_extent_largest hmaster).trans_lt hbytes
  have hne' : shapes ≠ [] := by
    intro hnil
    apply hne
    rw [← List.length_eq_zero_iff, hsamples, ← h.length, hnil, List.length_nil]
  obtain ⟨domain, hplan⟩ : ∃ domain,
      (Optimizer.ofConfig graph.compiler.config).plan shapes graph.outputs = .ok domain :=
    Optimizer.plan_succeeds_of_extent hne' hmaster (by omega)
  have hplanned := (Optimizer.planned_of_plan hplan).1
  have hextent := Optimizer.extent_le_of_plan hmaster hplan
  obtain ⟨table, htable⟩ := OffsetTable.exists_ofDomain_of_extent hplanned
    (by rw [elementSize]; omega)
  have hrank : domain.rank = tensorRank := by
    rw [Optimizer.rank_of_plan hplan, Optimizer.planRank_eq_tensorRank]
    exact h.rank
  have hflags : shapes.map Shape.isNarrow = graph.pattern := by
    rw [hpattern]
    exact (Shape.map_isNarrow_eq_iff (h.length.trans hsamples.symm)).2 h.narrow
  refine ⟨domain, .ofTable table, ?_⟩
  rw [DynamicSubgraph.prepare, require_eq_ok.2 (h.length.trans hinputs.symm), Checked.ok_bind, hplan,
    Checked.ok_bind, require_eq_ok.2 hrank, Checked.ok_bind, Optimizer.broadcastFlags_of_plan hplan,
    Checked.ok_bind, require_eq_ok.2 hflags, Checked.ok_bind, htable]
  rfl

/-- **A dynamic subgraph accepts exactly the shapes that suit its samples**, whatever the settings are. A
call is prepared if and only if there is one shape for each input, the shapes can be broadcast, none has
more than six dimensions, and the last dimension is one, or missing, in the same inputs as in the samples.
Its block holds the row offset and the five strides of each parameter as the table of the domain has them,
the amounts of work of the domain, and zeros for parameters that the program does not have. Sizes of zero
are allowed; the largest size along each axis, other than zero, multiplied give less than `2 ^ 61`.

**Proof sketch.** A merge never makes a narrow shape wide or a wide one narrow, so that the pattern of a
planned domain is that of its request. All sizes and offsets on the way are bounded by the extent of the
broadcast, so that no other check fails. -/
theorem prepare_accepts_suited_shapes
    (hcompile : compiler.compileDynamic program samples = .ok graph)
    (hbytes : Shape.extent (Shape.largest shapes) < 2 ^ 61) :
    ((∃ domain block, graph.prepare shapes = .ok (domain, block)) ↔ Suits program samples shapes) ∧
      ∀ domain block, graph.prepare shapes = .ok (domain, block) →
        (Optimizer.ofConfig compiler.config).plan shapes program.outputs.length = .ok domain ∧
        ∃ table, OffsetTable.ofDomain domain = .ok table ∧
          block.Holds table program.params domain.tiled := by
  refine ⟨⟨?_, exists_prepare hcompile hbytes⟩, ?_⟩
  · rintro ⟨domain, block, hprepare⟩
    exact suits_of_prepared hcompile (DynamicSubgraph.prepared_of_prepare hprepare)
  · intro domain block hprepare
    have h := DynamicSubgraph.prepared_of_prepare hprepare
    have hsuits := suits_of_prepared hcompile h
    obtain ⟨hcompiler, -, houtputs, -⟩ := pattern_of_compileDynamic hcompile
    obtain ⟨master, hmaster⟩ := hsuits.broadcasts
    have hplan := h.plan
    rw [hcompiler, houtputs] at hplan
    obtain ⟨hplanned, hlength⟩ := Optimizer.planned_of_plan hplan
    have hextent := (Optimizer.extent_le_of_plan hmaster hplan).trans
      (Shape.extent_le_extent_largest hmaster)
    have hparams : domain.params.length = program.params := by
      rw [Domain.params, List.length_append, hlength, hsuits.length, hplanned.outputShapes,
        List.length_replicate, Program.params]
    obtain ⟨table, htable, rfl⟩ := h.block
    refine ⟨hplan, table, htable, ?_⟩
    rw [← hparams]
    exact ArgumentBlock.holds_of_ofDomain hplanned h.rank
      (hparams ▸ program.wellFormed.params_le) (by omega) htable

/-- A kernel for four rows of five is called for two rows of nine, but not for two rows of one. -/
theorem prepare_accepts_suited_shapes_of_rows :
    ∃ graph domain block table,
      Compiler.sample.compileDynamic .shiftedProduct [[4, 5], [5]] = .ok graph ∧
      graph.prepare [[2, 9], [9]] = .ok (domain, block) ∧
      OffsetTable.ofDomain domain = .ok table ∧ block.Holds table 3 domain.tiled ∧
      ¬ ∃ domain block, graph.prepare [[2, 1], [1]] = .ok (domain, block) := by
  obtain ⟨graph, -, -, hcompile, -⟩ := exists_dynamic_of_rows
  have hlength : ∀ a b c d : Shape, [a, b].length = [c, d].length := fun _ _ _ _ => rfl
  have hsuits : Suits .shiftedProduct [[4, 5], [5]] [[2, 9], [9]] :=
    ⟨by decide, ⟨_, rfl⟩, by decide, (Shape.map_isNarrow_eq_iff (hlength _ _ _ _)).1 (by decide)⟩
  have hwide : Shape.extent (Shape.largest [[2, 9], [9]]) < 2 ^ 61 := by decide
  have hsmall : Shape.extent (Shape.largest [[2, 1], [1]]) < 2 ^ 61 := by decide
  obtain ⟨haccepts, hblocks⟩ := prepare_accepts_suited_shapes hcompile hwide
  obtain ⟨domain, block, hprepare⟩ := haccepts.2 hsuits
  obtain ⟨-, table, htable, hholds⟩ := hblocks domain block hprepare
  refine ⟨graph, domain, block, table, hcompile, hprepare, htable, hholds, fun hprepare => ?_⟩
  have hnarrow := ((prepare_accepts_suited_shapes hcompile hsmall).1.1 hprepare).narrow
  rw [← Shape.map_isNarrow_eq_iff (hlength _ _ _ _)] at hnarrow
  revert hnarrow
  decide

end Compiler

end Pointwise
