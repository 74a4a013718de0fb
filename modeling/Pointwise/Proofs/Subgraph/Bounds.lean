import Pointwise.Proofs.Subgraph.Dynamic

/-!
# Kernels stay inside their buffers

A pass of a kernel reads the elements of the inputs that are broadcast to its positions. They belong to
the tensors, whatever their shapes, and a vector of them lies in one row: the data pointers are exact at
every pass, and the input of which more than one element is read moves along the rows.

## Main definitions

* `Domain.LoadsElements` — what may be loaded through the pointer of an input of a given shape.

## Main results

* `Domain.Planned.row_of_moves` — the rows of an input that moves are those of the domain.
* `Compiler.generate_stays_in_bounds` — kernels stay inside their buffers.
-/

set_option autoImplicit false

namespace Pointwise

open Machine

/-- What is loaded through the pointer of an input of a given shape: consecutive elements of its tensor,
which are those for consecutive positions of a row. More than one of them is loaded only if the last
dimension of the planned input is not one, and then they lie in one row of the input. -/
def Domain.LoadsElements (domain : Domain) (program : Program) (shapes : List Shape)
    (outputShape : Shape) (sources : List Address) (q : Register) (count : Nat) (span : Span) : Prop :=
  ∃ (p : Nat) (shape : Shape) (source : Address), program.pointers[p]? = some q ∧
    shapes[p]? = some shape ∧ sources[p]? = some source ∧
    ∃ e, e + count ≤ shape.count ∧ span = ⟨source + BitVec.ofNat 64 (4 * e), 4 * count⟩ ∧
      (∃ f, f + count ≤ domain.elements ∧ f % domain.tiled.inner + count ≤ domain.tiled.inner ∧
        ∀ j < count, Shape.sourcePosition outputShape shape (f + j) = e + j) ∧
      (1 < count → ∃ d, (domain.inputShapes.getD p []).getLast? = some d ∧ d ≠ 1 ∧
        e % d + count ≤ d)

/-- **The rows of an input that moves along them** are those of the domain. -/
theorem Domain.Planned.row_of_moves {domain : Domain} {outputs : Nat} (h : domain.Planned outputs)
    {shape : Shape} (hshape : shape ∈ domain.inputShapes) (hlast : shape.getLast? ≠ some 1) :
    shape.getLast? = some domain.tiled.inner ∧ ∀ f,
      Shape.sourcePosition domain.master shape f % domain.tiled.inner = f % domain.tiled.inner := by
  have hfits := h.fits shape hshape
  rw [h.master_eq] at hfits
  obtain ⟨front, back, rfl, hfront, hback⟩ := hfits.of_append
  cases hback with
  | cons hd hnil =>
    cases hnil
    rw [List.getLast?_concat, ne_eq, Option.some_inj] at hlast
    obtain rfl := hd.resolve_left hlast
    refine ⟨List.getLast?_concat, fun f => ?_⟩
    rw [h.master_eq, Shape.sourcePosition_concat hfront.length_eq, if_neg hlast, Nat.mul_add_mod',
      Nat.mod_mod]

section Plan

variable {domain : Domain} {limits : Optimizer} {program : Program} {shapes : List Shape}
  {outputShape : Shape} {flags : List Bool} {w : VectorWidth} {sources targets : List Address}

/-- **What a computation loads** belongs to the tensors of the given shapes. -/
theorem Domain.PlannedFor.loadsElements (h : domain.PlannedFor limits program shapes outputShape)
    (hflags : domain.broadcastFlags = .ok flags) (hsources : sources.length = shapes.length)
    {q : Register} {count : Nat} {span : Span}
    (hloads : Computation.LoadsFrom ⟨program, domain, flags, w, sources, targets⟩ q count span) :
    domain.LoadsElements program shapes outputShape sources q count span := by
  obtain ⟨p, hp, hq, hmoves, f, hle, hrow, helement, rfl⟩ := hloads
  dsimp only at hp
  have hlen := h.length_shapes
  have hshape : shapes[p]? = some (shapes.getD p []) := by
    rw [List.getD_eq_getElem?_getD, List.getElem?_eq_getElem (by omega), Option.getD_some]
  have hsource : sources[p]? = some (sources.getD p 0) := by
    rw [List.getD_eq_getElem?_getD, List.getElem?_eq_getElem (by omega), Option.getD_some]
  have hlt := Shape.sourcePosition_lt_count h.broadcast h.pos (List.mem_of_getElem? hshape)
  have hposition : ∀ f, Computation.element ⟨program, domain, flags, w, sources, targets⟩ p f =
      Shape.sourcePosition outputShape (shapes.getD p []) f := h.element_eq hp
  refine ⟨p, _, _, hq, hshape, hsource,
    Computation.element ⟨program, domain, flags, w, sources, targets⟩ p f, ?_, ?_,
    ⟨f, hle, hrow, fun j hj => ?_⟩, fun hcount => ?_⟩
  · cases count with
    | zero => exact hposition f ▸ (hlt f).le
    | succ n =>
      have hlast := hlt (f + n)
      rw [← hposition, helement n (Nat.lt_succ_self n)] at hlast
      omega
  · rw [Computation.place, Computation.base, if_pos hp]
  · rw [← hposition, helement j hj]
  · -- more than one element: the input moves along the rows
    have hplanned : domain.inputShapes[p]? =
        some (Computation.shape ⟨program, domain, flags, w, sources, targets⟩ p) := h.shape_input hp
    have hlast := OffsetTable.moves_of_broadcastFlags hflags hplanned
    rw [hmoves hcount, eq_comm, decide_eq_true_eq] at hlast
    obtain ⟨hinner, hmod⟩ := h.planned.row_of_moves (List.mem_of_getElem? hplanned) hlast
    refine ⟨domain.tiled.inner, ?_, fun hone => hlast (hone ▸ hinner), ?_⟩
    · rw [List.getD_eq_getElem?_getD, hplanned, Option.getD_some, hinner]
    · rw [Computation.element, hmod]
      exact hrow

end Plan

/-- **Kernels stay inside their buffers.** Whichever of the calls for a planned domain with elements is
made, at a site apart from the tensors and from any state in which the kernel is called, it returns. Until
then it saves registers to its frame; it computes one data pointer after the other, for which it reads
entries of the index vector for the dimensions in front of the last, and those words of the argument block
that are filled in for the parameter; and it processes the rows, where it accesses the elements of the
tensors through their pointers.

**Proof sketch.** The data pointers stand where the parameters have their elements for the positions of
a pass. Those of an input are given by the planned domain as by the given shapes, and follow each other
along a row. -/
theorem Compiler.generate_stays_in_bounds {compiler : Compiler} {limits : Optimizer} {program : Program}
    {sample domain : Domain} {mode : KernelMode} {shapes : List Shape} {outputShape : Shape}
    {code : Code} {block : ArgumentBlock}
    (hplan : domain.PlannedFor limits program shapes outputShape)
    (hcovers : mode.Covers sample domain block)
    (hcode : compiler.generate program sample mode = .ok code) (maxTasks : Nat) :
    ∃ calls, Dispatch.tasks domain.callShape maxTasks = .ok calls ∧
      ∀ index ∈ calls.flatten, ∀ (site : CallSite) (sources targets : List Address) (s : MachineState),
        Placed shapes program.outputs.length outputShape domain.callShape.dropLast.length site sources
          targets →
        site.Called index (block.withPointers sources targets) s →
        (∃ t, Machine.run code (KernelImage.stepBound ⟨code⟩ domain.tiled) 0 s = some t) ∧
        site.Phases program.params (site.AdmitsPointer mode program (domain.rank - 1))
          (site.AdmitsRow mode program (domain.LoadsElements program shapes outputShape sources)
            (program.StoresTo targets domain.elements))
          (visited code (KernelImage.stepBound ⟨code⟩ domain.tiled) 0 s) := by
  obtain ⟨w, flags, -, hflags, hcomputes⟩ := hcovers.computesIn hcode
  obtain ⟨calls, htasks, -, -, hflatten⟩ := hplan.tasks_eq maxTasks
  refine ⟨calls, htasks, fun index hindex site sources targets s hplaced hcalled => ?_⟩
  obtain ⟨call, hcall, rfl⟩ := List.mem_map.1 (hflatten ▸ hindex)
  have hvalid := hplaced.valid hplan (w := w) hflags
  have hperforms := hcomputes sources targets hvalid site _ s call (hplaced.hosts hplan) hcalled
    (Computation.finds_inputOf _ _ _ _) (List.mem_range.1 hcall)
  obtain ⟨-, t, -, -, hrun, -⟩ := hperforms.passes
  obtain ⟨saves, pointers, rows, htrace, hsaves, hpointers, hrows⟩ := hperforms.phases
  have hdims : domain.callShape.dropLast.length = domain.rank - 1 := by
    rw [hplan.planned.length_callShape.1, Domain.rowDims, List.length_dropLast, Domain.rank]
  refine ⟨⟨t, hrun⟩, saves, pointers, rows, htrace, hsaves, hdims ▸ hpointers, fun x hx span hspan => ?_⟩
  exact (hrows x hx span hspan).mono fun q count hloads =>
    hplan.loadsElements hflags hplaced.length_sources hloads

/-- A prepared call is covered by the kernel of its subgraph. -/
theorem DynamicSubgraph.Prepared.covers {graph : DynamicSubgraph} {shapes : List Shape}
    {sample domain : Domain} {block : ArgumentBlock} (h : graph.Prepared shapes domain block)
    (hsample : sample.broadcastFlags = .ok graph.pattern) :
    KernelMode.dynamic.Covers sample domain block := by
  obtain ⟨table, htable, rfl⟩ := h.block
  exact .dynamic hsample h.flags h.rank htable

/-- A kernel for four rows of five, called for two rows of nine. -/
theorem Compiler.generate_stays_in_bounds_of_rows :
    ∃ dynamic image domain block calls,
      Compiler.sample.compileDynamic .shiftedProduct [[4, 5], [5]] = .ok dynamic ∧
      dynamic.kernel = .ok image ∧ dynamic.prepare [[2, 9], [9]] = .ok (domain, block) ∧
      Dispatch.tasks domain.callShape 4 = .ok calls ∧ calls.flatten.length = 2 ∧
      ∀ index ∈ calls.flatten, ∀ found,
        Buffers.callSite.Phases 3 (Buffers.callSite.AdmitsPointer .dynamic .shiftedProduct 5)
          (Buffers.callSite.AdmitsRow .dynamic .shiftedProduct
            (domain.LoadsElements .shiftedProduct [[2, 9], [9]] [2, 9] [0x100000000, 0x100000048])
            (Program.shiftedProduct.StoresTo [0x10000006c] 18))
          (visited image.code (image.stepBound domain.tiled) 0 (Buffers.callSite.start found
            (Memory.empty.writeWords Buffers.callSite.block
              (block.withPointers [0x100000000, 0x100000048] [0x10000006c]).words) index)) := by
  obtain ⟨dynamic, domain, block, hdynamic, hoptimized, hprepare, hshape⟩ := exists_dynamic_of_rows
  obtain ⟨image, hkernel⟩ := DynamicSubgraph.exists_kernel hoptimized
  have hgraph := optimized_of_compileDynamic hdynamic hkernel
  have hprepared := DynamicSubgraph.prepared_of_prepare hprepare
  obtain ⟨sample, hsample, hcode⟩ := hgraph.code
  have hplan : domain.PlannedFor (Optimizer.ofConfig Compiler.sample.config) .shiftedProduct
      [[2, 9], [9]] [2, 9] := hprepared.plannedFor hgraph rfl (by decide)
  have hplaced : Placed [[2, 9], [9]] 1 [2, 9] domain.callShape.dropLast.length Buffers.callSite
      [0x100000000, 0x100000048] [0x10000006c] := by
    refine Buffers.suit_of_rows.placed ?_
    rw [hshape]
    decide
  obtain ⟨calls, hcalls, hbounds⟩ := generate_stays_in_bounds hplan (hprepared.covers hsample) hcode 4
  refine ⟨dynamic, image, domain, block, calls, hdynamic, hkernel, hprepare, hcalls, ?_,
    fun index hindex found => ?_⟩
  · have htwo : (Dispatch.tasks [1, 1, 1, 1, 2, 1] 4).map (·.flatten.length) = .ok 2 := by decide
    rw [← hshape, hcalls] at htwo
    exact Except.ok.inj htwo
  · have hrank : domain.rank - 1 = 5 := by
      rw [hprepared.rank]
      rfl
    have helements : domain.elements = 18 := hplan.elements
    have hlength := hplan.length_of_mem_tasks hcalls hindex
    have hinside := (hbounds index hindex _ _ _ _ hplaced
      ((hlength ▸ hplaced.clear).called_start found _ .empty)).2
    rwa [hrank, helements] at hinside

end Pointwise
