import Pointwise.Proofs.Kernel.Convention
import Pointwise.Proofs.Kernel.Share
import Pointwise.Proofs.Subgraph.Dynamic

/-!
# Kernels keep to the calling convention

Whoever calls a kernel has to provide for little: the stack pointer and the two arguments in their
registers, the index vector and the argument block in memory, and outputs that do not overlap these, each
other or the words on the stack. Wherever the inputs lie and whatever else registers and memory hold, the
kernel returns and gives back what belongs to its caller.

## Main definitions

* `CallSite.stackSpan` — the words of a call on the stack.
* `CallSite.Isolated` — words on the stack, arguments and outputs that do not overlap.

## Main results

* `Compiler.generate_keeps_convention` — kernels keep to the calling convention.
-/

set_option autoImplicit false

namespace Pointwise

open Machine

/-- The words of a call on the stack: the return address, and the frame below it. -/
def CallSite.stackSpan (site : CallSite) : Span := ⟨site.stack - 48, 56⟩

/-- The words of a call on the stack, its index vector for a number of dimensions, its argument block and
outputs that do not overlap each other. -/
def CallSite.Isolated (site : CallSite) (dims : Nat) (outputs : List Span) : Prop :=
  (site.stackSpan :: site.indexSpan dims :: site.blockSpan :: outputs).Pairwise Span.Disjoint

/-- The frame lies below the return address. -/
theorem CallSite.frame_within (site : CallSite) : site.frame.Within site.stackSpan :=
  Span.within_of_length_le (by decide)

/-- The return address lies above the frame. -/
theorem CallSite.return_within (site : CallSite) :
    Span.Within ⟨site.stack, 8⟩ site.stackSpan ∧ site.frame.Disjoint ⟨site.stack, 8⟩ := by
  have hstack : site.stack = site.stack - 48 + BitVec.ofNat 64 48 :=
    (BitVec.sub_add_cancel site.stack 48).symm
  have hframe : Span.Disjoint ⟨site.stack - 48 + BitVec.ofNat 64 0, 48⟩
      ⟨site.stack - 48 + BitVec.ofNat 64 48, 8⟩ := Span.disjoint_of_le (by decide) (by decide)
  rw [BitVec.add_zero, ← hstack] at hframe
  refine ⟨?_, hframe⟩
  conv_lhs => rw [hstack]
  exact Span.within_of_le (by decide)

/-- What is apart from the words on the stack is apart from the frame. -/
theorem CallSite.Isolated.clear {site : CallSite} {dims : Nat} {outputs : List Span}
    (h : site.Isolated dims outputs) : site.Clear dims outputs := by
  obtain ⟨hstack, hrest⟩ := List.pairwise_cons.1 h
  exact List.pairwise_cons.2 ⟨fun span hspan => (hstack span hspan).mono site.frame_within (.refl _), hrest⟩

/-- The arguments of a call and its return address are apart from what it writes. -/
theorem CallSite.Isolated.disjoint {site : CallSite} {dims : Nat} {outputs : List Span}
    (h : site.Isolated dims outputs) {span outer : Span}
    (hspan : span ∈ [site.indexSpan dims, site.blockSpan, ⟨site.stack, 8⟩])
    (houter : outer ∈ site.frame :: outputs) : span.Disjoint outer := by
  simp only [Isolated, List.pairwise_cons, List.forall_mem_cons] at h
  obtain ⟨⟨hindex, hblock, hstack⟩, ⟨-, hindexOutputs⟩, hblockOutputs, -⟩ := h
  obtain ⟨hreturn, hframe⟩ := site.return_within
  rw [List.mem_cons, List.mem_pair] at hspan
  rcases List.mem_cons.1 houter with rfl | houter
  · rcases hspan with rfl | rfl | rfl
    · exact (hindex.mono site.frame_within (.refl _)).symm
    · exact (hblock.mono site.frame_within (.refl _)).symm
    · exact hframe.symm
  · rcases hspan with rfl | rfl | rfl
    · exact hindexOutputs outer houter
    · exact hblockOutputs outer houter
    · exact (hstack outer houter).mono hreturn (.refl _)

section Plan

variable {domain : Domain} {limits : Optimizer} {program : Program} {shapes : List Shape}
  {outputShape : Shape} {flags : List Bool} {w : VectorWidth} {site : CallSite} {dims : Nat}
  {sources targets : List Address}
  (h : domain.PlannedFor limits program shapes outputShape)
  (hapart : site.Isolated domain.callShape.dropLast.length (outputSpans targets outputShape.count))
include h hapart

/-- A computation with outputs apart from the words on the stack is a proper one, wherever its inputs
lie. -/
theorem Domain.PlannedFor.proper (hlength : targets.length = program.outputs.length)
    (hflags : domain.broadcastFlags = .ok flags) :
    Computation.Proper ⟨program, domain, flags, w, sources, targets⟩ :=
  hapart.clear.proper h hlength hflags

/-- The bytes of its calls do not get in each other's way. -/
theorem Domain.PlannedFor.separates :
    Computation.Separates ⟨program, domain, flags, w, sources, targets⟩ site :=
  hapart.clear.separates h

end Plan

/-- **Kernels keep to the calling convention.** Whichever of the calls for a planned domain with elements is
made, with outputs, index vector, argument block and the words on the stack apart from each other, the kernel
comes to the `ret` at its end within a bounded number of steps. It then has given back the stack pointer and
the registers of its caller, has written to nothing but the outputs and its frame, and has named the stack
pointer only to push these registers and to pop them again. In particular the index vector, the argument
block and the return address are as they were.

**Proof sketch.** The code between the saves and the restores walks through the share of the call from every
state, as it depends on nothing but the arguments. It stores to the outputs only, and keeps the stack
pointer, so that the restores find what has been saved. -/
theorem Compiler.generate_keeps_convention {compiler : Compiler} {limits : Optimizer} {program : Program}
    {sample domain : Domain} {mode : KernelMode} {shapes : List Shape} {outputShape : Shape}
    {code : Code} {block : ArgumentBlock}
    (hplan : domain.PlannedFor limits program shapes outputShape)
    (hcovers : mode.Covers sample domain block)
    (hcode : compiler.generate program sample mode = .ok code) (maxTasks : Nat) :
    ∃ calls, Dispatch.tasks domain.callShape maxTasks = .ok calls ∧
      ∀ index ∈ calls.flatten, ∀ (site : CallSite) (sources targets : List Address) (s : MachineState),
        targets.length = program.outputs.length →
        site.Isolated domain.callShape.dropLast.length (outputSpans targets outputShape.count) →
        site.Called index (block.withPointers sources targets) s →
        ∃ trace t, site.Conforms code (outputSpans targets outputShape.count) s trace t ∧
          run code (KernelImage.stepBound ⟨code⟩ domain.tiled) 0 s = some t ∧
          ∀ span ∈ [site.indexSpan domain.callShape.dropLast.length, site.blockSpan, ⟨site.stack, 8⟩],
            ∀ a, span.Covers a → t.memory.read a = s.memory.read a := by
  obtain ⟨w, flags, body, -, hflags, rfl, hwalks⟩ := hcovers.walksIn hcode
  obtain ⟨calls, htasks, -, -, hflatten⟩ := hplan.tasks_eq maxTasks
  refine ⟨calls, htasks, fun index hindex site sources targets s hlength hapart hcalled => ?_⟩
  obtain ⟨call, hcall, rfl⟩ := List.mem_map.1 (hflatten ▸ hindex)
  have hcall := List.mem_range.1 hcall
  have hproper : Computation.Proper ⟨program, domain, flags, w, sources, targets⟩ :=
    hplan.proper hapart hlength hflags
  have hseparates : Computation.Separates ⟨program, domain, flags, w, sources, targets⟩ site :=
    hplan.separates hapart
  have hprovides := fun p => hseparates.provides (Shape.length_unravel _ call) hcalled mode p
  obtain ⟨kept, hkept, hwalked⟩ := hwalks sources targets hproper site call _ hseparates hcall
    hcalled.begins.pushed.1 hprovides
  obtain ⟨trace, t, hconforms, hsteps⟩ := hwalked.conforms hcalled.begins hkept
    (Computation.share_le hproper hcall) hseparates.frame_targets (rsp_not_mem_of_generate hcode)
  have hbound := Computation.steps_le body domain.tiled.outer domain.tiled.inner
  have houtputs : outputSpans targets outputShape.count =
      targets.map fun target => ⟨target, 4 * domain.elements⟩ := by rw [outputSpans, hplan.elements]
  rw [houtputs] at hapart ⊢
  refine ⟨trace, t, hconforms, (hconforms.path.done hconforms.ret (hsteps.trans hbound)).1,
    fun span hspan a ha => hconforms.read fun outer houter hcovers => ?_⟩
  exact hapart.disjoint hspan houter a ha hcovers

/-- Both kernels for two rows of nine, called for these. -/
theorem Compiler.generate_keeps_convention_of_rows :
    ∃ domain table,
      (Optimizer.ofConfig Compiler.sample.config).plan [[2, 9], [9]] 1 = .ok domain ∧
      OffsetTable.ofDomain domain = .ok table ∧ ∀ mode ∈ [KernelMode.static table, .dynamic],
        ∃ code, Compiler.sample.generate .shiftedProduct domain mode = .ok code ∧
          ∀ index ∈ [[0, 0, 0, 0, 0], [0, 0, 0, 0, 1]], ∀ found, ∃ trace t,
            Buffers.callSite.Conforms code (outputSpans [0x10000006c] 18)
              (Buffers.callSite.start found (Memory.empty.writeWords Buffers.callSite.block
                ((ArgumentBlock.ofTable table).withPointers [0x100000000, 0x100000048]
                  [0x10000006c]).words) index) trace t := by
  have hall : (do
      let domain ← (Optimizer.ofConfig Compiler.sample.config).plan [[2, 9], [9]] 1
      let table ← OffsetTable.ofDomain domain
      let flags ← domain.broadcastFlags
      let _ ← Compiler.sample.generate .shiftedProduct domain (.static table)
      let _ ← Compiler.sample.generate .shiftedProduct domain .dynamic
      return (domain.callShape, domain.rank, flags)).toOption =
        some ([1, 1, 1, 1, 2, 1], 6, [false, false]) := by decide +kernel
  rw [Checked.toOption_eq_some] at hall
  obtain ⟨domain, hplan, hall⟩ := Checked.bind_eq_ok.1 hall
  obtain ⟨table, htable, hall⟩ := Checked.bind_eq_ok.1 hall
  obtain ⟨flags, hflags, hall⟩ := Checked.bind_eq_ok.1 hall
  obtain ⟨static, hstatic, hall⟩ := Checked.bind_eq_ok.1 hall
  obtain ⟨dynamic, hdynamic, hall⟩ := Checked.bind_eq_ok.1 hall
  obtain ⟨hshape, hrank, -⟩ := by simpa using Checked.pure_eq_ok.1 hall
  have hplanned : domain.PlannedFor (Optimizer.ofConfig Compiler.sample.config) .shiftedProduct
      [[2, 9], [9]] [2, 9] := ⟨rfl, rfl, by decide, hplan⟩
  have hcovers : ∀ mode ∈ [KernelMode.static table, .dynamic],
      mode.Covers domain domain (.ofTable table) ∧
        ∃ code, Compiler.sample.generate .shiftedProduct domain mode = .ok code := by
    intro mode hmode
    rcases List.mem_pair.1 hmode with rfl | rfl
    · exact ⟨.static htable _, static, hstatic⟩
    · exact ⟨.dynamic hflags hflags hrank htable, dynamic, hdynamic⟩
  have htasks : Dispatch.tasks domain.callShape 4 = .ok [[[0, 0, 0, 0, 0]], [[0, 0, 0, 0, 1]]] := by
    rw [hshape]
    decide
  have hbefore : (Buffers.callSite.stackSpan :: Buffers.callSite.indexSpan 5 ::
      Buffers.callSite.blockSpan :: outputSpans [0x10000006c] 18).Pairwise
        fun x y => x.Before y ∨ y.Before x := by decide
  have hapart : Buffers.callSite.Isolated 5 (outputSpans [0x10000006c] 18) :=
    hbefore.imp Span.Before.disjoint
  refine ⟨domain, table, hplan, htable, fun mode hmode => ?_⟩
  obtain ⟨hcovers, code, hcode⟩ := hcovers mode hmode
  obtain ⟨calls, hcalls, hconvention⟩ := generate_keeps_convention hplanned hcovers hcode 4
  obtain rfl := Except.ok.inj (htasks.symm.trans hcalls)
  rw [hshape] at hconvention
  refine ⟨code, hcode, fun index hindex found => ?_⟩
  have hlength : index.length = 5 := by
    rcases List.mem_pair.1 hindex with rfl | rfl <;> rfl
  obtain ⟨trace, t, hconforms, -⟩ := hconvention index hindex Buffers.callSite
    [0x100000000, 0x100000048] [0x10000006c] _ rfl hapart
    ((hlength ▸ hapart).clear.called_start found _ .empty)
  exact ⟨trace, t, hconforms⟩

end Pointwise
