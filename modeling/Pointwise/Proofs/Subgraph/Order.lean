import Pointwise.Proofs.Dispatch.Interleaving
import Pointwise.Proofs.Subgraph.Static

/-!
# The order of calls does not matter

The calls of a kernel share the outputs among them: each byte of an output is written by one store of one
call. However the calls are shared among tasks, and in whatever order the tasks take turns, the outputs
are those of a single task.

## Main definitions

* `CallSite.Together` — the sites of tasks that run at the same time.
* `Launch` — such tasks on tensors in memory.

## Main results

* `Launch.written` — tasks write the values of the program.
* `Compiler.calls_in_any_order` — the order of calls does not matter.
-/

set_option autoImplicit false

namespace Pointwise

open Machine

/-- The sites of tasks that run at the same time. They share the argument block, and each has a stack and
an index vector of its own. -/
structure CallSite.Together (site : Nat → CallSite) (block : Address) (dims tasks : Nat) : Prop where
  block : ∀ i < tasks, (site i).block = block
  apart : ∀ i < tasks, ∀ j < tasks, i ≠ j → (site i).Apart dims (site j)

/-! ## Tasks on tensors -/

/-- Tasks that run at the same time on tensors in memory. -/
structure Launch where
  /-- The stack and the index vector of each task. -/
  site : (task : Nat) → CallSite
  /-- Where the argument block is, which they share. -/
  argument : Address
  sources : List Address
  targets : List Address
  memory : Memory
  /-- What the calls find in the registers. -/
  found : Residue

namespace Launch

/-- The computation of a program on the tensors. -/
abbrev computation (launch : Launch) (program : Program) (domain : Domain) (flags : List Bool)
    (w : VectorWidth) : Computation :=
  ⟨program, domain, flags, w, launch.sources, launch.targets⟩

/-- The memory in which the tasks begin: the argument block is written. -/
def start (launch : Launch) (block : ArgumentBlock) : Memory :=
  launch.memory.writeWords launch.argument (block.withPointers launch.sources launch.targets).words

variable {domain : Domain} {limits : Optimizer} {program : Program} {shapes : List Shape}
  {outputShape : Shape} {flags : List Bool} {w : VectorWidth} {code : Code} {block : ArgumentBlock}
  {calls : List (List (List Nat))} {maxTasks : Nat}

/-- **Tasks write the values of the program** for the inputs with which they begin, and they do so after
enough turns of each of them. -/
theorem written (h : domain.PlannedFor limits program shapes outputShape) (launch : Launch)
    (hcode : (launch.computation program domain flags w).Computes code
      (block.withPointers launch.sources launch.targets))
    (hplace : (launch.computation program domain flags w).InPlace)
    (hcalls : Dispatch.tasks domain.callShape maxTasks = .ok calls)
    (htogether : CallSite.Together launch.site launch.argument domain.callShape.dropLast.length calls.length)
    (hhosts : ∀ i < calls.length, (launch.computation program domain flags w).Hosts (launch.site i))
    {turns : List Nat} {threads : List Thread} {memory : Memory}
    (hturns : Thread.interleave code turns (Dispatch.threads launch.site launch.found calls)
      (launch.start block) = (threads, memory)) :
    ((∀ (i : Nat) (task : List (List Nat)), calls[i]? = some task →
        task.length * (KernelImage.stepBound ⟨code⟩ domain.tiled + 1) ≤ turns.count i) →
      ∀ thread ∈ threads, thread.Finished) ∧
    ((∀ thread ∈ threads, thread.Finished) → program.Written w.lanes domain.tiled.inner outputShape shapes
      launch.sources launch.targets launch.memory memory) := by
  obtain ⟨all, hall, hcount, hshares, -⟩ := h.tasks_eq maxTasks
  obtain rfl := Except.ok.inj (hall.symm.trans hcalls)
  have hlength : all.length = Dispatch.taskCount domain.callShape maxTasks := by
    rw [hshares, List.length_map, List.length_range]
  rw [hlength] at htogether hhosts
  have htasks : (launch.computation program domain flags w).Tasks
      (block.withPointers launch.sources launch.targets) launch.site _ _ _ _ := {
    hosts := hhosts
    ready := fun i hi => by
      have hready := Computation.ready_writeWords (hhosts i hi)
        (fun p hp f _ => h.readNumber_place launch.memory hp f)
        (block.withPointers launch.sources launch.targets)
      rwa [htogether.block i hi] at hready
    block := fun i hi j hj => (htogether.block i hi).trans (htogether.block j hj).symm
    apart := htogether.apart
    mono := Dispatch.bound_mono _ _
    zero := Dispatch.bound_zero _ _
    last := Dispatch.bound_tasks hcount }
  obtain ⟨henough, hvalues⟩ := htasks.interleave_of_inPlace hcode hplace turns (hshares ▸ hturns)
  refine ⟨fun hcounts => henough fun i hi => ?_, fun hfinished => h.written (hvalues hfinished)⟩
  have htask := hcounts i _ (by rw [hshares, List.getElem?_map, List.getElem?_range hi]; rfl)
  rwa [Dispatch.share, Dispatch.callsFrom, List.length_map, List.length_range'] at htask

end Launch

/-- **The order of calls does not matter.** The calls for a planned domain with elements share each output
among them, wherever each of them is made and from whatever state in which the kernel is called. Tasks that
make these calls come to their ends if each of them has enough turns, in whatever order they take them; and
the outputs then are those of a single task, whatever the calls of either find in the registers.

**Proof sketch.** A call writes its share of the positions, each once, and bytes of its own; the shares
follow each other. A task therefore reads nothing that another one writes, so that it does the same as if
it were alone. -/
theorem Compiler.calls_in_any_order {compiler : Compiler} {limits : Optimizer} {program : Program}
    {domain : Domain} {shapes : List Shape} {outputShape : Shape} {code : Code} {block : ArgumentBlock}
    (hplan : domain.PlannedFor limits program shapes outputShape)
    (hcode : compiler.Generates program domain code block) (sources targets : List Address)
    (maxTasks : Nat) :
    ∃ calls, Dispatch.tasks domain.callShape maxTasks = .ok calls ∧
      Dispatch.tasks domain.callShape 1 = .ok [calls.flatten] ∧
      (∀ (site : List Nat → CallSite) (s : List Nat → MachineState),
        (∀ index ∈ calls.flatten, Placed shapes program.outputs.length outputShape
          domain.callShape.dropLast.length (site index) sources targets) →
        (∀ index ∈ calls.flatten,
          (site index).Called index (block.withPointers sources targets) (s index)) →
        Shares targets domain.elements calls.flatten (fun index => (site index).frame)
          fun index => KernelImage.stores ⟨code⟩ domain.tiled (s index)) ∧
      ∀ (site : Nat → CallSite) (single : CallSite) (found found' : Residue) (memory : Memory)
          (turns : List Nat) (threads : List Thread) (memory' : Memory),
        CallSite.Together site single.block domain.callShape.dropLast.length calls.length →
        (∀ i < calls.length, Placed shapes program.outputs.length outputShape
          domain.callShape.dropLast.length (site i) sources targets) →
        Placed shapes program.outputs.length outputShape domain.callShape.dropLast.length single sources
          targets →
        Thread.interleave code turns (Dispatch.threads site found calls) (memory.writeWords single.block
          (block.withPointers sources targets).words) = (threads, memory') →
        ((∀ (i : Nat) (task : List (List Nat)), calls[i]? = some task →
            task.length * (KernelImage.stepBound ⟨code⟩ domain.tiled + 1) ≤ turns.count i) →
          ∀ thread ∈ threads, thread.Finished) ∧
        ((∀ thread ∈ threads, thread.Finished) →
          ∃ memory₁, KernelImage.callAll ⟨code⟩ domain.tiled single found'
              (block.withPointers sources targets) calls.flatten memory = .ok memory₁ ∧
            ∀ target ∈ targets, ∀ f < domain.elements,
              memory'.readNumber (target + BitVec.ofNat 64 (4 * f)) =
                memory₁.readNumber (target + BitVec.ofNat 64 (4 * f))) := by
  obtain ⟨w, flags, -, hflags, hcomputes⟩ := hcode.computes
  obtain ⟨calls, htasks, -, -, hflatten⟩ := hplan.tasks_eq maxTasks
  refine ⟨calls, htasks, hplan.single_task htasks, fun site s hplaced hcalled => ?_, ?_⟩
  · have hmem : ∀ call < Shape.count domain.callShape.dropLast,
        Shape.unravel domain.callShape.dropLast call ∈ calls.flatten := fun call hcall =>
      hflatten ▸ List.mem_map_of_mem (List.mem_range.2 hcall)
    have hvalid := (hplaced _ (hmem 0 (hplan.tasks_pos htasks).2.1)).valid hplan (w := w) hflags
    rw [hflatten]
    exact (hcomputes sources targets hvalid).shares hvalid
      (fun call hcall => (hplaced _ (hmem call hcall)).hosts hplan)
      fun call hcall => hcalled _ (hmem call hcall)
  · intro site single found found' memory turns threads memory' htogether hplaced hsingle hturns
    have hvalid := hsingle.valid hplan (w := w) hflags
    have hcode := hcomputes sources targets hvalid
    obtain ⟨henough, hwritten⟩ := Launch.written hplan
      ⟨site, single.block, sources, targets, memory, found⟩ hcode hvalid.inPlace htasks htogether
      (fun i hi => (hplaced i hi).hosts hplan) hturns
    refine ⟨henough, fun hfinished => ?_⟩
    obtain ⟨all, memory₁, hall, hcall, hwritten₁⟩ := hsingle.callAll hplan hflags hcode maxTasks memory found'
    obtain rfl := Except.ok.inj (hall.symm.trans htasks)
    refine ⟨memory₁, hcall, fun target htarget f hf => ?_⟩
    obtain ⟨o, ho⟩ := List.mem_iff_getElem?.1 htarget
    obtain ⟨hlt, -⟩ := List.getElem?_eq_some_iff.1 ho
    exact (hwritten hfinished).readNumber_eq hplan.length_shapes hplan.broadcast hplan.pos hwritten₁
      (fun _ _ _ _ _ => rfl) (hsingle.length_targets ▸ hlt) ho ho (hplan.elements ▸ hf)

/-- The sites of tasks with a page for the stack and for the index vector of each. -/
def CallSite.ofTask (i : Nat) : CallSite where
  stack := BitVec.ofNat 64 (0x100000 + 0x1000 * i)
  block := 0x200000
  index := BitVec.ofNat 64 (0x300000 + 0x1000 * i)

/-- Four tasks with a page for the stack and for the index vector of each can run at the same time. -/
theorem CallSite.together_ofTask : CallSite.Together .ofTask 0x200000 5 4 := by
  have hapart : ∀ i < 4, ∀ j < 4, i = j ∨
      ∀ span ∈ [(CallSite.ofTask i).frame, (CallSite.ofTask i).indexSpan 5],
        ∀ span' ∈ [(CallSite.ofTask j).frame, (CallSite.ofTask j).indexSpan 5],
          span.Before span' ∨ span'.Before span := by decide
  exact ⟨fun i _ => rfl, fun i hi j hj hij span hspan span' hspan' =>
    Span.Before.disjoint ((hapart i hi j hj).resolve_left hij span hspan span' hspan')⟩

/-- There is a kernel for two by three planes, which is called once for each of them. -/
theorem Compiler.exists_static_of_planes :
    ∃ graph, Compiler.sample.compile .shiftedProduct [[2, 3, 2, 9], [3, 1, 9]] = .ok graph ∧
      graph.isOptimized = true ∧ graph.domain.callShape = [1, 1, 2, 3, 1, 1] := by
  have hall : (Compiler.sample.compile .shiftedProduct [[2, 3, 2, 9], [3, 1, 9]]).toOption.map
      (fun graph => (graph.isOptimized, graph.domain.callShape)) =
        some (true, [1, 1, 2, 3, 1, 1]) := by decide +kernel
  obtain ⟨graph, hcompile, hall⟩ := Option.map_eq_some_iff.1 hall
  obtain ⟨hkernel, hshape⟩ := Prod.mk.inj hall
  exact ⟨graph, Checked.toOption_eq_some.1 hcompile, hkernel, hshape⟩

/-- Planes of two rows of nine and what is broadcast to them lie apart from these tasks. -/
theorem Placed.of_planes {i : Nat} (hi : i < 4) : Placed [[2, 3, 2, 9], [3, 1, 9]] 1 [2, 3, 2, 9] 5
    (.ofTask i) [0x100000000, 0x1000001b0] [0x10000021c] := by
  refine .of_before rfl rfl ?_ ?_
  · revert i
    decide
  · revert i
    decide

/-- Six calls for two rows of nine each, shared among four tasks. -/
theorem Compiler.calls_in_any_order_of_rows :
    ∃ graph image calls, Compiler.sample.compile .shiftedProduct [[2, 3, 2, 9], [3, 1, 9]] = .ok graph ∧
      graph.kernel = .ok image ∧ Dispatch.tasks graph.domain.callShape 4 = .ok calls ∧
      calls.map List.length = [2, 2, 1, 1] ∧
      (∀ found : Residue, Shares [0x10000021c] graph.domain.elements calls.flatten
        (fun _ => (CallSite.ofTask 0).frame)
        fun index => image.stores graph.domain.tiled ((CallSite.ofTask 0).start (found index)
          (Memory.empty.writeWords 0x200000 (ArgumentBlock.empty.withPointers [0x100000000, 0x1000001b0]
            [0x10000021c]).words) index)) ∧
      ∀ (found found' : Residue) (turns : List Nat) (threads : List Thread) (memory : Memory),
        Thread.interleave image.code turns (Dispatch.threads .ofTask found calls) (Memory.empty.writeWords
          0x200000 (ArgumentBlock.empty.withPointers [0x100000000, 0x1000001b0]
            [0x10000021c]).words) = (threads, memory) →
        (∀ thread ∈ threads, thread.Finished) →
        ∃ memory₁, image.callAll graph.domain.tiled (.ofTask 0) found'
            (ArgumentBlock.empty.withPointers [0x100000000, 0x1000001b0] [0x10000021c])
            calls.flatten .empty = .ok memory₁ ∧
          ∀ f < graph.domain.elements,
            memory.readNumber (0x10000021c + BitVec.ofNat 64 (4 * f)) =
              memory₁.readNumber (0x10000021c + BitVec.ofNat 64 (4 * f)) := by
  obtain ⟨graph, hcompile, hkernel, hshape⟩ := exists_static_of_planes
  obtain ⟨image, himage⟩ := StaticSubgraph.exists_kernel hkernel
  have h := optimized_of_compile hcompile himage
  have houtput : graph.outputShape = [2, 3, 2, 9] := Except.ok.inj (h.outputShape.symm.trans rfl)
  have hplan := h.plannedFor (by simp [houtput])
  obtain ⟨calls, hcalls, -, hshares, hinterleave⟩ := calls_in_any_order hplan
    (.static h.table h.code .empty) [0x100000000, 0x1000001b0] [0x10000021c] 4
  have hlengths : calls.map List.length = [2, 2, 1, 1] := by
    have hsix : (Dispatch.tasks [1, 1, 2, 3, 1, 1] 4).map (·.map List.length) = .ok [2, 2, 1, 1] := by
      decide
    rw [← hshape, hcalls] at hsix
    exact Except.ok.inj hsix
  have hfour : calls.length = 4 := by simpa using congrArg List.length hlengths
  rw [houtput, hshape, hfour] at hinterleave
  rw [houtput, hshape] at hshares
  refine ⟨graph, image, calls, hcompile, himage, hcalls, hlengths, fun found =>
    hshares (fun _ => .ofTask 0) _ (fun _ _ => .of_planes (by decide)) fun index hindex => ?_, ?_⟩
  · have hlength : index.length = 5 := by
      rw [hplan.length_of_mem_tasks hcalls hindex, hshape]
      rfl
    exact (hlength ▸ (Placed.of_planes (by decide)).clear).called_start (found index) _ .empty
  intro found found' turns threads memory hturns hfinished
  obtain ⟨memory₁, hsingle, hnumbers⟩ := (hinterleave .ofTask (.ofTask 0) found found' .empty turns threads
    memory CallSite.together_ofTask (fun _ hi => .of_planes hi) (.of_planes (by decide)) hturns).2 hfinished
  exact ⟨memory₁, hsingle, hnumbers _ (by simp)⟩

end Pointwise
