import Pointwise.Proofs.Kernel.Passes
import Pointwise.Proofs.Subgraph.Order

/-!
# Kernels run in place

An input with as many elements as there are positions is read at each position at the element for this
position, as an output is written. A pass loads the elements for its positions before it stores to them, and
no other pass loads them, neither of the same call nor of another one. An output may therefore take the place
of such an input, for any number of tasks.

## Main definitions

* `PlacedOver` — tensors that do not get in each other's way but for an output in the place of an input.
* `Launch.Apart`, `Launch.Over` — tasks on such tensors, on separate ones and in place.
* `Launch.Ends` — a memory to which tasks come when all of them are finished.

## Main results

* `Domain.PlannedFor.unbroadcast` — an input with as many elements as there are positions is not broadcast.
* `PlacedOver.inPlace`, `PlacedOver.hosts` — a computation with an output in the place of such an input can go
  well.
* `Compiler.runs_in_place` — kernels run in place.
-/

set_option autoImplicit false

namespace Pointwise

open Machine

/-! ## Tensors -/

/-- Tensors of given shapes that do not get in each other's way, nor in that of calls for a number of
dimensions, but for the output `o`, which lies in the place of the input `p`. Other inputs may overlap each
other. -/
structure PlacedOver (shapes : List Shape) (outputs : Nat) (outputShape : Shape) (dims : Nat)
    (site : CallSite) (sources targets : List Address) (p o : Nat) : Prop where
  length_sources : sources.length = shapes.length
  length_targets : targets.length = outputs
  clear : site.Clear dims (outputSpans targets outputShape.count)
  shared : ∃ a, sources[p]? = some a ∧ targets[o]? = some a
  inputs : ∀ q ≠ p, ∀ input, (tensorSpans sources (shapes.map Shape.count))[q]? = some input →
    ∀ other ∈ site.spans dims ++ outputSpans targets outputShape.count, input.Disjoint other

/-- Tensors at given addresses, if all rows of bytes but that of the input `p` can be seen to lie one in front
of the other. -/
theorem PlacedOver.of_before {shapes : List Shape} {outputs dims p o : Nat} {outputShape : Shape}
    {site : CallSite} {sources targets : List Address} (hsources : sources.length = shapes.length)
    (htargets : targets.length = outputs)
    (hclear : (site.spans dims ++ outputSpans targets outputShape.count).Pairwise
      fun x y => x.Before y ∨ y.Before x)
    (hshared : ∃ a, sources[p]? = some a ∧ targets[o]? = some a)
    (hinputs : ∀ input ∈ (tensorSpans sources (shapes.map Shape.count)).eraseIdx p,
      ∀ other ∈ site.spans dims ++ outputSpans targets outputShape.count,
        input.Before other ∨ other.Before input) :
    PlacedOver shapes outputs outputShape dims site sources targets p o where
  length_sources := hsources
  length_targets := htargets
  clear := hclear.imp Span.Before.disjoint
  shared := hshared
  inputs q hq input hinput other hother :=
    Span.Before.disjoint (hinputs input (List.mem_eraseIdx_iff_getElem?.2 ⟨q, hq, hinput⟩) other hother)

section Plan

variable {domain : Domain} {limits : Optimizer} {program : Program} {shapes : List Shape}
  {outputShape : Shape} {flags : List Bool} {w : VectorWidth} {sources targets : List Address}
  {site : CallSite} {p o : Nat}

/-- **An input with as many elements as there are positions is not broadcast.** -/
theorem Domain.PlannedFor.unbroadcast (h : domain.PlannedFor limits program shapes outputShape)
    {shape : Shape} (hshape : shapes[p]? = some shape) (hcount : shape.count = domain.elements) :
    Computation.Unbroadcast ⟨program, domain, flags, w, sources, targets⟩ p := by
  intro f hf
  obtain ⟨hlt, hget⟩ := List.getElem?_eq_some_iff.1 hshape
  have hfits := (Shape.fits_of_broadcast h.broadcast).2 shape (List.mem_of_getElem? hshape)
  rw [h.element_eq (h.length_shapes ▸ hlt), List.getD_eq_getElem?_getD, hshape, Option.getD_some,
    hfits.sourcePosition_of_count h.pos (hcount.trans h.elements), ← h.elements]
  exact Nat.mod_eq_of_lt hf

variable (hover : PlacedOver shapes program.outputs.length outputShape domain.callShape.dropLast.length site
    sources targets p o)
  (hunbroadcast : Computation.Unbroadcast ⟨program, domain, flags, w, sources, targets⟩ p)

include hover hunbroadcast

/-- The elements of the input are the numbers of an output. -/
theorem PlacedOver.exists_target (hp : p < program.inputs) :
    ∃ a ∈ targets, ∀ f < domain.elements,
      Computation.place ⟨program, domain, flags, w, sources, targets⟩ p f =
        a + BitVec.ofNat 64 (4 * f) := by
  obtain ⟨a, hsource, htarget⟩ := hover.shared
  refine ⟨a, List.mem_of_getElem? htarget, fun f hf => ?_⟩
  rw [Computation.place, hunbroadcast f hf, Computation.base, if_pos hp, List.getD_eq_getElem?_getD,
    hsource, Option.getD_some]

variable (h : domain.PlannedFor limits program shapes outputShape)

include h

/-- **A computation with an output in the place of an input can go well** if the input is not broadcast. -/
theorem PlacedOver.inPlace (hflags : domain.broadcastFlags = .ok flags) :
    Computation.InPlace ⟨program, domain, flags, w, sources, targets⟩ where
  toProper := hover.clear.proper h hover.length_targets hflags
  targets := hover.clear.pairwise h
  sources q hq f hf g hg hne target htarget := by
    have hproper : Computation.Proper ⟨program, domain, flags, w, sources, targets⟩ :=
      hover.clear.proper h hover.length_targets hflags
    have hnumber : ∀ {k : Nat}, k < domain.elements → ∀ t : Address,
        Span.Within ⟨t + BitVec.ofNat 64 (4 * k), 4⟩ ⟨t, 4 * domain.elements⟩ :=
      fun hk _ => Span.within_of_le (by omega)
    by_cases hqp : q = p
    · subst hqp
      obtain ⟨a, ha, hplace⟩ := hover.exists_target hunbroadcast hq
      rw [hplace f hf]
      by_cases heq : a = target
      · exact heq ▸ Pass.disjoint_numbers hproper.fits hf hg hne a
      · exact (Computation.span_disjoint (hover.clear.pairwise h) ha htarget heq).mono (hnumber hf a)
          (hnumber hg target)
    · obtain ⟨input, hinput, hinside⟩ := h.place_within hover.length_sources hq f
      exact (hover.inputs q hqp input hinput _ (List.mem_append_right _
        (List.mem_map.2 ⟨target, htarget, h.elements ▸ rfl⟩))).mono hinside (hnumber hg target)

/-- **So can its calls.** -/
theorem PlacedOver.hosts : Computation.Hosts ⟨program, domain, flags, w, sources, targets⟩ site := by
  refine hover.clear.hosts h fun span hspan a ⟨q, hq, f, hf, ha⟩ hcovers => ?_
  by_cases hqp : q = p
  · subst hqp
    obtain ⟨target, htarget, hplace⟩ := hover.exists_target hunbroadcast hq
    rw [hplace f hf] at ha
    have hcross := (List.pairwise_append.1 hover.clear).2.2 span hspan ⟨target, 4 * outputShape.count⟩
      (List.mem_map.2 ⟨target, htarget, rfl⟩)
    exact hcross a hcovers (Span.within_of_le (by have := h.elements; dsimp only at hf; omega) a ha)
  · obtain ⟨input, hinput, hinside⟩ := h.place_within hover.length_sources hq f
    exact hover.inputs q hqp input hinput span (List.mem_append_left _ hspan) a (hinside a ha) hcovers

end Plan

/-! ## Tasks on tensors -/

namespace Launch

/-- A memory to which the tasks come when all of them are finished, in some order of turns. -/
def Ends (launch : Launch) (code : Code) (block : ArgumentBlock) (calls : List (List (List Nat)))
    (memory : Memory) : Prop :=
  ∃ turns threads, Thread.interleave code turns (Dispatch.threads launch.site launch.found calls)
    (launch.start block) = (threads, memory) ∧ ∀ thread ∈ threads, thread.Finished

/-- Tasks on tensors that do not get in each other's way. -/
structure Apart (launch : Launch) (shapes : List Shape) (outputs : Nat) (outputShape : Shape)
    (dims tasks : Nat) : Prop where
  together : CallSite.Together launch.site launch.argument dims tasks
  placed : ∀ i < tasks, Placed shapes outputs outputShape dims (launch.site i) launch.sources launch.targets

/-- Tasks on tensors that do not get in each other's way, but for an output in the place of an input. -/
structure Over (launch : Launch) (shapes : List Shape) (outputs : Nat) (outputShape : Shape)
    (dims tasks p o : Nat) : Prop where
  together : CallSite.Together launch.site launch.argument dims tasks
  placed : ∀ i < tasks,
    PlacedOver shapes outputs outputShape dims (launch.site i) launch.sources launch.targets p o

/-- Whether two launches begin with the same inputs. -/
def SameInputs (launch other : Launch) (shapes : List Shape) : Prop :=
  Memory.SameInputs shapes launch.memory launch.sources other.memory other.sources

end Launch

/-! ## Kernels -/

section Kernel

variable {compiler : Compiler} {limits : Optimizer} {program : Program} {domain : Domain}
  {shapes : List Shape} {outputShape : Shape} {code : Code} {block : ArgumentBlock}

/-- **The passes of a kernel load an input that is not broadcast for their own positions only**, wherever the
inputs lie. -/
theorem Compiler.Generates.exists_loadOwn (hcode : compiler.Generates program domain code block)
    (hplan : domain.PlannedFor limits program shapes outputShape) {p : Nat} {shape : Shape}
    (hshape : shapes[p]? = some shape) (hcount : shape.count = domain.elements) {maxTasks : Nat}
    {calls : List (List (List Nat))} (hcalls : Dispatch.tasks domain.callShape maxTasks = .ok calls)
    {site : (call : Nat) → CallSite} {s : (call : Nat) → MachineState} {sources targets : List Address}
    {source : Address} {q : Register} (hlength : targets.length = program.outputs.length)
    (hsource : sources[p]? = some source) (hq : program.pointers[p]? = some q)
    (hclear : ∀ call < calls.flatten.length, (site call).Clear domain.callShape.dropLast.length
      (outputSpans targets outputShape.count))
    (hcalled : ∀ (call : Nat) (index : List Nat), calls.flatten[call]? = some index →
      (site call).Called index (block.withPointers sources targets) (s call)) :
    ∃ runs : (call : Nat) → List PassRun,
      (∀ call < calls.flatten.length,
        PassRun.MakeUp program targets code (KernelImage.stepBound ⟨code⟩ domain.tiled) (s call)
          (runs call)) ∧
      PassRun.LoadOwn q source domain.elements calls.flatten.length runs := by
  obtain ⟨sample, mode, hcovers, hgenerate⟩ := hcode.covers
  obtain ⟨w, flags, body, -, hflags, hpieces, hwalks⟩ := hcovers.walksIn hgenerate
  obtain ⟨-, hpos, hflatten⟩ := hplan.tasks_pos hcalls
  have hall : calls.flatten.length = Shape.count domain.callShape.dropLast := by simp [hflatten]
  rw [hall] at hclear ⊢
  have hproper : Computation.Proper ⟨program, domain, flags, w, sources, targets⟩ :=
    (hclear 0 hpos).proper hplan hlength hflags
  obtain ⟨hlt, -⟩ := List.getElem?_eq_some_iff.1 hshape
  have hbase : Computation.base ⟨program, domain, flags, w, sources, targets⟩ p = source := by
    rw [Computation.base, if_pos (hplan.length_shapes ▸ hlt), List.getD_eq_getElem?_getD, hsource,
      Option.getD_some]
  have hseparates : ∀ call < Shape.count domain.callShape.dropLast,
      Computation.Separates ⟨program, domain, flags, w, sources, targets⟩ (site call) :=
    fun call hcall => (hclear call hcall).separates hplan
  have hindex : ∀ call < Shape.count domain.callShape.dropLast,
      calls.flatten[call]? = some (Shape.unravel domain.callShape.dropLast call) := fun call hcall => by
    rw [hflatten, List.getElem?_map, List.getElem?_range hcall, Option.map_some]
  obtain ⟨runs, hruns, hloads⟩ := (hwalks sources targets hproper).exists_loadOwn hproper hpieces
    (hplan.unbroadcast hshape hcount) hq hseparates fun call hcall => hcalled call _ (hindex call hcall)
  exact ⟨runs, hruns, hbase ▸ hloads⟩

end Kernel

/-- **Kernels run in place.** Let an input have as many elements as there are positions, for a planned domain
with elements. Whichever calls are made, at sites clear of the outputs and from states in which the kernel is
called, each is made up of passes, which load before they store; a pass loads elements of the input for its
own positions only, those for which it stores to every output, and no other pass of any call loads them.

So an output may lie in the place of the input, with nothing else in its way: the tasks come to their ends if
each of them has enough turns, and in whatever order they take them, the outputs then are those of tasks,
however many, on separate tensors with the same inputs, whatever the calls of either find in the registers.

**Proof sketch.** What is written for a position are no bytes of inputs for other positions. Each pass
therefore finds what the inputs held at the beginning, and each task does so, as it would alone. -/
theorem Compiler.runs_in_place {compiler : Compiler} {limits : Optimizer} {program : Program}
    {domain : Domain} {shapes : List Shape} {outputShape : Shape} {code : Code} {block : ArgumentBlock}
    (hplan : domain.PlannedFor limits program shapes outputShape)
    (hcode : compiler.Generates program domain code block) {p : Nat} {shape : Shape}
    (hshape : shapes[p]? = some shape) (hcount : shape.count = domain.elements) (maxTasks : Nat) :
    ∃ calls, Dispatch.tasks domain.callShape maxTasks = .ok calls ∧
      (∀ (site : (call : Nat) → CallSite) (s : (call : Nat) → MachineState)
          (sources targets : List Address) (source : Address) (q : Register),
        targets.length = program.outputs.length → sources[p]? = some source →
        program.pointers[p]? = some q →
        (∀ call < calls.flatten.length, (site call).Clear domain.callShape.dropLast.length
          (outputSpans targets outputShape.count)) →
        (∀ (call : Nat) (index : List Nat), calls.flatten[call]? = some index →
          (site call).Called index (block.withPointers sources targets) (s call)) →
        ∃ runs : (call : Nat) → List PassRun,
          (∀ call < calls.flatten.length,
            PassRun.MakeUp program targets code (KernelImage.stepBound ⟨code⟩ domain.tiled) (s call)
              (runs call)) ∧
          PassRun.LoadOwn q source domain.elements calls.flatten.length runs) ∧
      ∀ (launch : Launch) (o : Nat),
        launch.Over shapes program.outputs.length outputShape domain.callShape.dropLast.length
          calls.length p o →
        (∀ (turns : List Nat) (threads : List Thread) (memory : Memory),
          Thread.interleave code turns (Dispatch.threads launch.site launch.found calls)
            (launch.start block) = (threads, memory) →
          (∀ (i : Nat) (task : List (List Nat)), calls[i]? = some task →
            task.length * (KernelImage.stepBound ⟨code⟩ domain.tiled + 1) ≤ turns.count i) →
          ∀ thread ∈ threads, thread.Finished) ∧
        ∀ (separate : Launch) (maxTasks' : Nat) (calls' : List (List (List Nat))) (memory memory' : Memory),
          Dispatch.tasks domain.callShape maxTasks' = .ok calls' →
          separate.Apart shapes program.outputs.length outputShape domain.callShape.dropLast.length
            calls'.length →
          launch.SameInputs separate shapes → launch.Ends code block calls memory →
          separate.Ends code block calls' memory' →
          ∀ (k : Nat) (target target' : Address), launch.targets[k]? = some target →
            separate.targets[k]? = some target' → ∀ f < domain.elements,
              memory.readNumber (target + BitVec.ofNat 64 (4 * f)) =
                memory'.readNumber (target' + BitVec.ofNat 64 (4 * f)) := by
  obtain ⟨w, flags, -, hflags, hcomputes⟩ := hcode.computes_of_inPlace
  obtain ⟨calls, hcalls, -⟩ := hplan.tasks_eq maxTasks
  refine ⟨calls, hcalls, fun site s sources targets source q hlength hsource hq hclear hcalled =>
    hcode.exists_loadOwn hplan hshape hcount hcalls hlength hsource hq hclear hcalled,
    fun launch o hover => ?_⟩
  have hunbroadcast : (launch.computation program domain flags w).Unbroadcast p :=
    hplan.unbroadcast hshape hcount
  have hplace := (hover.placed 0 (hplan.tasks_pos hcalls).1).inPlace hunbroadcast hplan hflags
  have hruns := fun (turns : List Nat) (threads : List Thread) (memory : Memory)
      (hturns : Thread.interleave code turns (Dispatch.threads launch.site launch.found calls)
        (launch.start block) = (threads, memory)) =>
    launch.written hplan (hcomputes _ _ hplace) hplace hcalls hover.together
      (fun i hi => (hover.placed i hi).hosts hunbroadcast hplan) hturns
  refine ⟨fun turns threads memory hturns => (hruns turns threads memory hturns).1, ?_⟩
  intro separate maxTasks' calls' memory memory' hcalls' hapart hsame ⟨turns, threads, hturns, hfinished⟩
    ⟨turns', threads', hturns', hfinished'⟩ k target target' htarget htarget' f hf
  have hvalid : (separate.computation program domain flags w).Valid :=
    (hapart.placed 0 (hplan.tasks_pos hcalls').1).valid hplan hflags
  have hwritten := (separate.written hplan (hcomputes _ _ hvalid.inPlace) hvalid.inPlace hcalls'
    hapart.together (fun i hi => (hapart.placed i hi).hosts hplan) hturns').2 hfinished'
  obtain ⟨hk, -⟩ := List.getElem?_eq_some_iff.1 htarget
  have hk : k < program.outputs.length := hplace.length_targets ▸ hk
  exact ((hruns turns threads memory hturns).2 hfinished).readNumber_eq hplan.length_shapes hplan.broadcast
    hplan.pos hwritten hsame hk htarget htarget' (hplan.elements ▸ hf)

/-- The output for planes of two rows of nine may lie in the place of the planes, apart from four tasks. -/
theorem PlacedOver.of_planes {i : Nat} (hi : i < 4) : PlacedOver [[2, 3, 2, 9], [3, 1, 9]] 1 [2, 3, 2, 9]
    5 (.ofTask i) [0x10000021c, 0x1000001b0] [0x10000021c] 0 0 := by
  refine .of_before rfl rfl ?_ ⟨_, rfl, rfl⟩ ?_
  · revert i
    decide
  · revert i
    decide

/-- The inputs are the same wherever the planes are written. -/
theorem Memory.sameInputs_of_planes {xs : List Binary32} (hlength : xs.length = 108) :
    Memory.SameInputs [[2, 3, 2, 9], [3, 1, 9]] (Memory.empty.writeNumbers 0x10000021c xs)
      [0x10000021c, 0x1000001b0] (Memory.empty.writeNumbers 0x100000000 xs)
      [0x100000000, 0x1000001b0] := by
  intro p shape hp i hi
  have hlt : p < 2 := (List.getElem?_eq_some_iff.1 hp).1
  obtain rfl | rfl : p = 0 ∨ p = 1 := by omega
  · obtain rfl := Option.some.inj hp
    have hi : i < xs.length := hlength ▸ hi
    exact (Memory.element_writeNumbers rfl (by omega) hi).trans
      (Memory.element_writeNumbers rfl (by omega) hi).symm
  · obtain rfl := Option.some.inj hp
    exact (Memory.element_writeNumbers_of_disjoint rfl
      (Span.Before.disjoint (hlength ▸ by decide)) hi).trans
        (Memory.element_writeNumbers_of_disjoint rfl (Span.Before.disjoint (hlength ▸ by decide)) hi).symm

/-- The six calls for two rows of nine each, with the output in the place of the larger input. -/
theorem Compiler.runs_in_place_of_rows :
    ∃ graph image calls,
      Compiler.sample.compile .shiftedProduct [[2, 3, 2, 9], [3, 1, 9]] = .ok graph ∧
      graph.kernel = .ok image ∧ Dispatch.tasks graph.domain.callShape 4 = .ok calls ∧
      (∀ found : Residue, ∃ runs,
        (∀ (call : Nat) (index : List Nat), calls.flatten[call]? = some index →
          PassRun.MakeUp .shiftedProduct [0x10000021c] image.code (image.stepBound graph.domain.tiled)
            ((CallSite.ofTask 0).start (found index) (Memory.empty.writeWords 0x200000
              (ArgumentBlock.empty.withPointers [0x10000021c, 0x1000001b0] [0x10000021c]).words) index)
            (runs call)) ∧
        PassRun.LoadOwn 0 0x10000021c 108 6 runs) ∧
      ∀ (found found' : Residue) (xs : List Binary32) (memory memory' : Memory), xs.length = 108 →
        Launch.Ends ⟨.ofTask, 0x200000, [0x10000021c, 0x1000001b0], [0x10000021c],
          Memory.empty.writeNumbers 0x10000021c xs, found⟩ image.code .empty calls memory →
        Launch.Ends ⟨.ofTask, 0x200000, [0x100000000, 0x1000001b0], [0x10000021c],
          Memory.empty.writeNumbers 0x100000000 xs, found'⟩ image.code .empty calls memory' →
        ∀ f < 108, memory.readNumber (0x10000021c + BitVec.ofNat 64 (4 * f)) =
          memory'.readNumber (0x10000021c + BitVec.ofNat 64 (4 * f)) := by
  obtain ⟨graph, hcompile, hkernel, hshape⟩ := exists_static_of_planes
  obtain ⟨image, himage⟩ := StaticSubgraph.exists_kernel hkernel
  have h := optimized_of_compile hcompile himage
  have houtput : graph.outputShape = [2, 3, 2, 9] := Except.ok.inj (h.outputShape.symm.trans rfl)
  have hplan := h.plannedFor (by simp [houtput])
  rw [houtput] at hplan
  have helements : graph.domain.elements = 108 := hplan.elements
  obtain ⟨calls, hcalls, hloads, hends⟩ := runs_in_place hplan (.static h.table h.code .empty) (p := 0) rfl
    helements.symm 4
  have hlengths : (calls.length, calls.flatten.length) = (4, 6) := by
    have hsix : (Dispatch.tasks [1, 1, 2, 3, 1, 1] 4).map
        (fun calls => (calls.length, calls.flatten.length)) = .ok (4, 6) := by decide
    rw [← hshape, hcalls] at hsix
    exact Except.ok.inj hsix
  obtain ⟨hfour, hsix⟩ := Prod.mk.inj hlengths
  have hclear : (CallSite.ofTask 0).Clear 5 (outputSpans [0x10000021c] (Shape.count [2, 3, 2, 9])) :=
    (PlacedOver.of_planes (by decide)).clear
  rw [hshape, helements, hsix] at hloads
  rw [hshape, hfour] at hends
  refine ⟨graph, image, calls, hcompile, himage, hcalls, fun found => ?_,
    fun found found' xs memory memory' hxs hend hend' f hf => ?_⟩
  · have hcalled : ∀ index ∈ calls.flatten, (CallSite.ofTask 0).Called index
        (ArgumentBlock.empty.withPointers [0x10000021c, 0x1000001b0] [0x10000021c])
        ((CallSite.ofTask 0).start (found index) (Memory.empty.writeWords 0x200000
          (ArgumentBlock.empty.withPointers [0x10000021c, 0x1000001b0] [0x10000021c]).words) index) := by
      intro index hindex
      have hlength : index.length = 5 := by
        rw [hplan.length_of_mem_tasks hcalls hindex, hshape]
        rfl
      exact (hlength ▸ hclear).called_start (found index) _ .empty
    obtain ⟨runs, hruns, hown⟩ := hloads (fun _ => .ofTask 0) (fun call =>
      (CallSite.ofTask 0).start (found (calls.flatten.getD call [])) (Memory.empty.writeWords 0x200000
        (ArgumentBlock.empty.withPointers [0x10000021c, 0x1000001b0] [0x10000021c]).words)
          (calls.flatten.getD call []))
      [0x10000021c, 0x1000001b0] [0x10000021c] 0x10000021c 0 rfl rfl rfl
      (fun _ _ => hclear) fun call index hindex => by
        rw [List.getD_eq_getElem?_getD, hindex]
        exact hcalled index (List.mem_of_getElem? hindex)
    refine ⟨runs, fun call index hindex => ?_, hown⟩
    have hmakeUp := hruns call (hsix ▸ (List.getElem?_eq_some_iff.1 hindex).1)
    rwa [List.getD_eq_getElem?_getD, hindex] at hmakeUp
  exact (hends ⟨.ofTask, 0x200000, [0x10000021c, 0x1000001b0], [0x10000021c], _, found⟩ 0
    ⟨CallSite.together_ofTask, fun _ hi => .of_planes hi⟩).2
      ⟨.ofTask, 0x200000, [0x100000000, 0x1000001b0], [0x10000021c], _, found'⟩ 4 calls memory memory'
        (hshape ▸ hcalls) (hfour ▸ ⟨CallSite.together_ofTask, fun _ hi => .of_planes hi⟩)
        (Memory.sameInputs_of_planes hxs) hend hend' 0 _ _ rfl rfl f (helements ▸ hf)

end Pointwise
