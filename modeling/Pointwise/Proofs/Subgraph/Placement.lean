import Pointwise.Proofs.Dispatch.Tasks
import Pointwise.Proofs.Kernel.Sequence

/-!
# Tensors in memory

The tensors of a subgraph may lie anywhere in memory, as long as outputs overlap neither each other
nor inputs, and the bytes of the calls lie apart from all of them. A planned domain reads every input
like its given shape, so that the computation on the domain is one on the given shapes.

## Main definitions

* `Reading.ofTensors` — what a program finds at each position of the broadcast of given shapes.
* `Memory.SameInputs` — memories that hold the same inputs.
* `Program.Written` — a memory whose outputs hold the values of a program.
* `CallSite.Clear` — outputs that do not get in each other's way, nor in that of a call.
* `Placed` — tensors of given shapes that do not get in each other's way.

## Main results

* `Program.Written.readNumber_eq` — the same inputs give the same outputs.
* `CallSite.Clear.called_start` — how a kernel comes to be called.
* `CallSite.Clear.proper`, `CallSite.Clear.separates` — a computation with outputs that are clear of its
  calls.
* `Placed.valid`, `Placed.hosts` — a computation on placed tensors can go well.
* `Placed.callAll` — all calls of a kernel write the values of the program to the outputs.
-/

set_option autoImplicit false

namespace Pointwise

open Machine

/-- What a program finds at each position if inputs of given shapes are broadcast to the shape of the
outputs, and kernels process rows of `inner` positions with passes of `lanes`. -/
def Reading.ofTensors (lanes inner : Nat) (outputShape : Shape) (shapes : List Shape)
    (element : (param i : Nat) → Binary32) : Reading :=
  ⟨.vector, passStart lanes inner,
    fun p f => element p (Shape.sourcePosition outputShape (shapes.getD p []) f)⟩

/-- The values of a program are the same for tensors with the same elements. -/
theorem Program.valueAt_ofTensors_congr {program : Program} {lanes inner : Nat} {outputShape : Shape}
    {shapes : List Shape} {element element' : (param i : Nat) → Binary32}
    (h : ∀ p < program.inputs, ∀ f,
      element p (Shape.sourcePosition outputShape (shapes.getD p []) f) =
        element' p (Shape.sourcePosition outputShape (shapes.getD p []) f)) (value f : Nat) :
    program.valueAt (.ofTensors lanes inner outputShape shapes element) value f =
      program.valueAt (.ofTensors lanes inner outputShape shapes element') value f := by
  refine valueAt_congr (fun _ => True) ?_ ?_ (fun _ _ => trivial) (fun p hp f _ => h p hp f) value trivial
  · rfl
  · rfl

/-- The elements of tensors in memory. -/
def Memory.element (memory : Memory) (sources : List Address) (p i : Nat) : Binary32 :=
  memory.readNumber (sources.getD p 0 + BitVec.ofNat 64 (4 * i))

/-- Memories that hold the same elements in inputs of given shapes, each of them at addresses of its own. -/
def Memory.SameInputs (shapes : List Shape) (memory : Memory) (sources : List Address) (memory' : Memory)
    (sources' : List Address) : Prop :=
  ∀ (p : Nat) (shape : Shape), shapes[p]? = some shape → ∀ i < shape.count,
    memory.element sources p i = memory'.element sources' p i

/-- The elements of a tensor that has been written. -/
theorem Memory.element_writeNumbers {memory : Memory} {sources : List Address} {p i : Nat} {a : Address}
    {xs : List Binary32} (hp : sources[p]? = some a) (hlength : 4 * xs.length ≤ 2 ^ 64)
    (hi : i < xs.length) : (memory.writeNumbers a xs).element sources p i = xs[i] := by
  rw [element, List.getD_eq_getElem?_getD, hp, Option.getD_some, readNumber_writeNumbers hlength hi]

/-- Numbers that are written elsewhere leave a tensor alone. -/
theorem Memory.element_writeNumbers_of_disjoint {memory : Memory} {sources : List Address} {p i count : Nat}
    {a b : Address} {xs : List Binary32} (hp : sources[p]? = some b)
    (hdisjoint : Span.Disjoint ⟨b, 4 * count⟩ ⟨a, 4 * xs.length⟩) (hi : i < count) :
    (memory.writeNumbers a xs).element sources p i =
      memory.readNumber (b + BitVec.ofNat 64 (4 * i)) := by
  rw [element, List.getD_eq_getElem?_getD, hp, Option.getD_some]
  exact readNumber_congr fun c hc => read_writeNumbers (hdisjoint c (Span.within_of_le (by omega) c hc))

/-- A memory whose outputs hold the values of a program at every position of their shape, for the inputs
that another memory holds. -/
def Program.Written (program : Program) (lanes inner : Nat) (outputShape : Shape) (shapes : List Shape)
    (sources targets : List Address) (memory memory' : Memory) : Prop :=
  ∀ (o : Nat) (target : Address) (value : Nat), targets[o]? = some target →
    program.outputs[o]? = some value → ∀ f < outputShape.count,
      memory'.readNumber (target + BitVec.ofNat 64 (4 * f)) =
        program.valueAt (.ofTensors lanes inner outputShape shapes (memory.element sources)) value f

/-- The bytes of tensors with given numbers of elements. -/
def tensorSpans (addresses : List Address) (counts : List Nat) : List Span :=
  List.zipWith (fun a count => ⟨a, 4 * count⟩) addresses counts

/-- The bytes that a call uses for itself. -/
def CallSite.spans (site : CallSite) (dims : Nat) : List Span :=
  [site.frame, site.indexSpan dims, site.blockSpan]

/-- The bytes of outputs of a number of elements. -/
def outputSpans (targets : List Address) (count : Nat) : List Span :=
  targets.map fun target => ⟨target, 4 * count⟩

/-- The bytes that a call uses for itself and outputs that do not overlap each other. -/
def CallSite.Clear (site : CallSite) (dims : Nat) (outputs : List Span) : Prop :=
  (site.spans dims ++ outputs).Pairwise Span.Disjoint

/-- **A kernel is called** when the argument block has been written and then the index vector, whatever the
registers hold besides. -/
theorem CallSite.Clear.called_start {site : CallSite} {index : List Nat} {outputs : List Span}
    (h : site.Clear index.length outputs) (found : Core) (block : ArgumentBlock) (memory : Memory) :
    site.Called index block (site.start found (memory.writeWords site.block block.words) index) := by
  simp only [Clear, spans, List.cons_append, List.pairwise_cons, List.forall_mem_cons] at h
  obtain ⟨⟨hframe, -⟩, ⟨hindex, -⟩, -⟩ := h
  exact Computation.called_start found (hframe.length_le (by simp [frame])) hindex
    fun _ _ hword => hword.readWord memory site.block

/-- Tensors of given shapes that do not get in each other's way, nor in that of calls for a number of
dimensions. Only inputs may overlap each other. -/
structure Placed (shapes : List Shape) (outputs : Nat) (outputShape : Shape) (dims : Nat)
    (site : CallSite) (sources targets : List Address) : Prop where
  length_sources : sources.length = shapes.length
  length_targets : targets.length = outputs
  others : (site.spans dims ++
    tensorSpans targets (List.replicate outputs outputShape.count)).Pairwise Span.Disjoint
  inputs : ∀ input ∈ tensorSpans sources (shapes.map Shape.count), ∀ other ∈ site.spans dims ++
    tensorSpans targets (List.replicate outputs outputShape.count), input.Disjoint other

/-! ## Numbers of elements -/

/-- The elements of an input, if those of the outputs are broadcast from it. -/
theorem Shape.sourcePosition_lt_count {shapes : List Shape} {outputShape : Shape}
    (hbroadcast : Shape.broadcast shapes = .ok outputShape) (hpos : 0 < outputShape.count)
    {shape : Shape} (hshape : shape ∈ shapes) (position : Nat) :
    Shape.sourcePosition outputShape shape position < shape.count := by
  have hfits := (Shape.fits_of_broadcast hbroadcast).2 shape hshape
  have hlt := Shape.sourcePosition_lt hfits hpos position
  rwa [Shape.count_padTo, Shape.sourcePosition, Shape.padTo_padTo le_rfl, ← Shape.sourcePosition] at hlt

/-- **The same inputs give the same outputs**, wherever both lie and whatever the outputs held before. -/
theorem Program.Written.readNumber_eq {program : Program} {lanes inner : Nat} {outputShape : Shape}
    {shapes : List Shape} {sources sources' targets targets' : List Address}
    {before before' memory memory' : Memory} (hlength : shapes.length = program.inputs)
    (hbroadcast : Shape.broadcast shapes = .ok outputShape) (hpos : 0 < outputShape.count)
    (h : program.Written lanes inner outputShape shapes sources targets before memory)
    (h' : program.Written lanes inner outputShape shapes sources' targets' before' memory')
    (hsame : Memory.SameInputs shapes before sources before' sources') {o : Nat} {target target' : Address}
    (ho : o < program.outputs.length) (htarget : targets[o]? = some target)
    (htarget' : targets'[o]? = some target') {f : Nat} (hf : f < outputShape.count) :
    memory.readNumber (target + BitVec.ofNat 64 (4 * f)) =
      memory'.readNumber (target' + BitVec.ofNat 64 (4 * f)) := by
  have hvalue := List.getElem?_eq_getElem ho
  rw [h o target _ htarget hvalue f hf, h' o target' _ htarget' hvalue f hf]
  refine Program.valueAt_ofTensors_congr (fun p hp f => ?_) _ f
  have hlt : p < shapes.length := hlength ▸ hp
  have hshape : shapes[p]? = some (shapes.getD p []) := by
    rw [List.getD_eq_getElem?_getD, List.getElem?_eq_getElem hlt, Option.getD_some]
  exact hsame p _ hshape _ (Shape.sourcePosition_lt_count hbroadcast hpos (List.mem_of_getElem? hshape) f)

/-- Numbers that are written elsewhere leave the inputs as they are. -/
theorem Memory.sameInputs_writeNumbers {shapes : List Shape} {sources : List Address} {a : Address}
    {xs : List Binary32} (memory : Memory) (hlength : sources.length = shapes.length)
    (hdisjoint : ∀ input ∈ tensorSpans sources (shapes.map Shape.count),
      input.Disjoint ⟨a, 4 * xs.length⟩) :
    Memory.SameInputs shapes memory sources (memory.writeNumbers a xs) sources := by
  intro p shape hshape i hi
  obtain ⟨hlt, -⟩ := List.getElem?_eq_some_iff.1 hshape
  have hsource := List.getElem?_eq_getElem (hlength ▸ hlt)
  have hinput : (tensorSpans sources (shapes.map Shape.count))[p]? =
      some ⟨sources[p], 4 * shape.count⟩ := by
    rw [tensorSpans, List.getElem?_zipWith, hsource, List.getElem?_map, hshape]
    rfl
  rw [element_writeNumbers_of_disjoint hsource (hdisjoint _ (List.mem_of_getElem? hinput)) hi, element,
    List.getD_eq_getElem?_getD, hsource, Option.getD_some]

namespace Placed

variable {shapes : List Shape} {outputs dims : Nat} {outputShape : Shape} {site : CallSite}
  {sources targets : List Address}

/-- The outputs are tensors with as many elements as positions. -/
theorem tensorSpans_targets (h : Placed shapes outputs outputShape dims site sources targets) :
    tensorSpans targets (List.replicate outputs outputShape.count) =
      outputSpans targets outputShape.count := by
  refine List.ext_getElem (by simp [tensorSpans, outputSpans, h.length_targets]) fun i _ _ => ?_
  simp [tensorSpans, outputSpans]

/-- They are clear of the calls. -/
theorem clear (h : Placed shapes outputs outputShape dims site sources targets) :
    site.Clear dims (outputSpans targets outputShape.count) :=
  h.tensorSpans_targets ▸ h.others

end Placed

/-! ## Computations on planned domains -/

/-- A domain that was planned for a program and input shapes that broadcast to elements. -/
structure Domain.PlannedFor (domain : Domain) (limits : Optimizer) (program : Program)
    (shapes : List Shape) (outputShape : Shape) : Prop where
  length_shapes : shapes.length = program.inputs
  broadcast : Shape.broadcast shapes = .ok outputShape
  pos : 0 < outputShape.count
  plan : limits.plan shapes program.outputs.length = .ok domain

section Plan

variable {domain : Domain} {limits : Optimizer} {program : Program} {shapes : List Shape}
  {outputShape : Shape}

/-- A planned domain has as many elements as the outputs. -/
theorem Domain.PlannedFor.elements (h : domain.PlannedFor limits program shapes outputShape) :
    domain.elements = outputShape.count :=
  (Optimizer.sameReading_of_plan h.broadcast h.plan).2

theorem Domain.PlannedFor.planned (h : domain.PlannedFor limits program shapes outputShape) :
    domain.Planned program.outputs.length :=
  (Optimizer.planned_of_plan h.plan).1

theorem Domain.PlannedFor.length_inputShapes
    (h : domain.PlannedFor limits program shapes outputShape) :
    domain.inputShapes.length = program.inputs :=
  (Optimizer.planned_of_plan h.plan).2.trans h.length_shapes

/-- **The tasks for a planned domain** share the calls of its box. -/
theorem Domain.PlannedFor.tasks_eq (h : domain.PlannedFor limits program shapes outputShape)
    (maxTasks : Nat) :
    ∃ calls, Dispatch.tasks domain.callShape maxTasks = .ok calls ∧
      0 < Dispatch.taskCount domain.callShape maxTasks ∧
      calls = (List.range (Dispatch.taskCount domain.callShape maxTasks)).map
        (Dispatch.share domain.callShape.dropLast (Dispatch.taskCount domain.callShape maxTasks)) ∧
      calls.flatten = (List.range (Shape.count domain.callShape.dropLast)).map
        (Shape.unravel domain.callShape.dropLast) := by
  have hcount := h.planned.count_callShape
  have hpos : 0 < domain.elements := h.elements ▸ h.pos
  have hlt := Optimizer.elements_lt_of_plan h.plan
  obtain ⟨houter, hinner⟩ := h.planned.tiled_pos hpos
  rw [← hcount] at hpos hlt
  have hle := Nat.le_mul_of_pos_right (Shape.count domain.callShape.dropLast)
    (Nat.mul_pos houter hinner)
  have hrank : 0 < domain.callShape.length := by
    rw [h.planned.length_callShape.2]
    exact Nat.lt_of_lt_of_le (by decide) h.planned.rank
  have htasks : 0 < Dispatch.taskCount domain.callShape maxTasks := Nat.le_max_left 1 _
  refine ⟨_, Dispatch.tasks_eq maxTasks hrank (Nat.pos_of_mul_pos_right hpos) (by omega), htasks, rfl, ?_⟩
  rw [Dispatch.flatten_share _ htasks, Dispatch.box_eq]

variable {flags : List Bool} {w : VectorWidth} {sources targets : List Address} {site : CallSite}

/-- The planned shapes of the inputs. -/
theorem Domain.PlannedFor.shape_input (h : domain.PlannedFor limits program shapes outputShape)
    {p : Nat} (hp : p < program.inputs) :
    domain.inputShapes[p]? =
      some (Computation.shape ⟨program, domain, flags, w, sources, targets⟩ p) := by
  have hlt : p < domain.inputShapes.length := h.length_inputShapes ▸ hp
  rw [Computation.shape, Domain.params]
  dsimp only
  rw [List.getD_eq_getElem?_getD, List.getElem?_append_left hlt, List.getElem?_eq_getElem hlt,
    Option.getD_some]

/-- **A planned domain reads every input like its given shape.** -/
theorem Domain.PlannedFor.element_eq (h : domain.PlannedFor limits program shapes outputShape)
    {p : Nat} (hp : p < program.inputs) (f : Nat) :
    Computation.element ⟨program, domain, flags, w, sources, targets⟩ p f =
      Shape.sourcePosition outputShape (shapes.getD p []) f := by
  have hread := (Optimizer.sameReading_of_plan h.broadcast h.plan).1
  have hlen := h.length_inputShapes
  have hlen' := h.length_shapes
  have hget := hread.get (i := p) (by omega) (by omega)
  have hshape : domain.inputShapes[p]? =
      some (Computation.shape ⟨program, domain, flags, w, sources, targets⟩ p) := h.shape_input hp
  obtain ⟨hlt, hvalue⟩ := List.getElem?_eq_some_iff.1 hshape
  rw [Computation.element, ← hvalue, List.getD_eq_getElem?_getD, List.getElem?_eq_getElem (by omega),
    Option.getD_some]
  exact hget.sourcePosition_eq f

/-- **What the program reads of an input** belongs to its tensor. -/
theorem Domain.PlannedFor.place_within (h : domain.PlannedFor limits program shapes outputShape)
    (hsources : sources.length = shapes.length) {p : Nat} (hp : p < program.inputs) (f : Nat) :
    ∃ input, (tensorSpans sources (shapes.map Shape.count))[p]? = some input ∧
      Span.Within ⟨Computation.place ⟨program, domain, flags, w, sources, targets⟩ p f, 4⟩ input := by
  have hlen := h.length_shapes
  have hlt := Shape.sourcePosition_lt_count h.broadcast h.pos
    (List.getElem_mem (l := shapes) (n := p) (by omega)) f
  refine ⟨⟨sources[p], 4 * (shapes[p]).count⟩, ?_, ?_⟩
  · rw [tensorSpans, List.getElem?_eq_getElem (by simp; omega)]
    simp
  · have hplace : Computation.place ⟨program, domain, flags, w, sources, targets⟩ p f =
        sources[p] +
          BitVec.ofNat 64 (4 * Shape.sourcePosition outputShape (shapes[p]) f) := by
      rw [Computation.place, h.element_eq hp, Computation.base, if_pos hp]
      dsimp only
      rw [List.getD_eq_getElem?_getD, List.getD_eq_getElem?_getD, List.getElem?_eq_getElem (by omega),
        List.getElem?_eq_getElem (by omega), Option.getD_some, Option.getD_some]
    rw [hplace]
    exact Span.within_of_le (by omega)

/-- There are tasks, which make the calls for a planned domain with elements. -/
theorem Domain.PlannedFor.tasks_pos (h : domain.PlannedFor limits program shapes outputShape)
    {maxTasks : Nat} {calls : List (List (List Nat))}
    (hcalls : Dispatch.tasks domain.callShape maxTasks = .ok calls) :
    0 < calls.length ∧ 0 < Shape.count domain.callShape.dropLast ∧
      calls.flatten = (List.range (Shape.count domain.callShape.dropLast)).map
        (Shape.unravel domain.callShape.dropLast) := by
  obtain ⟨all, hall, hcount, hshares, hflatten⟩ := h.tasks_eq maxTasks
  obtain rfl := Except.ok.inj (hall.symm.trans hcalls)
  refine ⟨by simpa [hshares] using hcount, ?_, hflatten⟩
  have hpos : 0 < domain.elements := h.elements ▸ h.pos
  rw [← h.planned.count_callShape] at hpos
  exact Nat.pos_of_mul_pos_right hpos

/-- There is an entry for each dimension in the index vectors of the calls. -/
theorem Domain.PlannedFor.length_of_mem_tasks (h : domain.PlannedFor limits program shapes outputShape)
    {maxTasks : Nat} {calls : List (List (List Nat))}
    (hcalls : Dispatch.tasks domain.callShape maxTasks = .ok calls) {index : List Nat}
    (hindex : index ∈ calls.flatten) : index.length = domain.callShape.dropLast.length := by
  obtain ⟨all, hall, -, -, hflatten⟩ := h.tasks_eq maxTasks
  obtain rfl := Except.ok.inj (hall.symm.trans hcalls)
  rw [hflatten] at hindex
  obtain ⟨call, -, rfl⟩ := List.mem_map.1 hindex
  exact Shape.length_unravel _ call

/-- A single task makes all calls. -/
theorem Domain.PlannedFor.single_task (h : domain.PlannedFor limits program shapes outputShape)
    {maxTasks : Nat} {calls : List (List (List Nat))}
    (hcalls : Dispatch.tasks domain.callShape maxTasks = .ok calls) :
    Dispatch.tasks domain.callShape 1 = .ok [calls.flatten] := by
  obtain ⟨all, htasks, -, hall, hflatten⟩ := h.tasks_eq 1
  have hone : Dispatch.taskCount domain.callShape 1 = 1 := Nat.max_eq_left (Nat.min_le_left 1 _)
  rw [hone, List.range_one, List.map_singleton] at hall
  rw [htasks, (h.tasks_pos hcalls).2.2, ← hflatten, hall, List.flatten_singleton]

/-- What the program reads of an input is the element that a broadcast reads. -/
theorem Domain.PlannedFor.readNumber_place (h : domain.PlannedFor limits program shapes outputShape)
    (memory : Memory) {p : Nat} (hp : p < program.inputs) (f : Nat) :
    memory.readNumber (Computation.place ⟨program, domain, flags, w, sources, targets⟩ p f) =
      memory.element sources p (Shape.sourcePosition outputShape (shapes.getD p []) f) := by
  rw [Computation.place, h.element_eq hp, Computation.base, if_pos hp, Memory.element]

/-- **Outputs with the values of a computation** are those of the program on the given shapes. -/
theorem Domain.PlannedFor.written (h : domain.PlannedFor limits program shapes outputShape)
    {memory memory' : Memory}
    (hnumbers : ∀ target ∈ Computation.outputs ⟨program, domain, flags, w, sources, targets⟩ fun p f =>
        memory.element sources p (Shape.sourcePosition outputShape (shapes.getD p []) f),
      ∀ f < domain.elements,
        memory'.readNumber (target.start + BitVec.ofNat 64 (4 * f)) = target.value f) :
    program.Written w.lanes domain.tiled.inner outputShape shapes sources targets memory memory' := by
  intro o target value htarget hvalue f hf
  refine hnumbers ⟨target, program.valueAt (.ofTensors w.lanes domain.tiled.inner outputShape shapes
    (memory.element sources)) value⟩ (List.mem_of_getElem? (i := o) ?_) f (h.elements ▸ hf)
  rw [Computation.outputs, List.getElem?_zipWith, htarget, hvalue]
  rfl

section Clear

variable (h : domain.PlannedFor limits program shapes outputShape)
  (hclear : site.Clear domain.callShape.dropLast.length (outputSpans targets outputShape.count))

include h hclear

/-- A computation with outputs that are clear of its calls is a proper one, wherever its inputs lie. -/
theorem CallSite.Clear.proper (hlength : targets.length = program.outputs.length)
    (hflags : domain.broadcastFlags = .ok flags) :
    Computation.Proper ⟨program, domain, flags, w, sources, targets⟩ where
  planned := h.planned
  pos := h.elements ▸ h.pos
  flags := hflags
  length_flags := (OffsetTable.length_of_broadcastFlags hflags).trans h.length_inputShapes
  length_targets := hlength
  fits := by
    obtain ⟨target, htarget⟩ : ∃ target, target ∈ targets :=
      List.exists_mem_of_length_pos
        (hlength ▸ List.length_pos_iff.2 program.wellFormed.outputs_ne_nil)
    have hframe : site.frame.Disjoint ⟨target, 4 * outputShape.count⟩ :=
      List.rel_of_pairwise_cons hclear (by simp [outputSpans, htarget])
    dsimp only
    rw [h.elements]
    exact hframe.length_le (by simp [CallSite.frame])

/-- Its outputs do not overlap each other. -/
theorem CallSite.Clear.pairwise : targets.Pairwise fun t u =>
    (Computation.span ⟨program, domain, flags, w, sources, targets⟩ t).Disjoint
      (Computation.span ⟨program, domain, flags, w, sources, targets⟩ u) := by
  have houtputs := (List.pairwise_append.1 hclear).2.1
  rw [outputSpans, List.pairwise_map] at houtputs
  simp only [Computation.span, h.elements]
  exact houtputs

/-- The bytes of its calls do not get in each other's way. -/
theorem CallSite.Clear.separates :
    Computation.Separates ⟨program, domain, flags, w, sources, targets⟩ site := by
  obtain ⟨hown, -, hcross⟩ := List.pairwise_append.1 hclear
  rw [outputSpans] at hcross
  simp only [CallSite.spans, List.pairwise_cons, List.forall_mem_cons, List.forall_mem_map,
    ← h.elements] at hown hcross
  exact {
    frame_index := hown.1.1
    frame_block := hown.1.2.1
    index_block := hown.2.1.1
    frame_targets := hcross.1
    index_targets := hcross.2.1
    block_targets := hcross.2.2.1 }

/-- Neither do they get in that of the inputs, if these are apart from them. -/
theorem CallSite.Clear.hosts (hsources : ∀ span ∈ site.spans domain.callShape.dropLast.length, ∀ a,
    Computation.Reads ⟨program, domain, flags, w, sources, targets⟩ a → ¬ span.Covers a) :
    Computation.Hosts ⟨program, domain, flags, w, sources, targets⟩ site := by
  simp only [CallSite.spans, List.forall_mem_cons] at hsources
  exact {
    toSeparates := hclear.separates h
    frame_sources := hsources.1
    index_sources := hsources.2.1
    block_sources := hsources.2.2.1 }

end Clear

variable (h : domain.PlannedFor limits program shapes outputShape)
  (hplaced : Placed shapes program.outputs.length outputShape domain.callShape.dropLast.length site
    sources targets)

include h hplaced

/-- What the program reads is apart from the outputs and from the bytes of the calls. -/
theorem Placed.not_covers_of_reads {a : Address}
    (ha : Computation.Reads ⟨program, domain, flags, w, sources, targets⟩ a) :
    ∀ other ∈ site.spans domain.callShape.dropLast.length ++ outputSpans targets outputShape.count,
      ¬ other.Covers a := by
  obtain ⟨p, hp, f, -, hcovers⟩ := ha
  obtain ⟨input, hinput, hwithin⟩ := h.place_within hplaced.length_sources hp f
  rw [← hplaced.tensorSpans_targets]
  exact fun other hother =>
    hplaced.inputs input (List.mem_of_getElem? hinput) other hother a (hwithin a hcovers)

/-- **A computation on placed tensors can go well.** -/
theorem Placed.valid (hflags : domain.broadcastFlags = .ok flags) :
    Computation.Valid ⟨program, domain, flags, w, sources, targets⟩ where
  toProper := hplaced.clear.proper h hplaced.length_targets hflags
  targets := hplaced.clear.pairwise h
  sources a ha target htarget hcovers := by
    rw [Computation.span, h.elements] at hcovers
    exact hplaced.not_covers_of_reads h ha _
      (List.mem_append_right _ (List.mem_map.2 ⟨target, htarget, rfl⟩)) hcovers

/-- **So can its calls.** -/
theorem Placed.hosts : Computation.Hosts ⟨program, domain, flags, w, sources, targets⟩ site :=
  hplaced.clear.hosts h fun span hspan _ ha =>
    hplaced.not_covers_of_reads h ha span (List.mem_append_left _ hspan)

/-- **All calls of a kernel write the values of the program to the outputs**, among however many tasks
they are shared, and whatever each of them finds in the registers.

**Proof sketch.** The tasks together make the calls of the box in row-major order, which process the
shares of the positions from the first to the last. Every input is read on the planned domain like
its given shape. -/
theorem Placed.callAll (hflags : domain.broadcastFlags = .ok flags) {code : Code}
    {block : ArgumentBlock}
    (hcomputes : Computation.Computes ⟨program, domain, flags, w, sources, targets⟩ code block)
    (maxTasks : Nat) (memory : Memory) (found : Residue) :
    ∃ calls memory', Dispatch.tasks domain.callShape maxTasks = .ok calls ∧
      KernelImage.callAll ⟨code⟩ domain.tiled site found block calls.flatten memory = .ok memory' ∧
      program.Written w.lanes domain.tiled.inner outputShape shapes sources targets memory memory' := by
  have hvalid := hplaced.valid h (w := w) hflags
  obtain ⟨calls, htasks, -, -, hflatten⟩ := h.tasks_eq maxTasks
  obtain ⟨memory', hcall, hnumbers, -⟩ := hcomputes.callAll hvalid (hplaced.hosts h)
    (fun p hp f _ => h.readNumber_place memory hp f) found
  exact ⟨calls, memory', htasks, hflatten ▸ hcall, h.written hnumbers⟩

end Plan

end Pointwise
