import Pointwise.Subgraph.Dynamic
import Pointwise.Subgraph.Static
import Pointwise.Proofs.Subgraph.Buffers

/-!
# Calls of subgraphs, step by step

Executing a subgraph on buffers is a function: it gives the new contents of the outputs, or a cause of
failure. What a caller sees is a process. The buffers lie in memory from the beginning, checks are made
and kernels are called one after the other, each of them changes the memory, and a failure finds it as
the steps before left it.

Here the same steps are taken in this way, with a record of the kernel calls. The process gives the
same answers as the function, so that statements about it are statements about execution.

## Main definitions

* `Progress` — what was done so far.
* `Attempt` — steps that make progress and may fail.
* `StaticSubgraph.attempt`, `DynamicSubgraph.attempt` — the steps of a call on buffers.
* `Buffers.Outcome` — what a caller sees of such steps.

## Main results

* `StaticSubgraph.answer_attempt`, `DynamicSubgraph.answer_attempt` — the steps give the answers of
  execution.
* `Buffers.run_of_error` — steps that fail without any progress leave all outputs unchanged.
-/

set_option autoImplicit false

namespace Pointwise

/-- What was done so far: the memory as it is now, and the index vectors of the kernel calls. -/
structure Progress where
  memory : Memory
  calls : List (List Nat)

/-- Steps that make progress and may fail. A failure keeps the progress made before it. -/
abbrev Attempt := EStateM Error Progress

namespace Attempt

/-! ## Steps -/

/-- A computation that has nothing to do with the memory. -/
def check {α : Type} (x : Except Error α) : Attempt α := fun progress =>
  match x with
  | .ok a => .ok a progress
  | .error cause => .error cause progress

/-- One kernel call, which is on record before it begins. -/
def call (image : KernelImage) (bound : Nat) (site : CallSite) (found : Residue) (index : List Nat) :
    Attempt Unit := do
  modify fun progress => { progress with calls := progress.calls ++ [index] }
  let memory ← check (image.call bound site found (← get).memory index)
  modify fun progress => { progress with memory }

/-- A sequence of kernel calls with the same argument block, which is written first. -/
def callAll (image : KernelImage) (work : WorkAmounts) (site : CallSite) (found : Residue)
    (block : ArgumentBlock) (calls : List (List Nat)) : Attempt Unit := do
  modify fun progress =>
    { progress with memory := progress.memory.writeWords site.block block.words }
  calls.forM (call image (image.stepBound work) site found)

section Run

variable {α β : Type} {x : Attempt α} {f : α → Attempt β} {progress progress' : Progress}

/-- Steps behind a check that is passed begin where the check did. -/
theorem run_check_bind_of_ok {y : Except Error α} {a : α} (h : y = .ok a) :
    (check y >>= f).run progress = (f a).run progress := by
  rw [h]
  rfl

/-- Steps behind a check that fails are not taken. -/
theorem run_check_bind_of_error {y : Except Error α} {cause : Error} (h : y = .error cause) :
    (check y >>= f).run progress = .error cause progress := by
  rw [h]
  rfl

/-- Steps behind steps that succeed go on from the progress made. -/
theorem run_bind_of_ok {a : α} (h : x.run progress = .ok a progress') :
    (x >>= f).run progress = (f a).run progress' := by
  simp only [EStateM.run, bind, EStateM.bind] at h ⊢
  rw [h]

/-- Steps behind steps that fail are not taken. -/
theorem run_bind_of_error {cause : Error} (h : x.run progress = .error cause progress') :
    (x >>= f).run progress = .error cause progress' := by
  simp only [EStateM.run, bind, EStateM.bind] at h ⊢
  rw [h]

end Run

/-! ## Steps and computations in memory -/

/-- Steps that do to the memory what a computation does, and fail for the same cause. -/
structure Computes (steps : Attempt Unit) (compute : Memory → Except Error Memory) : Prop where
  succeeds : ∀ (progress : Progress) (memory : Memory), compute progress.memory = .ok memory →
    ∃ calls, steps.run progress = .ok () ⟨memory, calls⟩
  fails : ∀ (progress : Progress) (cause : Error), compute progress.memory = .error cause →
    ∃ progress', steps.run progress = .error cause progress'

namespace Computes

/-- Steps that do nothing. -/
theorem pure : Computes (pure ()) .ok where
  succeeds := by
    rintro progress memory ⟨⟩
    exact ⟨progress.calls, rfl⟩
  fails := by
    rintro progress cause ⟨⟩

/-- Steps that fail at once. -/
theorem throw (cause : Error) : Computes (throw cause) fun _ => .error cause where
  succeeds := by
    rintro progress memory ⟨⟩
  fails := by
    rintro progress cause ⟨⟩
    exact ⟨progress, rfl⟩

/-- A check in front of further steps. -/
theorem check_bind {α : Type} {x : Except Error α} {steps : α → Attempt Unit}
    {compute : α → Memory → Except Error Memory} (h : ∀ a, Computes (steps a) (compute a)) :
    Computes (check x >>= steps) fun memory => x >>= fun a => compute a memory := by
  cases x with
  | ok a => exact h a
  | error cause => exact throw cause

/-- Steps that go on where others stopped. -/
theorem bind {steps rest : Attempt Unit} {compute after : Memory → Except Error Memory}
    (h : Computes steps compute) (hrest : Computes rest after) :
    Computes (do steps; rest) fun memory => compute memory >>= after where
  succeeds progress memory hok := by
    obtain ⟨memory', hcompute, hafter⟩ := Checked.bind_eq_ok.1 hok
    obtain ⟨calls, hsteps⟩ := h.succeeds progress memory' hcompute
    rw [run_bind_of_ok hsteps]
    exact hrest.succeeds _ memory hafter
  fails progress cause herror := by
    cases hcompute : compute progress.memory with
    | ok memory =>
      obtain ⟨calls, hsteps⟩ := h.succeeds progress memory hcompute
      rw [hcompute, Checked.ok_bind] at herror
      rw [run_bind_of_ok hsteps]
      exact hrest.fails _ cause herror
    | error cause' =>
      obtain ⟨progress', hsteps⟩ := h.fails progress cause' hcompute
      rw [hcompute, Checked.error_bind] at herror
      cases herror
      exact ⟨progress', run_bind_of_error hsteps⟩

/-- A kernel call. -/
theorem call (image : KernelImage) (bound : Nat) (site : CallSite) (found : Residue) (index : List Nat) :
    Computes (call image bound site found index) fun memory =>
      image.call bound site found memory index where
  succeeds progress memory hok := by
    refine ⟨progress.calls ++ [index], ?_⟩
    exact run_check_bind_of_ok hok
  fails progress cause herror := by
    refine ⟨{ progress with calls := progress.calls ++ [index] }, ?_⟩
    exact run_check_bind_of_error herror

/-- The same steps for every entry of a list. -/
theorem forM {α : Type} {steps : α → Attempt Unit} {compute : Memory → α → Except Error Memory}
    (h : ∀ a, Computes (steps a) fun memory => compute memory a) (list : List α) :
    Computes (list.forM steps) fun memory => list.foldlM compute memory := by
  induction list with
  | nil => exact .pure
  | cons a list ih => exact (h a).bind ih

/-- A sequence of kernel calls. -/
theorem callAll (image : KernelImage) (work : WorkAmounts) (site : CallSite) (found : Residue)
    (block : ArgumentBlock) (calls : List (List Nat)) :
    Computes (callAll image work site found block calls) fun memory =>
      image.callAll work site found block calls memory :=
  have hcalls := forM (call image (image.stepBound work) site found) calls
  ⟨fun progress => hcalls.succeeds ⟨progress.memory.writeWords site.block block.words, progress.calls⟩,
    fun progress => hcalls.fails ⟨progress.memory.writeWords site.block block.words, progress.calls⟩⟩

end Computes

end Attempt

/-! ## Subgraphs -/

/-- The steps of a static subgraph on tensors in memory. -/
def StaticSubgraph.attemptAt (graph : StaticSubgraph) (site : CallSite) (found : Residue)
    (sources targets : List Address) : Attempt Unit :=
  match graph.kernel with
  | .error cause => throw (.notCompiled cause)
  | .ok image => do
    Attempt.check <| Buffers.checkCounts graph.table.inputs graph.table.outputs sources.length
      targets.length
    if graph.domain.elements = 0 then return ()
    else
      let calls ← Attempt.check (Dispatch.tasks graph.domain.callShape graph.maxTasks)
      Attempt.callAll image graph.domain.tiled site found
        (ArgumentBlock.empty.withPointers sources targets) calls.flatten

/-- The steps of a dynamic subgraph on tensors in memory, given what the call needs. -/
def DynamicSubgraph.attemptAt (graph : DynamicSubgraph) (image : KernelImage) (domain : Domain)
    (block : ArgumentBlock) (site : CallSite) (found : Residue) (sources targets : List Address) :
    Attempt Unit :=
  if domain.elements = 0 then return ()
  else do
    let calls ← Attempt.check (Dispatch.tasks domain.callShape graph.compiler.config.minParallelism)
    Attempt.callAll image domain.tiled site found (block.withPointers sources targets) calls.flatten

/-- The steps of a static subgraph do what it computes. -/
theorem StaticSubgraph.computes_attemptAt (graph : StaticSubgraph) (site : CallSite) (found : Residue)
    (sources targets : List Address) :
    (graph.attemptAt site found sources targets).Computes
      (graph.executeAt site sources targets · found) := by
  unfold attemptAt executeAt
  cases graph.kernel with
  | error cause => exact .throw _
  | ok image =>
    refine .check_bind fun _ => ?_
    split
    · exact .pure
    · exact .check_bind fun calls => .callAll image _ site found _ _

/-- The steps of a dynamic subgraph do what it computes. -/
theorem DynamicSubgraph.computes_attemptAt (graph : DynamicSubgraph) (image : KernelImage)
    (domain : Domain) (block : ArgumentBlock) (site : CallSite) (found : Residue)
    (sources targets : List Address) :
    (graph.attemptAt image domain block site found sources targets).Computes
      (graph.executeAt image domain block site sources targets · found) := by
  unfold attemptAt executeAt
  split
  · exact .pure
  · exact .check_bind fun calls => .callAll image _ site found _ _

namespace Buffers

/-! ## Steps on buffers -/

/-- What a caller sees of steps on buffers. -/
structure Outcome where
  /-- Whether the steps failed, and for which cause. -/
  result : Except Error Unit
  /-- The index vectors of the kernel calls, in the order in which these began. -/
  calls : List (List Nat)
  /-- The outputs as they are afterwards. -/
  outputs : List Buffer

/-- The outputs, or the cause of a failure. -/
def Outcome.answer (outcome : Outcome) : Except Error (List Buffer) :=
  outcome.result.map fun _ => outcome.outputs

/-- What there is before the first step: buffers that lie in memory, and no kernel calls. -/
def start (inputs outputs : List Buffer) : Progress :=
  ⟨store .empty ((place firstAddress (inputs ++ outputs)).zip (inputs ++ outputs)), []⟩

/-- The contents of the outputs. -/
def outputsOf (inputs outputs : List Buffer) (memory : Memory) : List Buffer :=
  (((place firstAddress (inputs ++ outputs)).drop inputs.length).zip outputs).map
    fun (a, buffer) => memory.readNumbers a buffer.length

/-- Steps on buffers, which are given the addresses of these. -/
def run (inputs outputs : List Buffer) (steps : (sources targets : List Address) → Attempt Unit) :
    Outcome :=
  let addresses := place firstAddress (inputs ++ outputs)
  match (steps (addresses.take inputs.length) (addresses.drop inputs.length)).run
      (start inputs outputs) with
  | .ok () progress => ⟨.ok (), progress.calls, outputsOf inputs outputs progress.memory⟩
  | .error cause progress => ⟨.error cause, progress.calls, outputsOf inputs outputs progress.memory⟩

section Run

variable {ins outs : List Buffer} {steps : (sources targets : List Address) → Attempt Unit}

/-- **Steps that do what a computation does** give its answer. -/
theorem answer_run {compute : (sources targets : List Address) → Memory → Except Error Memory}
    (h : ∀ sources targets, (steps sources targets).Computes (compute sources targets)) :
    (run ins outs steps).answer = through ins outs compute := by
  have hrun := h ((place firstAddress (ins ++ outs)).take ins.length)
    ((place firstAddress (ins ++ outs)).drop ins.length)
  have hthrough : through ins outs compute =
      compute ((place firstAddress (ins ++ outs)).take ins.length)
        ((place firstAddress (ins ++ outs)).drop ins.length) (start ins outs).memory >>=
          fun memory => .ok (outputsOf ins outs memory) := rfl
  rw [hthrough]
  cases hcompute : compute ((place firstAddress (ins ++ outs)).take ins.length)
      ((place firstAddress (ins ++ outs)).drop ins.length) (start ins outs).memory with
  | ok memory =>
    obtain ⟨calls, hsteps⟩ := hrun.succeeds _ _ hcompute
    simp only [run, hsteps]
    rfl
  | error cause =>
    obtain ⟨progress', hsteps⟩ := hrun.fails _ _ hcompute
    simp only [run, hsteps]
    rfl

/-- Before the first step the outputs have their contents. -/
theorem outputsOf_start (hfit : firstAddress + extent (ins ++ outs) ≤ 2 ^ 64) :
    outputsOf ins outs (start ins outs).memory = outs := by
  obtain ⟨hlen, hpairwise, -⟩ := place_spec hfit
  rw [← map_span_zip] at hpairwise
  rw [List.length_append] at hlen
  refine List.ext_getElem ?_ fun o ho ho' => ?_
  · rw [outputsOf, List.length_map, List.length_zip, List.length_drop]
    omega
  · simp only [outputsOf, List.getElem_map, List.getElem_zip, List.getElem_drop]
    have hmem : ((place firstAddress (ins ++ outs))[ins.length + o], outs[o]) ∈
        (place firstAddress (ins ++ outs)).zip (ins ++ outs) := by
      refine List.mem_of_getElem? (i := ins.length + o) ?_
      rw [List.getElem?_zip_eq_some, List.getElem?_eq_getElem (by omega),
        List.getElem?_append_right (Nat.le_add_right _ _), Nat.add_sub_cancel_left,
        List.getElem?_eq_getElem ho']
      exact ⟨rfl, rfl⟩
    refine List.ext_getElem (by simp [Memory.readNumbers]) fun i _ hi => ?_
    simp only [Memory.readNumbers, List.getElem_map, List.getElem_range]
    refine readNumber_store hpairwise (fun x hx => ?_) hmem hi
    exact (le_extent (List.of_mem_zip hx).2).trans ((Nat.le_add_left _ _).trans hfit)

/-- **Steps that fail without any progress** make no kernel call and leave all outputs unchanged. -/
theorem run_of_error (cause : Error) (hfit : firstAddress + extent (ins ++ outs) ≤ 2 ^ 64)
    (h : ∀ sources targets progress,
      (steps sources targets).run progress = .error cause progress) :
    run ins outs steps = ⟨.error cause, [], outs⟩ := by
  simp only [run, h, outputsOf_start hfit]
  rfl

/-- Steps that do nothing make no kernel call and leave all outputs unchanged. -/
theorem run_of_pure (hfit : firstAddress + extent (ins ++ outs) ≤ 2 ^ 64)
    (h : (steps ((place firstAddress (ins ++ outs)).take ins.length)
      ((place firstAddress (ins ++ outs)).drop ins.length)).run (start ins outs) =
        .ok () (start ins outs)) :
    run ins outs steps = ⟨.ok (), [], outs⟩ := by
  simp only [run, h, outputsOf_start hfit]
  rfl

end Run

end Buffers

/-! ## Calls -/

/-- The steps of a static subgraph on buffers: these are checked before anything else. -/
def StaticSubgraph.attempt (graph : StaticSubgraph) (inputs outputs : List Buffers.Buffer)
    (found : Residue) : Buffers.Outcome :=
  Buffers.run inputs outputs fun sources targets => do
    Attempt.check <| Buffers.check graph.inputShapes graph.domain.elements graph.table.outputs inputs
      outputs
    graph.attemptAt Buffers.callSite found sources targets

/-- The steps of a dynamic subgraph on buffers of given shapes: a kernel is looked for first, then the
call is prepared, and then the buffers are checked. -/
def DynamicSubgraph.attempt (graph : DynamicSubgraph) (shapes : List Shape)
    (inputs outputs : List Buffers.Buffer) (found : Residue) : Buffers.Outcome :=
  Buffers.run inputs outputs fun sources targets =>
    match graph.kernel with
    | .error cause => throw (.notCompiled cause)
    | .ok image => do
      let call ← Attempt.check (graph.prepare shapes)
      Attempt.check (Buffers.check shapes call.1.elements graph.outputs inputs outputs)
      graph.attemptAt image call.1 call.2 Buffers.callSite found sources targets

/-- A check that does not depend on the memory may be made before the buffers are placed. -/
theorem Buffers.through_check_bind {α : Type} (x : Except Error α) (ins outs : List Buffer)
    (compute : α → (sources targets : List Address) → Memory → Except Error Memory) :
    through ins outs (fun sources targets memory => x >>= fun a => compute a sources targets memory) =
      x >>= fun a => through ins outs (compute a) := by
  cases x <;> rfl

/-- **The steps of a static subgraph** give the answer of its execution. -/
theorem StaticSubgraph.answer_attempt (graph : StaticSubgraph) (ins outs : List Buffers.Buffer)
    (found : Residue) : (graph.attempt ins outs found).answer = graph.execute ins outs found := by
  rw [attempt, execute, ← Buffers.through_check_bind]
  exact Buffers.answer_run fun sources targets =>
    .check_bind fun _ => graph.computes_attemptAt Buffers.callSite found sources targets

/-- **The steps of a dynamic subgraph** give the answer of its execution. -/
theorem DynamicSubgraph.answer_attempt (graph : DynamicSubgraph) (shapes : List Shape)
    (ins outs : List Buffers.Buffer) (found : Residue) :
    (graph.attempt shapes ins outs found).answer = graph.execute shapes ins outs found := by
  rw [attempt, execute]
  cases graph.kernel with
  | error cause => exact Buffers.answer_run fun sources targets => .throw (.notCompiled cause)
  | ok image =>
    dsimp only
    have hchecks : (graph.prepare shapes >>= fun call =>
          Buffers.check shapes call.1.elements graph.outputs ins outs >>= fun _ =>
            Buffers.through ins outs
              (graph.executeAt image call.1 call.2 Buffers.callSite · · · found)) =
        Buffers.through ins outs fun sources targets memory =>
          graph.prepare shapes >>= fun call =>
            Buffers.check shapes call.1.elements graph.outputs ins outs >>= fun _ =>
              graph.executeAt image call.1 call.2 Buffers.callSite sources targets memory found := by
      simp only [Buffers.through_check_bind]
    refine Eq.trans ?_ hchecks.symm
    exact Buffers.answer_run fun sources targets => .check_bind fun call => .check_bind fun _ =>
      graph.computes_attemptAt image call.1 call.2 Buffers.callSite found sources targets

end Pointwise
