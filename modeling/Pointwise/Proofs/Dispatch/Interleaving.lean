import Pointwise.Proofs.Dispatch.Tasks
import Pointwise.Proofs.Dispatch.Threads
import Pointwise.Proofs.Kernel.Sequence

/-!
# Calls in any order

The calls of a computation may be shared among threads that take turns in any order. A thread reads the
argument block and elements of inputs that no thread writes, and it accesses its stack, its index vector and
the shares of its calls, which no other thread accesses. Elements of inputs in the place of outputs belong
to the shares.

## Main definitions

* `Computation.Private`, `Computation.Common` — the bytes of a thread, and those that threads share.
* `Computation.Alone` — where a thread can be that makes consecutive calls alone.
* `Computation.Tasks` — tasks whose threads run at the same time.
* `Dispatch.threads` — the threads for the calls of tasks.

## Main results

* `Computation.Alone.step`, `Computation.solo` — a thread keeps to its bytes, step by step.
* `Computation.Tasks.interleave_of_inPlace` — in whatever order threads take turns, the outputs hold the
  values of the program when all threads are finished.
-/

set_option autoImplicit false

namespace Pointwise

open Machine

/-- The threads for the calls of tasks, each with a stack and an index vector of its own. -/
def Dispatch.threads (site : Nat → CallSite) (found : Residue) (calls : List (List (List Nat))) :
    List Thread :=
  calls.mapIdx fun i calls => ⟨site i, found, calls, none⟩

/-- Calls that use no bytes of each other. -/
def CallSite.Apart (dims : Nat) (site other : CallSite) : Prop :=
  ∀ span ∈ [site.frame, site.indexSpan dims], ∀ span' ∈ [other.frame, other.indexSpan dims],
    span.Disjoint span'

/-- The calls from one on. -/
theorem Dispatch.callsFrom_of_lt {dims : Shape} {call stop : Nat} (h : call < stop) :
    Dispatch.callsFrom dims call stop =
      Shape.unravel dims call :: Dispatch.callsFrom dims (call + 1) stop := by
  obtain ⟨n, rfl⟩ : ∃ n, stop = call + 1 + n := ⟨stop - (call + 1), by omega⟩
  rw [Dispatch.callsFrom, Dispatch.callsFrom, Nat.add_assoc, Nat.add_sub_cancel_left,
    ← Nat.add_assoc call, Nat.add_sub_cancel_left, Nat.add_comm 1, List.range'_succ, List.map_cons]

namespace Computation

variable (c : Computation)

/-- The bytes that nobody but a thread accesses: its stack, its index vector, and the shares of its
calls. -/
def Private (site : CallSite) (first stop : Nat) (a : Address) : Prop :=
  site.frame.Covers a ∨ (site.indexSpan c.callDims.length).Covers a ∨
    c.Owns (first * c.share) (stop * c.share) a

/-- The bytes that all threads read: the inputs, where they are apart from the outputs, and the argument
block. -/
def Common (block : Address) (a : Address) : Prop :=
  (c.Reads a ∧ ∀ target ∈ c.targets, ¬ (c.span target).Covers a) ∨
    Span.Covers ⟨block, ArgumentBlock.byteSize⟩ a

/-- Where a thread can be that makes the calls from `first` to `stop` alone, with a bound on the number
of turns that are left. -/
inductive Alone (code : Code) (site : CallSite) (found : Residue)
    (input : (param position : Nat) → Binary32) (start : Memory) (first stop : Nat) :
    Thread → Memory → Nat → Prop
  /-- It has made the calls in front of `call`. -/
  | idle {call : Nat} {memory : Memory} (hfirst : first ≤ call) (hstop : call ≤ stop)
      (h : c.Advanced site input (first * c.share) (call * c.share) start memory) :
      Alone code site found input start first stop
        ⟨site, found, Dispatch.callsFrom c.callDims call stop, none⟩ memory
        ((stop - call) * (KernelImage.stepBound ⟨code⟩ c.domain.tiled + 1))
  /-- It is about to have made them. -/
  | busy {call bound position : Nat} {core : Core} {memory : Memory} {t : MachineState}
      (hfirst : first ≤ call) (hstop : call ≤ stop)
      (hrun : Machine.run code bound position (core.within memory) = some t)
      (haccess : ∀ x ∈ visited code bound position (core.within memory),
        (∀ span ∈ x.1.loads x.2, ∀ a, span.Covers a →
          site.frame.Covers a ∨ c.Arguments site a ∨ c.Needs (first * c.share) (stop * c.share) a) ∧
        ∀ span ∈ x.1.stores x.2, ∀ a, span.Covers a →
          site.frame.Covers a ∨ c.Owns (first * c.share) (stop * c.share) a)
      (h : c.Advanced site input (first * c.share) (call * c.share) start t.memory) :
      Alone code site found input start first stop
        ⟨site, found, Dispatch.callsFrom c.callDims call stop, some (position, core)⟩ memory
        (bound + (stop - call) * (KernelImage.stepBound ⟨code⟩ c.domain.tiled + 1))

variable {c}

section Alone

variable {code : Code} {site : CallSite} {found : Residue} {input : (param position : Nat) → Binary32}
  {start : Memory} {first stop left : Nat} {thread : Thread} {memory : Memory}

/-- A thread that is finished has made all its calls. -/
theorem Alone.advanced (h : c.Alone code site found input start first stop thread memory left)
    (hfinished : thread.Finished) :
    c.Advanced site input (first * c.share) (stop * c.share) start memory ∧
      c.Alone code site found input start first stop thread memory 0 := by
  obtain ⟨hcalls, hactive⟩ := hfinished
  cases h with
  | @idle call _ hfirst hstop h =>
    have hlast : call = stop := by
      by_contra hne
      rw [Dispatch.callsFrom_of_lt (by omega)] at hcalls
      cases hcalls
    subst hlast
    have halone : c.Alone code site found input start first call _ _ _ := .idle hfirst hstop h
    rw [Nat.sub_self, Nat.zero_mul] at halone
    exact ⟨h, halone⟩
  | busy => cases hactive

/-- The first instruction of a run is visited. -/
theorem mem_visited {bound position : Nat} {s t : MachineState} {i : Instruction}
    (hrun : Machine.run code bound position s = some t) (hi : code[position]? = some i) :
    (i, s) ∈ visited code bound position s := by
  cases bound with
  | zero => cases hrun
  | succ bound =>
    rw [visited, hi]
    exact List.mem_cons_self

/-- A thread that has made its calls or runs one of them is not stuck. -/
theorem Alone.runs (h : c.Alone code site found input start first stop thread memory left) :
    ¬ thread.Stuck code memory := by
  rintro ⟨position, core, hactive, hstuck⟩
  cases h with
  | idle => cases hactive
  | @busy _ bound _ _ _ _ _ _ hrun =>
    obtain ⟨rfl, rfl⟩ := Prod.mk.inj (Option.some.inj hactive)
    cases bound with
    | zero => cases hrun
    | succ bound =>
      rw [Machine.run, hstuck] at hrun
      cases hrun

/-- What a thread needs for its calls belongs to it, or is shared. -/
theorem Needs.private_or_common (hplace : c.InPlace) (hstop : stop ≤ c.callDims.count) {a : Address}
    (h : c.Needs (first * c.share) (stop * c.share) a) (site : CallSite) :
    c.Private site first stop a ∨ c.Common site.block a := by
  have hle : stop * c.share ≤ c.domain.elements :=
    (Nat.mul_le_mul_right _ hstop).trans_eq (count_mul_share hplace.toProper)
  by_cases hcovers : ∃ target ∈ c.targets, (c.span target).Covers a
  · obtain ⟨target, htarget, hcovers⟩ := hcovers
    exact .inl (.inr (.inr (h.owns hplace hle htarget hcovers)))
  · push Not at hcovers
    exact .inr (.inl ⟨h.reads hle, hcovers⟩)

/-- A thread reads its own bytes and those that are shared. -/
theorem Alone.loads (hplace : c.InPlace) (hstop : stop ≤ c.callDims.count)
    (h : c.Alone code site found input start first stop thread memory left) :
    ∀ span ∈ thread.loads code memory, ∀ a, span.Covers a →
      c.Private site first stop a ∨ c.Common site.block a := by
  intro span hspan a ha
  cases h with
  | idle => cases hspan
  | @busy _ _ position core memory _ _ _ hrun haccess =>
    cases hi : code[position]? with
    | none => simp [Thread.loads, hi] at hspan
    | some i =>
      simp only [Thread.loads, hi, Option.map_some, Option.getD_some] at hspan
      rcases (haccess _ (mem_visited hrun hi)).1 span hspan a ha with hframe | (hblock | hindex) | hneeds
      · exact .inl (.inl hframe)
      · exact .inr (.inr hblock)
      · exact .inl (.inr (.inl hindex))
      · exact hneeds.private_or_common hplace hstop site

/-- A thread writes its own bytes. -/
theorem Alone.stores (h : c.Alone code site found input start first stop thread memory left) :
    ∀ span ∈ thread.stores code memory, ∀ a, span.Covers a → c.Private site first stop a := by
  intro span hspan a ha
  cases h with
  | @idle call memory hfirst hle _ =>
    rcases Nat.lt_or_ge call stop with hlt | hge
    · rw [Dispatch.callsFrom_of_lt hlt] at hspan
      obtain rfl := List.mem_singleton.1 hspan
      rw [Shape.length_unravel] at ha
      exact .inr (.inl ha)
    · rw [Dispatch.callsFrom, Nat.sub_eq_zero_of_le hge] at hspan
      cases hspan
  | @busy _ _ position core memory _ _ _ hrun haccess =>
    cases hi : code[position]? with
    | none => simp [Thread.stores, hi] at hspan
    | some i =>
      simp only [Thread.stores, hi, Option.map_some, Option.getD_some] at hspan
      rcases (haccess _ (mem_visited hrun hi)).2 span hspan a ha with hframe | howns
      · exact .inl hframe
      · exact .inr (.inr howns)

/-- **A thread makes one step after the other.** When it begins a call, the calls before it have left the
argument block and the elements for the call as they were. -/
theorem Alone.step {block : ArgumentBlock} (hcode : c.Computes code block) (hplace : c.InPlace)
    (hhosts : c.Hosts site) (hready : c.Ready block site input start)
    (hcount : stop ≤ c.callDims.count)
    (h : c.Alone code site found input start first stop thread memory left) (hfinished : ¬ thread.Finished) :
    ∃ left' < left, c.Alone code site found input start first stop (thread.step code memory).1
      (thread.step code memory).2 left' := by
  cases h with
  | @idle call memory hfirst hle hadvanced =>
    have hlt : call < stop := by
      refine Nat.lt_of_not_le fun hge => hfinished ⟨?_, rfl⟩
      rw [Dispatch.callsFrom, Nat.sub_eq_zero_of_le hge]
      rfl
    have hcall := Nat.lt_of_lt_of_le hlt hcount
    have hready' := Advanced.readyFor_call hplace hhosts hready hfirst hcall hadvanced
    let core := found (Shape.unravel c.callDims call)
    obtain ⟨t, hrun, hnext⟩ := hcode.run_start hplace hhosts hready' hcall core
    have haccess := hcode.accesses hhosts (hready'.called hhosts core call) hcall
    rw [Dispatch.callsFrom_of_lt hlt]
    refine ⟨_, ?_, Alone.busy (Nat.le_succ_of_le hfirst) hlt hrun (fun x hx => ?_)
      (hadvanced.trans (Nat.mul_le_mul_right _ hfirst) (Nat.mul_le_mul_right _ (Nat.le_succ call))
        hnext)⟩
    · have hsucc : stop - call = stop - (call + 1) + 1 := by omega
      rw [hsucc, Nat.succ_mul]
      omega
    · have hle : first * c.share ≤ call * c.share := Nat.mul_le_mul_right _ hfirst
      have hle' : (call + 1) * c.share ≤ stop * c.share := Nat.mul_le_mul_right _ hlt
      refine ⟨fun span hspan a ha => ?_, fun span hspan a ha => ?_⟩
      · exact ((haccess x hx).1 span hspan a ha).imp_right fun h => h.imp_right fun hneeds =>
          hneeds.mono hle hle'
      · exact ((haccess x hx).2 span hspan a ha).imp_right fun howns => howns.mono hle hle'
  | @busy call bound position core _ t hfirst hle hrun haccess hadvanced =>
    cases bound with
    | zero => cases hrun
    | succ bound =>
      rw [Machine.run] at hrun
      cases hstep : Machine.step code position (core.within memory) with
      | stuck =>
        rw [hstep] at hrun
        cases hrun
      | done u =>
        rw [hstep] at hrun
        obtain rfl := Option.some.inj hrun
        simp only [Thread.step, hstep]
        exact ⟨_, by omega, Alone.idle hfirst hle hadvanced⟩
      | goOn next u =>
        rw [hstep] at hrun
        simp only [Thread.step, hstep]
        refine ⟨_, ?_, Alone.busy hfirst hle hrun (fun x hx => haccess x ?_) hadvanced⟩
        · omega
        · cases hi : code[position]? with
          | none => simp [Machine.step, hi] at hstep
          | some i =>
            rw [visited, hi]
            dsimp only
            rw [hstep]
            exact List.mem_cons_of_mem _ hx

/-- **A thread keeps to its bytes.** -/
theorem solo {block : ArgumentBlock} (h : c.Computes code block) (hplace : c.InPlace)
    (hhosts : c.Hosts site) (hready : c.Ready block site input start)
    (hstop : stop ≤ c.callDims.count) :
    Thread.Solo code (c.Private site first stop) (c.Common site.block)
      (c.Alone code site found input start first stop) where
  runs halone := halone.runs
  loads halone := halone.loads hplace hstop
  stores halone := halone.stores
  finished halone hfinished := (halone.advanced hfinished).2
  step halone := halone.step h hplace hhosts hready hstop

end Alone

/-! ## All threads -/

section Threads

variable {code : Code} {block : ArgumentBlock} {site : Nat → CallSite} {found : Residue}
  {input : (param position : Nat) → Binary32} {memory : Memory} {bound : Nat → Nat} {tasks : Nat}

/-- The calls of tasks that follow each other, the last one ending with the last call. -/
def tasksAt (c : Computation) (bound : Nat → Nat) (tasks : Nat) : List (List (List Nat)) :=
  (List.range tasks).map fun i => Dispatch.callsFrom c.callDims (bound i) (bound (i + 1))

theorem getElem?_threads (c : Computation) (site : Nat → CallSite) (bound : Nat → Nat) {i : Nat}
    {thread : Thread}
    (h : (Dispatch.threads site found (c.tasksAt bound tasks))[i]? = some thread) :
    i < tasks ∧
      thread = ⟨site i, found, Dispatch.callsFrom c.callDims (bound i) (bound (i + 1)), none⟩ := by
  obtain ⟨hlt, rfl⟩ := List.getElem?_eq_some_iff.1 h
  simp only [Dispatch.threads, tasksAt, List.length_mapIdx, List.length_map, List.length_range] at hlt
  exact ⟨hlt, by simp [Dispatch.threads, tasksAt]⟩

/-- Each call is one of a task. -/
theorem exists_task (hzero : bound 0 = 0) {call : Nat}
    (h : call < bound tasks) : ∃ i < tasks, bound i ≤ call ∧ call < bound (i + 1) := by
  induction tasks with
  | zero => omega
  | succ tasks ih =>
    rcases Nat.lt_or_ge call (bound tasks) with hlt | hge
    · obtain ⟨i, hi, hcall⟩ := ih hlt
      exact ⟨i, Nat.lt_succ_of_lt hi, hcall⟩
    · exact ⟨tasks, Nat.lt_succ_self _, hge, h⟩

/-- **What is private is not shared.** -/
theorem Private.not_common (hproper : c.Proper) {site : CallSite} (hhosts : c.Hosts site)
    {first stop : Nat} (hle : first ≤ stop) (hstop : stop ≤ c.callDims.count) {a : Address}
    (h : c.Private site first stop a) : ¬ c.Common site.block a := by
  rintro (⟨hread, hapart⟩ | hblock)
  · rcases h with hframe | hindex | howns
    · exact hhosts.frame_sources a hread hframe
    · exact hhosts.index_sources a hread hindex
    · obtain ⟨target, htarget, hcovers⟩ := owns_calls hproper hle hstop howns
      exact hapart target htarget hcovers
  · rcases h with hframe | hindex | howns
    · exact hhosts.frame_block a hframe hblock
    · exact hhosts.index_block a hindex hblock
    · obtain ⟨target, htarget, hcovers⟩ := owns_calls hproper hle hstop howns
      exact hhosts.block_targets target htarget a hblock hcovers

/-- What is private to a thread lies apart from the stacks and index vectors of the others. -/
theorem Private.own_or_owns {site other : CallSite} {dims : Nat} (hdims : c.callDims.length = dims)
    (hapart : site.Apart dims other) {first stop : Nat} {a : Address} (h : c.Private site first stop a)
    {span : Span} (hspan : span ∈ [other.frame, other.indexSpan dims]) (ha : span.Covers a) :
    c.Owns (first * c.share) (stop * c.share) a := by
  subst hdims
  rcases h with hframe | hindex | howns
  · exact absurd ha (hapart _ (by simp) span hspan a hframe)
  · exact absurd ha (hapart _ (by simp) span hspan a hindex)
  · exact howns

/-- **Threads have no private bytes in common** if they make different calls. -/
theorem Private.disjoint (hplace : c.InPlace) {site other : CallSite} (hhosts : c.Hosts site)
    (hhosts' : c.Hosts other) (hapart : site.Apart c.callDims.length other)
    {first stop first' stop' : Nat} (hle : first ≤ stop) (hnext : stop ≤ first') (hle' : first' ≤ stop')
    (hstop : stop' ≤ c.callDims.count) {a : Address} (h : c.Private site first stop a) :
    ¬ c.Private other first' stop' a := by
  have hbefore : stop ≤ c.callDims.count := hnext.trans (hle'.trans hstop)
  have hshare : stop' * c.share ≤ c.domain.elements :=
    (Nat.mul_le_mul_right _ hstop).trans_eq (count_mul_share hplace.toProper)
  have htargets : c.Owns (first * c.share) (stop * c.share) a →
      ¬ other.frame.Covers a ∧ ¬ (other.indexSpan c.callDims.length).Covers a := by
    intro howns
    obtain ⟨target, htarget, hcovers⟩ := owns_calls hplace.toProper hle hbefore howns
    exact ⟨fun hframe => hhosts'.frame_targets target htarget a hframe hcovers,
      fun hindex => hhosts'.index_targets target htarget a hindex hcovers⟩
  rintro (hframe | hindex | howns')
  · exact (htargets (h.own_or_owns rfl hapart (by simp) hframe)).1 hframe
  · exact (htargets (h.own_or_owns rfl hapart (by simp) hindex)).2 hindex
  · rcases h with hframe | hindex | howns
    · obtain ⟨target, htarget, hcovers⟩ := owns_calls hplace.toProper hle' hstop howns'
      exact hhosts.frame_targets target htarget a hframe hcovers
    · obtain ⟨target, htarget, hcovers⟩ := owns_calls hplace.toProper hle' hstop howns'
      exact hhosts.index_targets target htarget a hindex hcovers
    · exact howns.disjoint hplace (Nat.mul_le_mul_right _ hle) (Nat.mul_le_mul_right _ hnext)
        (Nat.mul_le_mul_right _ hle') hshare howns'

/-- What has to hold of tasks whose threads run at the same time: each has bytes of its own, they share the
argument block, and together they make all calls. -/
structure Tasks (c : Computation) (block : ArgumentBlock) (site : Nat → CallSite)
    (input : (param position : Nat) → Binary32) (memory : Memory) (bound : Nat → Nat) (tasks : Nat) :
    Prop where
  hosts : ∀ i < tasks, c.Hosts (site i)
  ready : ∀ i < tasks, c.Ready block (site i) input memory
  block : ∀ i < tasks, ∀ j < tasks, (site i).block = (site j).block
  apart : ∀ i < tasks, ∀ j < tasks, i ≠ j → (site i).Apart c.callDims.length (site j)
  mono : Monotone bound
  zero : bound 0 = 0
  last : bound tasks = c.callDims.count

section Tasks

variable (h : c.Computes code block) (hplace : c.InPlace)
  (htasks : c.Tasks block site input memory bound tasks)

include h hplace htasks

/-- Each thread keeps to its bytes. -/
theorem Tasks.solo {i : Nat} (hi : i < tasks) :
    Thread.Solo code (c.Private (site i) (bound i) (bound (i + 1))) (c.Common (site 0).block)
      (c.Alone code (site i) found input memory (bound i) (bound (i + 1))) := by
  rw [htasks.block 0 (by omega) i hi]
  exact Computation.solo h hplace (htasks.hosts i hi) (htasks.ready i hi)
    ((htasks.mono hi).trans_eq htasks.last)

/-- **Each thread follows a run of its own** in whatever order the threads take turns. -/
theorem Tasks.follow (turns : List Nat) {threads : List Thread} {memory' : Memory}
    (hturns : Thread.interleave code turns (Dispatch.threads site found (c.tasksAt bound tasks)) memory =
      (threads, memory')) :
    Thread.Follow (fun i => c.Private (site i) (bound i) (bound (i + 1))) (c.Common (site 0).block)
      (fun i => c.Alone code (site i) found input memory (bound i) (bound (i + 1))) threads memory'
      fun i => (bound (i + 1) - bound i) * (KernelImage.stepBound ⟨code⟩ c.domain.tiled + 1) -
        turns.count i := by
  have hmono := htasks.mono
  have hle : ∀ i < tasks, bound (i + 1) ≤ c.callDims.count := fun i hi =>
    (hmono hi).trans_eq htasks.last
  have hlen : (Dispatch.threads site found (c.tasksAt bound tasks)).length = tasks := by
    simp [Dispatch.threads, tasksAt]
  have hbegin : Thread.Follow (fun i => c.Private (site i) (bound i) (bound (i + 1)))
      (c.Common (site 0).block)
      (fun i => c.Alone code (site i) found input memory (bound i) (bound (i + 1)))
      (Dispatch.threads site found (c.tasksAt bound tasks)) memory
      fun i => (bound (i + 1) - bound i) * (KernelImage.stepBound ⟨code⟩ c.domain.tiled + 1) := by
    intro i thread hthread
    obtain ⟨-, rfl⟩ := getElem?_threads c site bound hthread
    exact ⟨memory, _, .idle le_rfl (hmono (Nat.le_succ i)) (.refl c _ input _ memory), le_rfl,
      fun _ _ => rfl⟩
  have hfollow := hbegin.interleave (fun i hi => htasks.solo h hplace (hlen ▸ hi))
    (fun i j hi hj hij a ha => ?_) (fun i hi a ha => ?_) turns
  · rwa [hturns] at hfollow
  · rw [hlen] at hi hj
    rcases Nat.lt_or_gt_of_ne hij with hlt | hlt
    · exact ha.disjoint hplace (htasks.hosts i hi) (htasks.hosts j hj) (htasks.apart i hi j hj hij)
        (hmono (Nat.le_succ i)) (hmono hlt) (hmono (Nat.le_succ j)) (hle j hj)
    · exact fun ha' => ha'.disjoint hplace (htasks.hosts j hj) (htasks.hosts i hi)
        (htasks.apart j hj i hi hij.symm) (hmono (Nat.le_succ j)) (hmono hlt) (hmono (Nat.le_succ i))
        (hle i hi) ha
  · rw [hlen] at hi
    rw [htasks.block 0 (by omega) i hi]
    exact ha.not_common hplace.toProper (htasks.hosts i hi) (hmono (Nat.le_succ i)) (hle i hi)

/-- **In whatever order threads take turns, the outputs hold the values of the program** when all threads
are finished, and they are when each of them had enough turns. The outputs may take the place of inputs.

**Proof sketch.** Each thread follows a run of its own, on memories that agree on the bytes of the thread
and on what is shared. The numbers of a call's share are bytes of its thread, so that they are those of
the thread's own run. -/
theorem Tasks.interleave_of_inPlace (turns : List Nat) {threads : List Thread} {memory' : Memory}
    (hturns : Thread.interleave code turns (Dispatch.threads site found (c.tasksAt bound tasks)) memory =
      (threads, memory')) :
    ((∀ i < tasks, (bound (i + 1) - bound i) * (KernelImage.stepBound ⟨code⟩ c.domain.tiled + 1) ≤
        turns.count i) → ∀ thread ∈ threads, thread.Finished) ∧
      ((∀ thread ∈ threads, thread.Finished) → ∀ target ∈ c.outputs input, ∀ f < c.domain.elements,
        memory'.readNumber (target.start + BitVec.ofNat 64 (4 * f)) = target.value f) := by
  have hfollow := htasks.follow h hplace turns hturns
  have hlength : threads.length = tasks := by
    have hlen := @Thread.length_interleave code turns
      (Dispatch.threads site found (c.tasksAt bound tasks)) memory
    rw [hturns] at hlen
    simpa [Dispatch.threads, tasksAt] using hlen
  refine ⟨fun henough thread hthread => ?_, fun hfinished target htarget f hf => ?_⟩
  · obtain ⟨i, hi, rfl⟩ := List.getElem_of_mem hthread
    refine hfollow.finished (fun i hi => htasks.solo h hplace (hlength ▸ hi))
      (List.getElem?_eq_getElem hi) ?_
    have henough := henough i (hlength ▸ hi)
    omega
  · -- the thread that makes the call of the position
    have hshare := share_pos hplace.toProper
    have hcall : f / c.share < bound tasks := by
      rw [htasks.last]
      exact Nat.div_lt_of_lt_mul (by rwa [Nat.mul_comm, count_mul_share hplace.toProper])
    obtain ⟨i, hi, hfirst, hstop⟩ := exists_task htasks.zero hcall
    have hthread := List.getElem?_eq_getElem (l := threads) (i := i) (by omega)
    obtain ⟨alone, n, halone, -, hagree⟩ := hfollow i _ hthread
    obtain ⟨hadvanced, -⟩ := halone.advanced (hfinished _ (List.getElem_mem _))
    have hfirst' : bound i * c.share ≤ f := (Nat.le_div_iff_mul_le hshare).1 hfirst
    have hstop' : f < bound (i + 1) * c.share := (Nat.div_lt_iff_lt_mul hshare).1 hstop
    have hnumber := hadvanced.number target htarget f hf
    rw [if_pos ⟨hfirst', hstop'⟩] at hnumber
    rw [← hnumber]
    exact Memory.readNumber_congr fun a ha => (hagree a (.inl (.inr (.inr
      (owns_number (start_mem_targets htarget) hfirst' hstop' ha))))).symm

end Tasks

end Threads

end Computation

end Pointwise
