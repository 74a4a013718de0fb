import Mathlib.Data.List.Count
import Pointwise.Kernel.Image
import Pointwise.Proofs.Machine.Agree

/-!
# Threads that share a memory

Threads take turns in making calls of the same code: in each turn one of them executes one instruction,
or writes the index vector of its next call. A thread whose accesses keep to bytes that no other thread
writes does the same as if it were alone, however the turns are taken.

## Main definitions

* `Thread` — calls that are made one after the other.
* `Thread.step` — one turn of a thread.
* `Thread.interleave` — turns in a given order.
* `Thread.Solo` — what is needed of a thread that is alone.

## Main results

* `Thread.step_agrees` — a turn does the same in memories that agree on what is read.
* `Thread.Follow.interleave` — every thread follows a run of its own.
* `Thread.Follow.finished` — a thread that had enough turns is finished.
-/

set_option autoImplicit false

namespace Pointwise

open Machine

/-- A thread that makes calls one after the other, with a stack and an index vector of its own. -/
structure Thread where
  site : CallSite
  /-- What the calls find in the registers. -/
  found : Residue
  /-- The index vectors of the calls that have not begun. -/
  calls : List (List Nat)
  /-- Where the call is that has begun, with its registers. -/
  active : Option (Nat × Core)

namespace Thread

/-- A thread that has no more to do. -/
def Finished (thread : Thread) : Prop := thread.calls = [] ∧ thread.active = none

/-- One turn of a thread: it executes one instruction, or writes the index vector of its next call and
begins with it. A thread that is finished, or stuck, does nothing. -/
def step (code : Code) (thread : Thread) (memory : Memory) : Thread × Memory :=
  match thread.active, thread.calls with
  | some (position, core), calls =>
    match Machine.step code position (core.within memory) with
    | .goOn next t => (⟨thread.site, thread.found, calls, some (next, t.core)⟩, t.memory)
    | .done t => (⟨thread.site, thread.found, calls, none⟩, t.memory)
    | .stuck => (thread, memory)
  | none, index :: calls =>
    let memory := memory.writeWords thread.site.index (index.map (BitVec.ofNat 64))
    let begun := thread.site.entry (thread.found index) memory
    (⟨thread.site, thread.found, calls, some (0, begun.core)⟩, memory)
  | none, [] => (thread, memory)

/-- Threads that take turns in a given order, with the memory that they share. -/
def interleave (code : Code) : (turns : List Nat) → List Thread → Memory → List Thread × Memory
  | [], threads, memory => (threads, memory)
  | i :: turns, threads, memory =>
    match threads[i]? with
    | some thread =>
      let (thread, memory) := thread.step code memory
      interleave code turns (threads.set i thread) memory
    | none => interleave code turns threads memory

/-! ## Accesses of a turn -/

/-- The bytes that a thread reads in its next turn. -/
def loads (code : Code) (thread : Thread) (memory : Memory) : List Span :=
  match thread.active with
  | some (position, core) => (code[position]?.map (·.loads (core.within memory))).getD []
  | none => []

/-- The bytes that a thread writes in its next turn. -/
def stores (code : Code) (thread : Thread) (memory : Memory) : List Span :=
  match thread.active, thread.calls with
  | some (position, core), _ => (code[position]?.map (·.stores (core.within memory))).getD []
  | none, index :: _ => [⟨thread.site.index, 8 * index.length⟩]
  | none, [] => []

/-- A thread whose next instruction cannot be executed. -/
def Stuck (code : Code) (thread : Thread) (memory : Memory) : Prop :=
  ∃ position core, thread.active = some (position, core) ∧
    Machine.step code position (core.within memory) = .stuck

variable {code : Code} {thread : Thread} {memory memory' : Memory} {known : Address → Prop}

/-- What a thread writes depends on its registers only. -/
theorem stores_congr (code : Code) (thread : Thread) (memory memory' : Memory) :
    thread.stores code memory = thread.stores code memory' := by
  obtain ⟨site, found, calls, _ | ⟨position, core⟩⟩ := thread
  · cases calls <;> rfl
  · cases hi : code[position]? with
    | none => simp [stores, hi]
    | some i =>
      have hstores : i.stores (core.within memory) = i.stores (core.within memory') :=
        (Instruction.accesses_congr rfl i).2
      simp [stores, hi, hstores]

/-- **A turn leaves all bytes alone that it does not write.** -/
theorem read_step {a : Address} (h : ∀ span ∈ thread.stores code memory, ¬ span.Covers a) :
    (thread.step code memory).2.read a = memory.read a := by
  obtain ⟨site, found, calls, _ | ⟨position, core⟩⟩ := thread
  · cases calls with
    | nil => rfl
    | cons index calls =>
      refine Memory.read_writeWords ?_
      rw [List.length_map]
      exact h _ (by simp [stores])
  · cases hstep : Machine.step code position (core.within memory) with
    | stuck => simp [step, hstep]
    | done t =>
      obtain rfl := eq_of_step_done hstep
      simp only [step, hstep]
      rfl
    | goOn next t =>
      cases hi : code[position]? with
      | none => simp [Machine.step, hi] at hstep
      | some i =>
        have hread := Machine.read_step (a := a) hi hstep fun span hspan =>
          h span (by simpa [stores, hi] using hspan)
        simp only [step, hstep]
        exact hread

/-- **A turn does the same in memories that agree on what is read.** -/
theorem step_agrees (hagree : ∀ a, known a → memory.read a = memory'.read a)
    (hrun : ¬ thread.Stuck code memory)
    (hloads : ∀ span ∈ thread.loads code memory, ∀ a, span.Covers a → known a) :
    (thread.step code memory).1 = (thread.step code memory').1 ∧
      ∀ a, known a → (thread.step code memory).2.read a = (thread.step code memory').2.read a := by
  obtain ⟨site, found, calls, _ | ⟨position, core⟩⟩ := thread
  · cases calls with
    | nil => exact ⟨rfl, hagree⟩
    | cons index calls => exact ⟨rfl, fun a ha => Memory.read_writeWords_congr _ (hagree a ha)⟩
  · have h : (core.within memory).Agrees known (core.within memory') := ⟨rfl, rfl, rfl, hagree⟩
    cases hstep : Machine.step code position (core.within memory) with
    | stuck => exact absurd ⟨position, core, rfl, hstep⟩ hrun
    | done t =>
      obtain ⟨t', hstep', ht⟩ := h.done hstep
      simp only [step, hstep, hstep', true_and]
      exact ht.read
    | goOn next t =>
      obtain ⟨t', hstep', ht⟩ := h.goOn (fun i hi span hspan =>
        hloads span (by simpa [loads, hi] using hspan)) hstep
      have hcore : t.core = t'.core := by
        rw [MachineState.core, MachineState.core, ht.words, ht.vectors, ht.outcome]
      simp only [step, hstep, hstep', hcore, true_and]
      exact ht.read

/-! ## Threads among others -/

/-- What is needed of a thread that is alone: an invariant of its turns, with a bound on the number of
turns that are left. It reads its own bytes and shared ones, and writes its own bytes only. -/
structure Solo (code : Code) (own shared : Address → Prop) (alone : Thread → Memory → Nat → Prop) :
    Prop where
  runs : ∀ {thread memory left}, alone thread memory left → ¬ thread.Stuck code memory
  loads : ∀ {thread memory left}, alone thread memory left → ∀ span ∈ thread.loads code memory,
    ∀ a, span.Covers a → own a ∨ shared a
  stores : ∀ {thread memory left}, alone thread memory left → ∀ span ∈ thread.stores code memory,
    ∀ a, span.Covers a → own a
  finished : ∀ {thread memory left}, alone thread memory left → thread.Finished → alone thread memory 0
  step : ∀ {thread memory left}, alone thread memory left → ¬ thread.Finished →
    ∃ left' < left, alone (thread.step code memory).1 (thread.step code memory).2 left'

/-- Threads each of which is where it could be alone, with a bound on the number of turns that are
left: the shared memory agrees with that of a run of its own on all bytes that matter to the thread. -/
def Follow (own : Nat → Address → Prop) (shared : Address → Prop)
    (alone : Nat → Thread → Memory → Nat → Prop) (threads : List Thread) (memory : Memory)
    (left : Nat → Nat) : Prop :=
  ∀ (i : Nat) (thread : Thread), threads[i]? = some thread → ∃ solo n, alone i thread solo n ∧
    n ≤ left i ∧ ∀ a, own i a ∨ shared a → solo.read a = memory.read a

theorem length_interleave (turns : List Nat) (threads : List Thread) (memory : Memory) :
    (interleave code turns threads memory).1.length = threads.length := by
  induction turns generalizing threads memory with
  | nil => rfl
  | cons i turns ih =>
    rw [interleave]
    split
    · rw [ih, List.length_set]
    · exact ih threads memory

section Follow

variable {own : Nat → Address → Prop} {shared : Address → Prop}
  {alone : Nat → Thread → Memory → Nat → Prop} {threads : List Thread} {left : Nat → Nat}

/-- **A turn of one thread** keeps every thread where it could be alone. -/
theorem Follow.step (h : Follow own shared alone threads memory left)
    (hsolo : ∀ i < threads.length, Solo code (own i) shared (alone i))
    (hown : ∀ i j, i < threads.length → j < threads.length → i ≠ j → ∀ a, own i a → ¬ own j a)
    (hshared : ∀ i < threads.length, ∀ a, own i a → ¬ shared a) {i : Nat}
    (hi : threads[i]? = some thread) :
    Follow own shared alone (threads.set i (thread.step code memory).1) (thread.step code memory).2
      fun j => left j - if i = j then 1 else 0 := by
  obtain ⟨hlt, -⟩ := List.getElem?_eq_some_iff.1 hi
  obtain ⟨solo, n, halone, hn, hagree⟩ := h i thread hi
  have hstores : ∀ span ∈ thread.stores code memory, ∀ a, span.Covers a → own i a := by
    rw [stores_congr code thread memory solo]
    exact (hsolo i hlt).stores halone
  intro j other hj
  dsimp only
  by_cases hij : i = j
  · subst hij
    rw [List.getElem?_set_self hlt, Option.some.injEq] at hj
    subst hj
    rw [if_pos rfl]
    by_cases hfinished : thread.Finished
    · have hstep : thread.step code memory = (thread, memory) := by
        obtain ⟨site, found, calls, active⟩ := thread
        obtain ⟨rfl, rfl⟩ := hfinished
        rfl
      rw [hstep]
      exact ⟨solo, 0, (hsolo i hlt).finished halone hfinished, Nat.zero_le _, hagree⟩
    · obtain ⟨hthread, hread⟩ := step_agrees hagree ((hsolo i hlt).runs halone)
        ((hsolo i hlt).loads halone)
      obtain ⟨n', hn', halone'⟩ := (hsolo i hlt).step halone hfinished
      rw [← hthread]
      exact ⟨_, n', halone', by omega, hread⟩
  · rw [List.getElem?_set_ne hij] at hj
    obtain ⟨hlt', -⟩ := List.getElem?_eq_some_iff.1 hj
    obtain ⟨solo', n', halone', hn', hagree'⟩ := h j other hj
    rw [if_neg hij]
    refine ⟨solo', n', halone', hn', fun a ha => (hagree' a ha).trans (read_step ?_).symm⟩
    intro span hspan hcovers
    have howns := hstores span hspan a hcovers
    rcases ha with ha | ha
    · exact hown i j hlt hlt' hij a howns ha
    · exact hshared i hlt a howns ha

/-- **Every thread follows a run of its own**, in whatever order the threads take turns. -/
theorem Follow.interleave (h : Follow own shared alone threads memory left)
    (hsolo : ∀ i < threads.length, Solo code (own i) shared (alone i))
    (hown : ∀ i j, i < threads.length → j < threads.length → i ≠ j → ∀ a, own i a → ¬ own j a)
    (hshared : ∀ i < threads.length, ∀ a, own i a → ¬ shared a) (turns : List Nat) :
    Follow own shared alone (interleave code turns threads memory).1
      (interleave code turns threads memory).2 fun i => left i - turns.count i := by
  induction turns generalizing threads memory left with
  | nil => exact h
  | cons i turns ih =>
    have hcount : (fun j => left j - (i :: turns).count j) =
        fun j => left j - (if i = j then 1 else 0) - turns.count j := by
      funext j
      rw [List.count_cons]
      simp only [beq_iff_eq]
      omega
    rw [Thread.interleave, hcount]
    split
    · rename_i thread hi
      refine ih (h.step hsolo hown hshared hi) ?_ ?_ ?_
      · simpa only [List.length_set] using hsolo
      · simpa only [List.length_set] using hown
      · simpa only [List.length_set] using hshared
    · rename_i hi
      refine ih (fun j other hj => ?_) hsolo hown hshared
      obtain ⟨solo, n, halone, hn, hagree⟩ := h j other hj
      have hij : i ≠ j := by
        rintro rfl
        rw [hi] at hj
        cases hj
      exact ⟨solo, n, halone, by rw [if_neg hij]; exact hn, hagree⟩

/-- **A thread that had enough turns is finished.** -/
theorem Follow.finished (h : Follow own shared alone threads memory left)
    (hsolo : ∀ i < threads.length, Solo code (own i) shared (alone i)) {i : Nat}
    (hi : threads[i]? = some thread) (hleft : left i = 0) : thread.Finished := by
  obtain ⟨hlt, -⟩ := List.getElem?_eq_some_iff.1 hi
  obtain ⟨solo, n, halone, hn, -⟩ := h i thread hi
  by_contra hfinished
  obtain ⟨n', hn', -⟩ := (hsolo i hlt).step halone hfinished
  omega

end Follow

end Thread

end Pointwise
