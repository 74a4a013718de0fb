import Mathlib.Algebra.Order.Floor.Div
import Mathlib.Data.List.Range
import Pointwise.Proofs.Strict.Dispatch

/-!
# Balanced chunks

The chunks of the tasks are as equal as they can be. A task makes as many calls as its share comes to when it
is rounded up, or one call less, and the tasks that make more calls come first. None of the numbers on the way
leaves the range of sizes, however many calls and tasks there are.

## Main definitions

* `Dispatch.chunkSize` — the number of calls of a task.
* `Dispatch.Balanced` — chunks that share calls evenly.

## Main results

* `Dispatch.bound_succ` — the number of calls in front of the next task.
* `Dispatch.chunks_balanced` — the chunks of all tasks are balanced.
-/

set_option autoImplicit false

namespace Pointwise.Dispatch

/-! ## Sizes -/

/-- The number of calls of a task: the first tasks make one call more than the others. -/
def chunkSize (work tasks task : Nat) : Nat :=
  let smaller := work ⌈/⌉ tasks - 1
  smaller + if task < work - smaller * tasks then 1 else 0

/-- **The calls in front of the next task** are those in front of a task and its own. -/
theorem bound_succ (work tasks task : Nat) :
    bound work tasks (task + 1) = bound work tasks task + chunkSize work tasks task := by
  simp only [bound, chunkSize, Nat.ceilDiv_eq_add_pred_div, Nat.succ_mul]
  split <;> omega

/-- Later tasks do not make more calls. -/
theorem chunkSize_antitone (work tasks : Nat) : Antitone (chunkSize work tasks) := by
  intro task later hle
  simp only [chunkSize]
  split <;> split <;> omega

/-- The calls of two tasks differ by one at most. -/
theorem chunkSize_le_succ (work tasks task other : Nat) :
    chunkSize work tasks task ≤ chunkSize work tasks other + 1 := by
  simp only [chunkSize]
  split <;> omega

/-- No task makes more calls than its share rounded up. -/
theorem chunkSize_le_ceilDiv {work tasks : Nat} (htasks : 0 < tasks) (task : Nat) :
    chunkSize work tasks task ≤ work ⌈/⌉ tasks := by
  simp only [chunkSize]
  split
  · rename_i hmore
    -- there are calls, so that rounding up does not give zero
    have hshare : 0 < work ⌈/⌉ tasks := by
      rw [Nat.ceilDiv_eq_add_pred_div]
      exact Nat.div_pos (by omega) htasks
    omega
  · omega

/-! ## Chunks -/

/-- Chunks, in the order of the tasks, that share calls evenly. A chunk is given by its first call and the
call behind its last one. -/
structure Balanced (work tasks : Nat) (chunks : List (Nat × Nat)) : Prop where
  length : chunks.length = tasks
  first : chunks.head?.map (·.1) = some 0
  last : chunks.getLast?.map (·.2) = some work
  ordered : ∀ chunk ∈ chunks, chunk.1 ≤ chunk.2
  consecutive : chunks.IsChain fun chunk next => chunk.2 = next.1
  /-- The larger chunks come first. -/
  descending : chunks.Pairwise fun chunk later => later.2 - later.1 ≤ chunk.2 - chunk.1
  differ_le_one : ∀ chunk ∈ chunks, ∀ other ∈ chunks, chunk.2 - chunk.1 ≤ other.2 - other.1 + 1
  le_share : ∀ chunk ∈ chunks, chunk.2 - chunk.1 ≤ work ⌈/⌉ tasks

variable {work tasks : Nat}

/-- The calls between the bounds of the tasks are shared evenly. -/
theorem balanced_bound (htasks : 0 < tasks) : Balanced work tasks
    ((List.range tasks).map fun task => (bound work tasks task, bound work tasks (task + 1))) where
  length := by rw [List.length_map, List.length_range]
  first := by
    rw [List.head?_map, List.head?_range, if_neg htasks.ne']
    simp [bound_zero]
  last := by
    rw [List.getLast?_map, List.getLast?_range, if_neg htasks.ne']
    simp [Nat.sub_add_cancel htasks, bound_tasks htasks]
  ordered := List.forall_mem_map.2 fun task _ => bound_le_succ work tasks task
  consecutive := by
    rw [List.isChain_map, List.isChain_range]
    exact fun _ _ => rfl
  descending := by
    rw [List.pairwise_map]
    refine List.pairwise_lt_range.imp fun {task later} hlt => ?_
    simp only [bound_succ, Nat.add_sub_cancel_left]
    exact chunkSize_antitone work tasks hlt.le
  differ_le_one := by
    refine List.forall_mem_map.2 fun task _ => List.forall_mem_map.2 fun other _ => ?_
    simp only [bound_succ, Nat.add_sub_cancel_left]
    exact chunkSize_le_succ work tasks task other
  le_share := by
    refine List.forall_mem_map.2 fun task _ => ?_
    simp only [bound_succ, Nat.add_sub_cancel_left]
    exact chunkSize_le_ceilDiv htasks task

/-- **The chunks of all tasks are balanced**, for any numbers of calls and tasks that are sizes. No step
leaves the range of sizes on the way, the division that rounds up and the subtraction behind it included.

**Proof sketch.** A task begins behind the calls of the tasks in front of it, and these add up to the bounds
between the chunks. There are at most as many calls in front of a task as there are in all. -/
theorem chunks_balanced (hwork : work < 0x10000000000000000) (htasks : 0 < tasks)
    (hrange : tasks < 0x10000000000000000) :
    ∃ chunks, (List.range tasks).mapM (chunk work tasks) = .ok chunks ∧
      (List.range tasks).mapM (Strict.chunk work tasks) = .ok chunks ∧
      Balanced work tasks chunks := by
  have hchunk : ∀ task ∈ List.range tasks,
      chunk work tasks task = .ok (bound work tasks task, bound work tasks (task + 1)) :=
    fun task htask => chunk_eq_bound hwork hrange (List.mem_range.1 htask)
  have hstrict : ∀ task ∈ List.range tasks,
      Strict.chunk work tasks task = .ok (bound work tasks task, bound work tasks (task + 1)) :=
    fun task htask => (Strict.chunk_eq tasks task hwork).trans (hchunk task htask)
  exact ⟨_, Checked.mapM_eq_ok_map hchunk, Checked.mapM_eq_ok_map hstrict, balanced_bound htasks⟩

/-- The largest number of calls, shared among six tasks. -/
theorem chunks_balanced_of_largest_work :
    0xffffffffffffffff < 0x10000000000000000 ∧ 0 < 6 ∧ 6 < 0x10000000000000000 ∧
      ∃ chunks, (List.range 6).mapM (chunk 0xffffffffffffffff 6) = .ok chunks ∧
        (List.range 6).mapM (Strict.chunk 0xffffffffffffffff 6) = .ok chunks ∧
        Balanced 0xffffffffffffffff 6 chunks :=
  have hwork : 0xffffffffffffffff < 0x10000000000000000 := by decide
  have htasks : 0 < 6 := by decide
  have hrange : 6 < 0x10000000000000000 := by decide
  ⟨hwork, htasks, hrange, chunks_balanced hwork htasks hrange⟩

/-- Ten calls are shared among four tasks. -/
example : (List.range 4).mapM (chunk 10 4) = .ok [(0, 3), (3, 6), (6, 8), (8, 10)] := by decide

/-- Tasks without a call come last. -/
example : (List.range 4).mapM (chunk 2 4) = .ok [(0, 1), (1, 2), (2, 2), (2, 2)] := by decide

end Pointwise.Dispatch
