import Mathlib.Data.List.Forall2
import Pointwise.Proofs.Dispatch.Box

/-!
# Calls of all tasks

The tasks for a domain make one call for every index vector of the box that the leading dimensions
span, in row-major order: the calls of each task ascend, and those of the tasks put together are the
box. Whether a task counts its index vectors or takes their numbers apart makes no difference, for
any number of tasks and also if the box is empty.

## Main definitions

* `Dispatch.callsFrom`, `Dispatch.share` — consecutive calls, and those of a task.
* `Dispatch.Visits` — calls of tasks that make up a box.

## Main results

* `Dispatch.mem_box`, `Dispatch.pairwise_box` — a box has its index vectors in lexicographic order.
* `Dispatch.box_eq` — the index vectors of a box are those of its positions.
* `Dispatch.chunk_eq_bound` — the calls of a task, for any number of tasks.
* `Dispatch.schedule_eq`, `Dispatch.tasks_eq` — in both ways, tasks make the calls of their shares.
* `Dispatch.tasks_visit_box` — the tasks for a domain make every call once and in order.
-/

set_option autoImplicit false

namespace Pointwise.Dispatch

/-! ## Index vectors of a box -/

/-- An index vector is in a box if each of its entries is below the size of its dimension. -/
theorem mem_box {dims : Shape} {index : List Nat} :
    index ∈ box dims ↔ List.Forall₂ (· < ·) index dims := by
  induction dims generalizing index with
  | nil => simp [box]
  | cons d dims ih =>
    rw [box, List.mem_flatMap, List.forall₂_cons_right_iff]
    constructor
    · rintro ⟨i, hi, hindex⟩
      obtain ⟨rest, hrest, rfl⟩ := List.mem_map.1 hindex
      exact ⟨i, rest, List.mem_range.1 hi, ih.1 hrest, rfl⟩
    · rintro ⟨i, rest, hi, hrest, rfl⟩
      exact ⟨i, List.mem_range.2 hi, List.mem_map_of_mem (ih.2 hrest)⟩

/-- **The index vectors of a box ascend** in lexicographic order. -/
theorem pairwise_box (dims : Shape) : (box dims).Pairwise (· < ·) := by
  induction dims with
  | nil => simp [box]
  | cons d dims ih =>
    rw [box, List.pairwise_flatMap]
    constructor
    · -- those with the same first entry
      intro i _
      exact List.pairwise_map.2 (ih.imp fun h => List.cons_lt_cons_iff.2 (.inr ⟨rfl, h⟩))
    · refine List.pairwise_lt_range.imp fun hij index hindex index' hindex' => ?_
      obtain ⟨rest, -, rfl⟩ := List.mem_map.1 hindex
      obtain ⟨rest', -, rfl⟩ := List.mem_map.1 hindex'
      exact List.cons_lt_cons_iff.2 (.inl hij)

/-- The index vector at a position depends on its remainder only. -/
theorem unravel_mul_add (dims : Shape) (k position : Nat) :
    Shape.unravel dims (k * Shape.count dims + position) = Shape.unravel dims position := by
  induction dims generalizing k with
  | nil => rfl
  | cons d dims ih =>
    have hmul : k * Shape.count (d :: dims) = k * d * Shape.count dims := by
      rw [Shape.count_cons, Nat.mul_assoc]
    rw [Shape.unravel, Shape.unravel, hmul, ih]
    congr 1
    rcases Nat.eq_zero_or_pos (Shape.count dims) with hzero | hpos
    · rw [hzero, Nat.div_zero, Nat.div_zero]
    · rw [Nat.mul_comm _ (Shape.count dims), Nat.mul_add_div hpos, Nat.mul_comm k,
        Nat.mul_add_mod]

/-- **The index vectors of a box are those of its positions.** -/
theorem box_eq (dims : Shape) :
    box dims = (List.range (Shape.count dims)).map (Shape.unravel dims) := by
  induction dims with
  | nil => rfl
  | cons d dims ih =>
    have hrow : ∀ i < d, (box dims).map (i :: ·) =
        (List.range' (i * Shape.count dims) ((i + 1) * Shape.count dims - i * Shape.count dims)).map
          (Shape.unravel (d :: dims)) := by
      intro i hi
      rw [Nat.succ_mul, Nat.add_sub_cancel_left, List.range'_eq_map_range, ih, List.map_map,
        List.map_map]
      refine List.map_congr_left fun position hposition => ?_
      have hlt := List.mem_range.1 hposition
      have hdiv : (i * Shape.count dims + position) / Shape.count dims = i := by
        rw [Nat.mul_comm, Nat.mul_add_div (by omega), Nat.div_eq_of_lt hlt, Nat.add_zero]
      simp only [Function.comp_apply, Shape.unravel, hdiv, Nat.mod_eq_of_lt hi, unravel_mul_add]
    have hmono : Monotone fun i => i * Shape.count dims :=
      fun i j hij => Nat.mul_le_mul_right _ hij
    rw [box, Shape.count_cons, ← flatten_range' hmono (Nat.zero_mul _) d, List.map_flatten,
      List.map_map, List.flatMap_def]
    exact congrArg List.flatten
      (List.map_congr_left fun i hi => hrow i (List.mem_range.1 hi))

/-! ## Chunks -/

/-- The last task ends with the last call, for any number of tasks. -/
theorem bound_tasks {work tasks : Nat} (htasks : 0 < tasks) : bound work tasks tasks = work := by
  rcases Nat.lt_or_ge work tasks with hlt | hle
  · have hshare : (work + tasks - 1) / tasks - 1 = 0 := by
      have h : (work + tasks - 1) / tasks < 2 := (Nat.div_lt_iff_lt_mul htasks).2 (by omega)
      omega
    simp only [bound, hshare]
    omega
  · exact bound_self htasks hle

/-- **The calls of a task**, for any number of tasks. If there are more tasks than calls, the last
ones make none. -/
theorem chunk_eq_bound {work tasks task : Nat} (hwork : work < 0x10000000000000000)
    (htasks : tasks < 0x10000000000000000) (htask : task < tasks) :
    chunk work tasks task = .ok (bound work tasks task, bound work tasks (task + 1)) := by
  rcases Nat.lt_or_ge work tasks with hlt | hle
  · rcases Nat.eq_zero_or_pos work with rfl | hpos
    · have hchunk : chunk 0 tasks task = .ok (0, 0) := if_pos (.inr rfl)
      rw [hchunk]
      simp [bound, Nat.div_eq_of_lt (a := tasks - 1) (b := tasks) (by omega)]
    · -- the shares are a single call and none
      have hshare : (work + tasks - 1) / tasks = 1 :=
        Nat.div_eq_of_lt_le (by omega) (by omega)
      have hsmaller : Checked.mul 0 tasks = .ok 0 := Checked.mul_eq_ok.2 (by omega)
      have hmore : Checked.sub work 0 = .ok work := Checked.sub_eq_ok.2 (by omega)
      rw [chunk, if_neg (by omega)]
      simp only [hshare, Nat.sub_self, hsmaller, Checked.ok_bind, hmore, bound, Nat.mul_zero,
        Nat.zero_add, Nat.zero_mul, Nat.sub_zero]
      by_cases hfew : task ≤ work
      · have hstart : Checked.mul task 1 = .ok (min task work) := Checked.mul_eq_ok.2 (by omega)
        have hstop : Checked.add (min task work) (if task < work then 1 else 0) =
            .ok (min (task + 1) work) := by
          rw [Checked.add_eq_ok]
          split <;> omega
        rw [if_pos hfew, hstart, Checked.ok_bind, hstop]
        rfl
      · have hfront : Checked.mul work 1 = .ok work := Checked.mul_eq_ok.2 (by omega)
        have hover : Checked.sub task work = .ok (task - work) := Checked.sub_eq_ok.2 (by omega)
        have hbehind : Checked.mul (task - work) 0 = .ok 0 := Checked.mul_eq_ok.2 (by omega)
        have hstart : Checked.add work 0 = .ok (min task work) := Checked.add_eq_ok.2 (by omega)
        have hstop : Checked.add (min task work) (if task < work then 1 else 0) =
            .ok (min (task + 1) work) := by
          rw [Checked.add_eq_ok]
          split <;> omega
        rw [if_neg hfew, hfront, Checked.ok_bind, hover, Checked.ok_bind, hbehind, Checked.ok_bind,
          hstart, Checked.ok_bind, hstop]
        rfl
  · exact chunk_eq (by omega) hle hwork htask

/-! ## Tasks -/

/-- The index vectors of the calls from `first` to `stop`. -/
def callsFrom (dims : Shape) (first stop : Nat) : List (List Nat) :=
  (List.range' first (stop - first)).map (Shape.unravel dims)

/-- The calls of a task: those of its chunk. -/
def share (dims : Shape) (tasks task : Nat) : List (List Nat) :=
  callsFrom dims (bound (Shape.count dims) tasks task) (bound (Shape.count dims) tasks (task + 1))

/-- The tasks make the calls of the box, one task after the other. -/
theorem flatten_share (dims : Shape) {tasks : Nat} (htasks : 0 < tasks) :
    ((List.range tasks).map (share dims tasks)).flatten = box dims := by
  have hflat := flatten_range' (bound_mono (Shape.count dims) tasks)
    (bound_zero (Shape.count dims) tasks) tasks
  rw [bound_tasks htasks] at hflat
  rw [box_eq, ← hflat, List.map_flatten, List.map_map]
  rfl

/-- A task that takes the number of every call apart. -/
theorem numberingTask_eq {dims : Shape} {tasks task : Nat}
    (hwork : Shape.count dims < 0x10000000000000000) (htasks : tasks < 0x10000000000000000)
    (htask : task < tasks) :
    numberingTask dims (Shape.count dims) tasks task = .ok (share dims tasks task) := by
  rw [numberingTask, chunk_eq_bound hwork htasks htask]
  rfl

/-- **Counting finds the same calls**, also if there are none. -/
theorem countingTask_eq_numberingTask (dims : Shape) (tasks : Nat) :
    countingTask dims (Shape.count dims) tasks = numberingTask dims (Shape.count dims) tasks := by
  funext task
  rcases Nat.eq_zero_or_pos (Shape.count dims) with hzero | hpos
  · have hchunk : chunk 0 tasks task = .ok (0, 0) := if_pos (.inr rfl)
    rw [countingTask, numberingTask, hzero, hchunk]
    rfl
  · simp only [countingTask, numberingTask, count_unravel hpos]

/-- No task is one task. -/
theorem numberingTask_zero (dims : Shape) (work : Nat) :
    numberingTask dims work 0 = numberingTask dims work 1 := by
  funext task
  have hzero : chunk work 0 task = .ok (0, work) := if_pos (.inl (Nat.zero_le 1))
  have hone : chunk work 1 task = .ok (0, work) := if_pos (.inl (Nat.le_refl 1))
  rw [numberingTask, numberingTask, hzero, hone]

/-- Sizes of zero make a product smaller. -/
theorem count_le_filter (dims : Shape) : Shape.count dims ≤ Shape.count (dims.filter (· ≠ 0)) := by
  rcases Nat.eq_zero_or_pos (Shape.count dims) with hzero | hpos
  · omega
  · have hall : dims.filter (· ≠ 0) = dims :=
      List.filter_eq_self.2 fun d hd => by simpa using (Shape.count_pos.1 hpos d hd).ne'
    rw [hall]

/-- The product of sizes is in range if that of the sizes other than zero is. -/
theorem product_of_filter {dims : Shape}
    (hlt : Shape.count (dims.filter (· ≠ 0)) < 0x10000000000000000) :
    Checked.product dims = .ok (Shape.count dims) := by
  have h : ∀ (dims : Shape) (front : Nat),
      front * Shape.count (dims.filter (· ≠ 0)) < 0x10000000000000000 →
      dims.foldlM Checked.mul front = .ok (front * Shape.count dims) := by
    intro dims
    induction dims with
    | nil =>
      intro front _
      rw [Shape.count_nil, Nat.mul_one]
      rfl
    | cons d dims ih =>
      intro front hfront
      rcases Nat.eq_zero_or_pos d with rfl | hd
      · have hmul : Checked.mul front 0 = .ok 0 := Checked.mul_eq_ok.2 (by omega)
        rw [List.foldlM_cons, hmul, Checked.ok_bind, ih 0 (by omega), Shape.count_cons]
        simp
      · rw [List.filter_cons_of_pos (by simpa using hd.ne'), Shape.count_cons,
          ← Nat.mul_assoc] at hfront
        have hpos : 0 < Shape.count (dims.filter (· ≠ 0)) := by
          rw [Shape.count_pos]
          intro n hn
          exact Nat.pos_of_ne_zero (by simpa using (List.mem_filter.1 hn).2)
        have hle : front * d ≤ front * d * Shape.count (dims.filter (· ≠ 0)) :=
          Nat.le_mul_of_pos_right _ hpos
        have hmul : Checked.mul front d = .ok (front * d) := Checked.mul_eq_ok.2 ⟨rfl, by omega⟩
        rw [List.foldlM_cons, hmul, Checked.ok_bind, ih _ hfront, Shape.count_cons,
          Nat.mul_assoc]
  have hall := h dims 1 (by rwa [Nat.one_mul])
  rwa [Nat.one_mul] at hall

/-- **In both ways, a schedule gives every task its share.** -/
theorem schedule_eq {dims : Shape} {tasks : Nat}
    (hlt : Shape.count (dims.filter (· ≠ 0)) < 0x10000000000000000)
    (htasks : tasks < 0x10000000000000000) :
    schedule countingTask dims tasks =
        .ok ((List.range (max tasks 1)).map (share dims (max tasks 1))) ∧
      schedule numberingTask dims tasks =
        .ok ((List.range (max tasks 1)).map (share dims (max tasks 1))) := by
  have hwork := product_of_filter hlt
  have hrange := (count_le_filter dims).trans_lt hlt
  have hsome : numberingTask dims (Shape.count dims) tasks =
      numberingTask dims (Shape.count dims) (max tasks 1) := by
    rcases Nat.eq_zero_or_pos tasks with rfl | hpos
    · exact numberingTask_zero dims _
    · rw [Nat.max_eq_left hpos]
  have hcalls : (List.range (max tasks 1)).mapM
      (numberingTask dims (Shape.count dims) (max tasks 1)) =
        .ok ((List.range (max tasks 1)).map (share dims (max tasks 1))) :=
    Checked.mapM_eq_ok_map fun task htask =>
      numberingTask_eq hrange (by omega) (List.mem_range.1 htask)
  simp only [schedule, hwork, Checked.ok_bind, countingTask_eq_numberingTask, hsome, hcalls, and_self]

/-- The number of tasks for a domain: at least one, and no more than there are calls. -/
def taskCount (callShape : Shape) (maxTasks : Nat) : Nat :=
  max 1 (min maxTasks (Shape.count callShape.dropLast))

/-- **The tasks for a domain** with calls. -/
theorem tasks_eq {callShape : Shape} (maxTasks : Nat) (hrank : 0 < callShape.length)
    (hpos : 0 < Shape.count callShape.dropLast)
    (hlt : Shape.count callShape.dropLast < 0x10000000000000000) :
    tasks callShape maxTasks = .ok ((List.range (taskCount callShape maxTasks)).map
      (share callShape.dropLast (taskCount callShape maxTasks))) := by
  have hall : callShape.dropLast.filter (· ≠ 0) = callShape.dropLast :=
    List.filter_eq_self.2 fun d hd => by simpa using (Shape.count_pos.1 hpos d hd).ne'
  have hcount : max (taskCount callShape maxTasks) 1 = taskCount callShape maxTasks :=
    Nat.max_eq_left (Nat.le_max_left _ _)
  have hsmall : taskCount callShape maxTasks < 0x10000000000000000 := by
    rw [taskCount]
    omega
  obtain ⟨hcounting, hnumbering⟩ := schedule_eq (hall.symm ▸ hlt) hsmall
  rw [hcount] at hcounting hnumbering
  rw [tasks, if_neg hrank.ne']
  dsimp only
  rw [product_of_filter (hall.symm ▸ hlt), Checked.ok_bind, if_neg hpos.ne']
  split
  · exact hcounting
  · exact hnumbering

/-- The calls of tasks are those of a box: put together they are its index vectors, each once and in
row-major order, and each task makes its own calls in that order. -/
structure Visits (dims : Shape) (calls : List (List (List Nat))) : Prop where
  flatten : calls.flatten = box dims
  mem_iff : ∀ index, index ∈ calls.flatten ↔ List.Forall₂ (· < ·) index dims
  nodup : calls.flatten.Nodup
  ascending : calls.flatten.Pairwise (· < ·)
  task_ascending : ∀ task ∈ calls, task.Pairwise (· < ·)

/-- Tasks visit a box if their calls put together are the box. -/
theorem Visits.of_flatten {dims : Shape} {calls : List (List (List Nat))}
    (h : calls.flatten = box dims) : Visits dims calls := by
  have hall : calls.flatten.Pairwise (· < ·) := h ▸ pairwise_box dims
  refine ⟨h, fun index => by rw [h, mem_box], hall.imp fun hlt => ?_, hall, ?_⟩
  · rintro rfl
    exact List.lt_irrefl _ hlt
  · exact (List.pairwise_flatten.1 hall).1

/-- **The tasks for a domain make every call once and in order.** Their calls put together are the
index vectors below the leading dimensions, and there are none if one of these dimensions is zero.
For any number of tasks, counting finds the same calls as taking numbers apart, task by task.

**Proof sketch.** The chunks of the tasks follow each other and end with the last position of the
box, and the index vectors of all positions are the box. A task that counts on from the index vector
of a position goes through those of the next ones. -/
theorem tasks_visit_box {callShape : Shape} (maxTasks : Nat) (hrank : 0 < callShape.length)
    (hlt : Shape.count (callShape.dropLast.filter (· ≠ 0)) < 0x8000000000000000) :
    (∃ calls, tasks callShape maxTasks = .ok calls ∧ Visits callShape.dropLast calls ∧
      (0 ∈ callShape.dropLast → calls = [])) ∧
    ∀ count < 0x10000000000000000, ∃ calls,
      schedule countingTask callShape.dropLast count = .ok calls ∧
      schedule numberingTask callShape.dropLast count = .ok calls ∧
      Visits callShape.dropLast calls ∧ calls.length = max count 1 := by
  have hrange : Shape.count (callShape.dropLast.filter (· ≠ 0)) < 0x10000000000000000 := by omega
  refine ⟨?_, fun count hcount => ?_⟩
  · rcases Nat.eq_zero_or_pos (Shape.count callShape.dropLast) with hzero | hpos
    · refine ⟨[], ?_, .of_flatten ?_, fun _ => rfl⟩
      · rw [tasks, if_neg hrank.ne']
        dsimp only
        rw [product_of_filter hrange, Checked.ok_bind, if_pos hzero]
        rfl
      · rw [box_eq, hzero]
        rfl
    · have hlt := (count_le_filter callShape.dropLast).trans_lt hrange
      exact ⟨_, tasks_eq maxTasks hrank hpos hlt, .of_flatten (flatten_share _ (Nat.le_max_left 1 _)),
        fun hmem => absurd (Shape.count_pos.1 hpos 0 hmem) (Nat.lt_irrefl 0)⟩
  · obtain ⟨hcounting, hnumbering⟩ := schedule_eq hrange hcount
    exact ⟨_, hcounting, hnumbering, .of_flatten (flatten_share _ (Nat.le_max_right count 1)),
      by rw [List.length_map, List.length_range]⟩

/-- Twelve calls of a domain of the tensor rank, shared among five tasks. -/
theorem tasks_visit_box_of_twelve :
    0 < [1, 2, 1, 3, 2, 8].length ∧
      Shape.count ([1, 2, 1, 3, 2, 8].dropLast.filter (· ≠ 0)) < 0x8000000000000000 ∧
      (∃ calls, tasks [1, 2, 1, 3, 2, 8] 5 = .ok calls ∧ Visits [1, 2, 1, 3, 2] calls ∧
        (0 ∈ [1, 2, 1, 3, 2] → calls = [])) ∧
      ∀ count < 0x10000000000000000, ∃ calls,
        schedule countingTask [1, 2, 1, 3, 2] count = .ok calls ∧
        schedule numberingTask [1, 2, 1, 3, 2] count = .ok calls ∧
        Visits [1, 2, 1, 3, 2] calls ∧ calls.length = max count 1 :=
  have hrank : 0 < [1, 2, 1, 3, 2, 8].length := by decide
  have hlt : Shape.count ([1, 2, 1, 3, 2, 8].dropLast.filter (· ≠ 0)) < 0x8000000000000000 := by
    decide
  ⟨hrank, hlt, tasks_visit_box 5 hrank hlt⟩

end Pointwise.Dispatch
