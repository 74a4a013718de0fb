import Pointwise.Proofs.Dispatch.Tasks
import Pointwise.Proofs.Strict.Basic

/-!
# Strict dispatch

The strict forms of sharing calls among tasks and of finding their index vectors. The entries of index vectors
are offsets: a remainder has to keep its value as one, and so does an entry that is counted on. Positions are
divided by the dimensions from the last one on, which must not be zero.

## Main definitions

* `Strict.chunk`, `Strict.unravel`, `Strict.advance`, `Strict.count` — the strict steps.
* `Strict.tasks` — the calls of all tasks for a domain.

## Main results

* `Strict.confirms_tasks` — the strict calls are the plain ones, and no step raises a fault.
-/

set_option autoImplicit false

namespace Pointwise.Strict

/-! ## Chunks -/

/-- The strict form of `Dispatch.chunk`. -/
def chunk (work tasks task : Nat) : Except Error (Nat × Nat) := do
  if tasks ≤ 1 ∨ work = 0 then return (0, work)
  else
    let larger ← Checked.divCeil work tasks
    let smaller ← Checked.sub larger 1
    let largerTasks ← Checked.sub work (← Checked.mul smaller tasks)
    let amount := if task < largerTasks then larger else smaller
    let start ←
      if task ≤ largerTasks then Checked.mul task larger
      else do
        Checked.add (← Checked.mul largerTasks larger)
          (← Checked.mul (← Checked.sub task largerTasks) smaller)
    return (start, ← Checked.add start amount)

theorem chunk_eq {work : Nat} (tasks task : Nat) (hwork : work < 0x10000000000000000) :
    chunk work tasks task = Dispatch.chunk work tasks task := by
  by_cases h : tasks ≤ 1 ∨ work = 0
  · rw [chunk, Dispatch.chunk, if_pos h, if_pos h]
  · have hlarger : 0 < (work + tasks - 1) / tasks := Nat.div_pos (by omega) (by omega)
    rw [chunk, Dispatch.chunk, if_neg h, if_neg h, Checked.divCeil_eq (by omega) hwork, Checked.ok_bind,
      Checked.sub_eq_ok.2 ⟨hlarger, rfl⟩]
    rfl

/-! ## Index vectors -/

/-- The strict form of `Shape.unravel`, with what is left of the position. -/
def unravel : Shape → Nat → Except Error (List Nat × Nat)
  | [], position => return ([], position)
  | d :: dims, position => do
    let (index, position) ← unravel dims position
    let i ← Checked.mod position d
    Checked.keeps i
    return (i :: index, ← Checked.div position d)

/-- The strict form of `Dispatch.advance`. -/
def advance : Shape → List Nat → Except Error (List Nat × Bool)
  | [], [] => return ([], true)
  | d :: dims, i :: index => do
    match ← advance dims index with
    | (rest, false) => return (i :: rest, false)
    | (rest, true) =>
      Checked.keeps (i + 1)
      if i + 1 < d then return ((i + 1) :: rest, false) else return (0 :: rest, true)
  | _, _ => .error (.fault .outOfRange)

/-- The strict form of `Dispatch.count`. -/
def count (dims : Shape) : (amount : Nat) → List Nat → Except Error (List (List Nat))
  | 0, _ => return []
  | amount + 1, index => do
    let (next, _) ← advance dims index
    return index :: (← count dims amount next)

section Index

variable {dims : Shape}

/-- An index vector is found if no dimension is zero. -/
theorem unravel_eq (hpos : 0 < Shape.count dims) (hsmall : ∀ d ∈ dims, d < 0x8000000000000000)
    (position : Nat) :
    unravel dims position = .ok (Shape.unravel dims position, position / Shape.count dims) := by
  induction dims with
  | nil =>
    rw [Shape.count_nil, Nat.div_one]
    rfl
  | cons d dims ih =>
    rw [Shape.count_cons_pos] at hpos
    rw [List.forall_mem_cons] at hsmall
    have hlt := Nat.mod_lt (position / Shape.count dims) hpos.1
    have hdiv : position / Shape.count dims / d = position / (d * Shape.count dims) := by
      rw [Nat.div_div_eq_div_mul, Nat.mul_comm]
    rw [unravel, ih hpos.2 hsmall.2, Checked.ok_bind]
    dsimp only
    rw [Checked.mod_eq_ok.2 ⟨hpos.1.ne', rfl⟩, Checked.ok_bind,
      Checked.keeps_eq_ok.2 (hlt.trans hsmall.1), Checked.ok_bind,
      Checked.div_eq_ok.2 ⟨hpos.1.ne', rfl⟩, Checked.ok_bind, hdiv]
    rfl

/-- Index vectors of a box are below its dimensions. -/
theorem forall₂_unravel (hpos : 0 < Shape.count dims) (position : Nat) :
    List.Forall₂ (· < ·) (Shape.unravel dims position) dims := by
  induction dims with
  | nil => exact .nil
  | cons d dims ih =>
    rw [Shape.count_cons_pos] at hpos
    exact .cons (Nat.mod_lt _ hpos.1) (ih hpos.2)

/-- An index vector of a box can be counted on. -/
theorem advance_eq {index : List Nat} (hindex : List.Forall₂ (· < ·) index dims)
    (hsmall : ∀ d ∈ dims, d < 0x8000000000000000) :
    advance dims index = .ok (Dispatch.advance dims index) := by
  induction hindex with
  | nil => rfl
  | @cons i d index dims hlt hrest ih =>
    rw [List.forall_mem_cons] at hsmall
    rw [advance, ih hsmall.2, Checked.ok_bind, Dispatch.advance]
    rcases Dispatch.advance dims index with ⟨rest, _ | _⟩
    · rfl
    · dsimp only
      rw [Checked.keeps_eq_ok.2 (by omega), Checked.ok_bind]
      split <;> rfl

/-- Index vectors of a box can be counted on for any time. -/
theorem count_eq (hpos : 0 < Shape.count dims) (hsmall : ∀ d ∈ dims, d < 0x8000000000000000)
    (amount start : Nat) :
    count dims amount (Shape.unravel dims start) =
      .ok (Dispatch.count dims amount (Shape.unravel dims start)) := by
  induction amount generalizing start with
  | zero => rfl
  | succ amount ih =>
    rw [count, advance_eq (forall₂_unravel hpos start) hsmall, Checked.ok_bind, Dispatch.count,
      Dispatch.advance_unravel hpos]
    dsimp only
    rw [ih]
    rfl

end Index

/-! ## Tasks -/

/-- The strict form of `Dispatch.countingTask`; a task without calls takes no position apart. -/
def countingTask (dims : Shape) (work tasks task : Nat) : Except Error (List (List Nat)) := do
  let (start, stop) ← chunk work tasks task
  if stop ≤ start then return []
  else
    let (index, _) ← unravel dims start
    count dims (stop - start) index

/-- The strict form of `Dispatch.numberingTask`. -/
def numberingTask (dims : Shape) (work tasks task : Nat) : Except Error (List (List Nat)) := do
  let (start, stop) ← chunk work tasks task
  (List.range' start (stop - start)).mapM fun position => do return (← unravel dims position).1

/-- The strict form of `Dispatch.tasks`. The leading dimensions of a domain of the tensor rank have to fill
an index vector of fixed size. -/
def tasks (callShape : Shape) (maxTasks : Nat) : Except Error (List (List (List Nat))) := do
  if callShape.length = 0 then return []
  else
    let dims := callShape.take (← Checked.sub callShape.length 1)
    let work ← Checked.product dims
    if work = 0 then return []
    else if callShape.length = tensorRank then
      require (dims.length = tensorRank - 1) (.fault .outOfRange)
      Dispatch.schedule countingTask dims (max 1 (min maxTasks work))
    else
      Dispatch.schedule numberingTask dims (max 1 (min maxTasks work))

section Tasks

variable {dims : Shape} {tasks task : Nat}

/-- The calls of a task are found in both ways. -/
theorem confirms_task (hpos : 0 < Shape.count dims) (hlt : Shape.count dims < 0x8000000000000000)
    (htasks : tasks < 0x10000000000000000) (htask : task < tasks) :
    Confirms (countingTask dims (Shape.count dims) tasks task)
        (Dispatch.countingTask dims (Shape.count dims) tasks task) ∧
      Confirms (numberingTask dims (Shape.count dims) tasks task)
        (Dispatch.numberingTask dims (Shape.count dims) tasks task) := by
  have hsmall : ∀ d ∈ dims, d < 0x8000000000000000 := fun d hd => by
    have hle := Shape.le_extent hd
    rw [Shape.extent_eq_count hpos] at hle
    omega
  have hwork : Shape.count dims < 0x10000000000000000 := by omega
  have hchunk := Dispatch.chunk_eq_bound hwork htasks htask
  have hplain := Dispatch.numberingTask_eq hwork htasks htask
  have hcounting := Dispatch.countingTask_eq_numberingTask dims tasks
  generalize Dispatch.bound (Shape.count dims) tasks task = start at hchunk
  generalize Dispatch.bound (Shape.count dims) tasks (task + 1) = stop at hchunk
  constructor
  · refine .of_ok ?_ ((congrFun hcounting task).trans hplain)
    rw [← hplain, ← congrFun hcounting task, countingTask, Dispatch.countingTask,
      chunk_eq _ _ hwork, hchunk, Checked.ok_bind, Checked.ok_bind]
    dsimp only
    split
    · rw [Nat.sub_eq_zero_of_le ‹_›]
      rfl
    · rw [unravel_eq hpos hsmall, Checked.ok_bind]
      exact count_eq hpos hsmall _ _
  · refine .of_ok ?_ hplain
    rw [← hplain, numberingTask, Dispatch.numberingTask, chunk_eq _ _ hwork, hchunk,
      Checked.ok_bind, Checked.ok_bind]
    refine Checked.mapM_eq_ok_map fun position _ => ?_
    rw [unravel_eq hpos hsmall]
    rfl

/-- The calls of all tasks are found if those of each task are. -/
theorem confirms_schedule {strict plain : Shape → (work tasks task : Nat) → Except Error (List (List Nat))}
    {work : Nat} (hwork : Checked.product dims = .ok work) (htasks : 0 < tasks)
    (h : ∀ task < tasks, Confirms (strict dims work tasks task) (plain dims work tasks task)) :
    Confirms (Dispatch.schedule strict dims tasks) (Dispatch.schedule plain dims tasks) := by
  rw [Dispatch.schedule, Dispatch.schedule, hwork, Nat.max_eq_left htasks, Checked.ok_bind,
    Checked.ok_bind]
  exact .mapM fun task hmem => h task (List.mem_range.1 hmem)

variable {callShape : Shape}

/-- **Dispatch raises no fault** for a domain with calls whose number keeps its value as an offset.

**Proof sketch.** No dimension is zero, so that positions can be taken apart, and each of them is at most the
number of calls, so that the entries of index vectors are in range as well. -/
theorem confirms_tasks (maxTasks : Nat) (hrank : 0 < callShape.length)
    (hpos : 0 < Shape.count callShape.dropLast)
    (hlt : Shape.count callShape.dropLast < 0x8000000000000000) :
    Confirms (Strict.tasks callShape maxTasks) (Dispatch.tasks callShape maxTasks) := by
  have hwork := Shape.product_eq_ok hpos (by omega)
  generalize hdims : callShape.dropLast = dims at *
  have htake : callShape.take (callShape.length - 1) = dims := by rw [← hdims, List.dropLast_eq_take]
  have htasks : 0 < max 1 (min maxTasks (Shape.count dims)) := Nat.le_max_left 1 _
  rw [Strict.tasks, Dispatch.tasks, if_neg hrank.ne', if_neg hrank.ne',
    Checked.sub_eq_ok.2 ⟨hrank, rfl⟩, Checked.ok_bind, htake, hdims]
  dsimp only
  rw [hwork, Checked.ok_bind, Checked.ok_bind, if_neg hpos.ne', if_neg hpos.ne']
  by_cases hsix : callShape.length = tensorRank
  · have hfive : dims.length = tensorRank - 1 := by
      rw [← hdims, List.length_dropLast, hsix]
    rw [if_pos hsix, if_pos hsix, require_eq_ok.2 hfive, Checked.ok_bind]
    exact confirms_schedule hwork htasks fun task htask => (confirms_task hpos hlt (by omega) htask).1
  · rw [if_neg hsix, if_neg hsix]
    exact confirms_schedule hwork htasks fun task htask => (confirms_task hpos hlt (by omega) htask).2

end Tasks

end Pointwise.Strict
