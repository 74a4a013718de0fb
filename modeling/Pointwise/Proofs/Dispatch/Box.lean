import Pointwise.Dispatch
import Pointwise.Proofs.Domain.Plan

/-!
# Calls of a box

The calls for a box are numbered in row-major order. Counting on from an index vector goes through
those of the next numbers, and the tasks share the numbers in chunks that follow each other.

## Main definitions

* `Dispatch.bound` — the number of calls in front of a task.

## Main results

* `Dispatch.advance_unravel` — counting on from an index vector yields the next one.
* `Dispatch.chunk_eq` — the calls of a task, if there are no more tasks than calls.
* `Dispatch.flatten_range'` — chunks that follow each other make up a range.
-/

set_option autoImplicit false

namespace Pointwise.Dispatch

/-! ## Counting -/

/-- **Counting on from an index vector yields the next one**, and runs over the end of the box behind
its last one. -/
theorem advance_unravel {dims : Shape} (hpos : 0 < Shape.count dims) (position : Nat) :
    advance dims (Shape.unravel dims position) =
      (Shape.unravel dims (position + 1), decide ((position + 1) % Shape.count dims = 0)) := by
  induction dims with
  | nil => simp [advance, Shape.unravel, Nat.mod_one]
  | cons d dims ih =>
    rw [Shape.count_cons_pos] at hpos
    have hmod := Nat.mod_mul (x := position + 1) (a := Shape.count dims) (b := d)
    rw [Shape.unravel, Shape.unravel, advance, ih hpos.2, Shape.count_cons, Nat.mul_comm d, hmod]
    by_cases hlast : (position + 1) % Shape.count dims = 0
    · -- the trailing entries start again
      have hdiv : (position + 1) / Shape.count dims = position / Shape.count dims + 1 := by
        rw [Nat.succ_div, if_pos (Nat.dvd_of_mod_eq_zero hlast)]
      have hlt := Nat.mod_lt (position / Shape.count dims) hpos.1
      simp only [hlast, decide_true, hdiv, Nat.zero_add, Nat.mul_eq_zero, Nat.ne_of_gt hpos.2,
        false_or]
      split
      · rename_i hnext
        have hsucc : (position / Shape.count dims + 1) % d = position / Shape.count dims % d + 1 := by
          rw [Nat.add_mod, Nat.mod_eq_of_lt (a := 1) (by omega), Nat.mod_eq_of_lt hnext]
        rw [hsucc]
        simp
      · rename_i hnext
        have hzero : (position / Shape.count dims + 1) % d = 0 := by
          have hd : position / Shape.count dims % d + 1 = d := by omega
          rw [← Nat.mod_add_mod, hd, Nat.mod_self]
        rw [hzero]
        simp
    · have hdiv : (position + 1) / Shape.count dims = position / Shape.count dims := by
        rw [Nat.succ_div, if_neg fun hdvd => hlast (Nat.mod_eq_zero_of_dvd hdvd), Nat.add_zero]
      simp [hlast, hdiv]

/-- Index vectors counted on from one of the box. -/
theorem count_unravel {dims : Shape} (hpos : 0 < Shape.count dims) (amount start : Nat) :
    count dims amount (Shape.unravel dims start) =
      (List.range' start amount).map (Shape.unravel dims) := by
  induction amount generalizing start with
  | zero => rfl
  | succ amount ih =>
    rw [count, advance_unravel hpos, ih, List.range'_succ, List.map_cons]

/-! ## Chunks -/

/-- The number of calls in front of a task. -/
def bound (work tasks task : Nat) : Nat :=
  let smaller := (work + tasks - 1) / tasks - 1
  task * smaller + min task (work - smaller * tasks)

/-- What the shares come to: `tasks` smaller ones leave at most one call per task. -/
theorem share_le {work tasks : Nat} (htasks : 0 < tasks) (hle : tasks ≤ work) :
    0 < (work + tasks - 1) / tasks ∧
      ((work + tasks - 1) / tasks - 1) * tasks ≤ work ∧
      work - ((work + tasks - 1) / tasks - 1) * tasks ≤ tasks := by
  have hdiv := Nat.div_add_mod (work + tasks - 1) tasks
  have hlt := Nat.mod_lt (work + tasks - 1) htasks
  have hpos : 0 < (work + tasks - 1) / tasks := Nat.div_pos (by omega) htasks
  rw [Nat.sub_mul, Nat.one_mul, Nat.mul_comm ((work + tasks - 1) / tasks)]
  exact ⟨hpos, by omega, by omega⟩

/-- The first task begins with the first call, and the last one ends with the last. -/
theorem bound_zero (work tasks : Nat) : bound work tasks 0 = 0 := by
  simp [bound]

theorem bound_self {work tasks : Nat} (htasks : 0 < tasks) (hle : tasks ≤ work) :
    bound work tasks tasks = work := by
  obtain ⟨-, hmul, hrest⟩ := share_le htasks hle
  rw [bound, Nat.min_eq_right hrest, Nat.mul_comm tasks]
  omega

theorem bound_le_succ (work tasks task : Nat) :
    bound work tasks task ≤ bound work tasks (task + 1) := by
  simp only [bound, Nat.succ_mul]
  omega

theorem bound_mono (work tasks : Nat) : Monotone (bound work tasks) :=
  monotone_nat_of_le_succ (bound_le_succ work tasks)

/-- **The calls of a task**, if there are no more tasks than calls. -/
theorem chunk_eq {work tasks task : Nat} (htasks : 0 < tasks) (hle : tasks ≤ work)
    (hwork : work < 0x10000000000000000) (htask : task < tasks) :
    chunk work tasks task = .ok (bound work tasks task, bound work tasks (task + 1)) := by
  obtain ⟨hpos, hmul, hrest⟩ := share_le htasks hle
  have hend : bound work tasks (task + 1) ≤ work :=
    (bound_mono work tasks htask).trans_eq (bound_self htasks hle)
  by_cases hone : tasks ≤ 1
  · obtain rfl : tasks = 1 := by omega
    obtain rfl : task = 0 := by omega
    rw [chunk, if_pos (.inl hone), bound_zero, bound_self (by omega) hle]
    rfl
  · rw [chunk, if_neg (by omega)]
    simp only [bound] at hend ⊢
    generalize hlarger : (work + tasks - 1) / tasks = larger at *
    obtain ⟨smaller, rfl⟩ : ∃ smaller, larger = smaller + 1 := ⟨larger - 1, by omega⟩
    rw [Nat.add_sub_cancel] at *
    have hsmaller : Checked.mul smaller tasks = .ok (smaller * tasks) :=
      Checked.mul_eq_ok.2 ⟨rfl, by omega⟩
    have hsub : Checked.sub work (smaller * tasks) = .ok (work - smaller * tasks) :=
      Checked.sub_eq_ok.2 ⟨hmul, rfl⟩
    generalize hmore : work - smaller * tasks = more at *
    have hnext : task * smaller + smaller = (task + 1) * smaller := by ring
    rw [hsmaller, Checked.ok_bind, hsub, Checked.ok_bind]
    by_cases hfew : task ≤ more
    · have hsplit : task * (smaller + 1) = task * smaller + task := by ring
      have hstart : Checked.mul task (smaller + 1) = .ok (task * smaller + task) :=
        Checked.mul_eq_ok.2 ⟨hsplit, by omega⟩
      rw [if_pos hfew, hstart, Checked.ok_bind, Nat.min_eq_left hfew]
      have hstop : Checked.add (task * smaller + task) (if task < more then smaller + 1 else smaller) =
          .ok ((task + 1) * smaller + min (task + 1) more) := by
        rw [Checked.add_eq_ok]
        split <;> omega
      rw [hstop]
      rfl
    · have hsplit : more * (smaller + 1) + (task - more) * smaller = task * smaller + more := by
        obtain ⟨k, rfl⟩ := Nat.exists_eq_add_of_lt (Nat.lt_of_not_le hfew)
        rw [Nat.add_assoc, Nat.add_sub_cancel_left]
        ring
      have hfront : Checked.mul more (smaller + 1) = .ok (more * (smaller + 1)) :=
        Checked.mul_eq_ok.2 ⟨rfl, by omega⟩
      have hover : Checked.sub task more = .ok (task - more) := Checked.sub_eq_ok.2 ⟨by omega, rfl⟩
      have hbehind : Checked.mul (task - more) smaller = .ok ((task - more) * smaller) :=
        Checked.mul_eq_ok.2 ⟨rfl, by omega⟩
      have hstart : Checked.add (more * (smaller + 1)) ((task - more) * smaller) =
          .ok (task * smaller + more) := Checked.add_eq_ok.2 ⟨hsplit, by omega⟩
      have hstop : Checked.add (task * smaller + more) smaller =
          .ok ((task + 1) * smaller + min (task + 1) more) := by
        rw [Checked.add_eq_ok]
        omega
      rw [if_neg hfew, hfront, Checked.ok_bind, hover, Checked.ok_bind, hbehind, Checked.ok_bind,
        hstart, Checked.ok_bind, if_neg (by omega), hstop, Nat.min_eq_right (a := task) (by omega)]
      rfl

/-- Contiguous chunks make up a range. -/
theorem flatten_range' {bound : Nat → Nat} (hmono : Monotone bound) (hzero : bound 0 = 0)
    (tasks : Nat) :
    ((List.range tasks).map fun task =>
      List.range' (bound task) (bound (task + 1) - bound task)).flatten =
        List.range (bound tasks) := by
  induction tasks with
  | zero => simp [hzero]
  | succ tasks ih =>
    have hle := hmono (Nat.le_succ tasks)
    have happend := List.range'_append_1 (s := 0) (m := bound tasks)
      (n := bound (tasks + 1) - bound tasks)
    rw [Nat.zero_add, Nat.add_sub_cancel' hle] at happend
    rw [List.range_succ, List.map_append, List.flatten_append, ih, List.map_singleton,
      List.flatten_singleton, List.range_eq_range', List.range_eq_range', happend]

end Pointwise.Dispatch
