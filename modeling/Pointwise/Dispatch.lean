import Pointwise.Domain.Plan

/-!
# Dispatching kernel calls

A kernel is called once for every index vector of a box. The calls are numbered in row-major order
and shared among tasks in contiguous chunks of nearly equal size.

A task finds its index vectors in one of two ways. It can take the number of every call apart, or,
which is cheaper, do so for the first one only and count on from there like an odometer. The
latter is used for boxes of five dimensions.

## Main definitions

* `Dispatch.chunk` — the numbers of the calls of a task.
* `Dispatch.advance` — the index vector after another one.
* `Dispatch.countingTask`, `Dispatch.numberingTask` — the calls of a task, found in either way.
* `Dispatch.tasks` — the calls of all tasks for a domain.
* `Dispatch.box` — all index vectors of a box in row-major order.
-/

set_option autoImplicit false

namespace Pointwise.Dispatch

/-- The numbers of the calls that a task makes: the first one, and the one behind the last. The
first tasks get one call more than the others if the calls cannot be shared evenly. -/
def chunk (work tasks task : Nat) : Except Error (Nat × Nat) := do
  if tasks ≤ 1 ∨ work = 0 then return (0, work)
  else
    let larger := (work + tasks - 1) / tasks
    let smaller := larger - 1
    let largerTasks ← Checked.sub work (← Checked.mul smaller tasks)
    let amount := if task < largerTasks then larger else smaller
    let start ←
      if task ≤ largerTasks then Checked.mul task larger
      else do
        Checked.add (← Checked.mul largerTasks larger)
          (← Checked.mul (← Checked.sub task largerTasks) smaller)
    return (start, ← Checked.add start amount)

/-! ## Index vectors -/

/-- The index vector after another one, and whether it has run over the end of the box, in which
case it starts again at zero. The last entry changes fastest. -/
def advance : Shape → List Nat → List Nat × Bool
  | d :: dims, i :: index =>
    match advance dims index with
    | (rest, false) => (i :: rest, false)
    | (rest, true) => if i + 1 < d then ((i + 1) :: rest, false) else (0 :: rest, true)
  | _, _ => ([], true)

/-- A number of index vectors, counted on from a given one. -/
def count (dims : Shape) : (amount : Nat) → List Nat → List (List Nat)
  | 0, _ => []
  | amount + 1, index => index :: count dims amount (advance dims index).1

/-- All index vectors of a box in row-major order. -/
def box : Shape → List (List Nat)
  | [] => [[]]
  | d :: dims => (List.range d).flatMap fun i => (box dims).map (i :: ·)

/-! ## Tasks -/

/-- The calls of a task, the first index vector being taken apart and the others counted. -/
def countingTask (dims : Shape) (work tasks task : Nat) : Except Error (List (List Nat)) := do
  let (start, stop) ← chunk work tasks task
  return count dims (stop - start) (Shape.unravel dims start)

/-- The calls of a task, the number of each being taken apart. -/
def numberingTask (dims : Shape) (work tasks task : Nat) : Except Error (List (List Nat)) := do
  let (start, stop) ← chunk work tasks task
  return (List.range' start (stop - start)).map (Shape.unravel dims)

/-- The calls for all index vectors of a box, shared among tasks; there is at least one task. -/
def schedule (task : Shape → (work tasks task : Nat) → Except Error (List (List Nat)))
    (dims : Shape) (tasks : Nat) : Except Error (List (List (List Nat))) := do
  let work ← Checked.product dims
  (List.range (max tasks 1)).mapM (task dims work tasks)

/-- The calls for a domain, whose last dimension is not called for, by task. There are no more
tasks than calls. -/
def tasks (callShape : Shape) (maxTasks : Nat) : Except Error (List (List (List Nat))) := do
  if callShape.length = 0 then return []
  else
    let dims := callShape.dropLast
    let work ← Checked.product dims
    if work = 0 then return []
    else
      let task := if callShape.length = tensorRank then countingTask else numberingTask
      schedule task dims (max 1 (min maxTasks work))

end Pointwise.Dispatch
