import Pointwise.Checked

/-!
# Shapes

A shape lists the sizes of a tensor's dimensions, the fastest one last. Its elements are numbered
in row-major order: an index vector has a flat position, and a flat position can be taken apart
into an index vector again.

## Main definitions

* `Shape` — a list of dimensions.
* `Shape.padTo` — a shape with ones put in front up to a rank.
* `Shape.flatten` — the row-major position of an index vector.
* `Shape.unravel` — the index vector at a row-major position.
* `Shape.select` — the index vector that a broadcast reads in a smaller shape.
* `Shape.sourcePosition` — the position that an element of a broadcast reads in an operand.

## Main results

* `Shape.length_unravel` — an index vector has one entry per dimension.
* `Shape.count_padTo` — padding keeps the number of elements.
-/

set_option autoImplicit false

namespace Pointwise

/-- The sizes of a tensor's dimensions, the fastest one last. -/
abbrev Shape := List Nat

namespace Shape

/-- The number of elements, as an exact natural number. -/
def count : Shape → Nat
  | [] => 1
  | d :: dims => d * count dims

/-- A shape with ones put in front up to a rank. -/
def padTo (rank : Nat) (shape : Shape) : Shape :=
  List.replicate (rank - shape.length) 1 ++ shape

/-- The largest rank among shapes. -/
def maxRank (shapes : List Shape) : Nat := shapes.foldl (fun rank s => max rank s.length) 0

@[simp] theorem length_padTo (rank : Nat) (shape : Shape) :
    (padTo rank shape).length = max rank shape.length := by
  simp [padTo]
  omega

/-- Padding keeps the number of elements. -/
@[simp] theorem count_padTo (rank : Nat) (shape : Shape) :
    (padTo rank shape).count = shape.count := by
  unfold padTo
  induction rank - shape.length with
  | zero => rfl
  | succ k ih => rw [List.replicate_succ, List.cons_append, count, ih, Nat.one_mul]

/-! ## Row-major positions -/

/-- The row-major position of an index vector. -/
def flatten : Shape → List Nat → Nat
  | _ :: dims, i :: index => i * count dims + flatten dims index
  | _, _ => 0

/-- The index vector at a row-major position: the entry of a dimension is the position divided
by the number of elements behind that dimension, modulo its size. -/
def unravel : Shape → Nat → List Nat
  | [], _ => []
  | d :: dims, position => position / count dims % d :: unravel dims position

@[simp] theorem length_unravel (shape : Shape) (position : Nat) :
    (unravel shape position).length = shape.length := by
  induction shape with
  | nil => rfl
  | cons d dims ih => simp [unravel, ih]

/-! ## Reading through a broadcast -/

/-- The index vector that a broadcast reads in a shape of the same rank: a dimension of size one
is read at zero, the others at the given index. -/
def select (shape : Shape) (index : List Nat) : List Nat :=
  List.zipWith (fun d i => if d = 1 then 0 else i) shape index

/-- The position that element `position` of a broadcast to `master` reads in an operand of shape
`shape`. -/
def sourcePosition (master shape : Shape) (position : Nat) : Nat :=
  let padded := padTo master.length shape
  flatten padded (select padded (unravel master position))

end Shape

end Pointwise
