import Mathlib.Tactic.Ring
import Pointwise.Shape.Basic

/-!
# Positions in shapes that are put together

A shape is split into leading and trailing dimensions, and everything that is defined by recursion
on the dimensions splits accordingly: the trailing part sees the position itself, the leading part
the position divided by the number of trailing elements. This is how merges of dimensions, rows of
a kernel and numbers of kernel calls are related to positions.

## Main results

* `Shape.sourcePosition_append` — the position that is read splits like the dimensions.
* `Shape.sourcePosition_padTo` — leading ones do not change the position that is read.
* `Shape.sourcePosition_self` — a tensor of the master's shape is read at the position itself.
-/

set_option autoImplicit false

namespace Pointwise.Shape

/-! ## Leading and trailing dimensions -/

@[simp] theorem count_nil : count [] = 1 := rfl

@[simp] theorem count_cons (d : Nat) (dims : Shape) : count (d :: dims) = d * count dims := rfl

/-- The number of elements is the product over both parts. -/
@[simp] theorem count_append (front back : Shape) :
    count (front ++ back) = count front * count back := by
  induction front with
  | nil => simp
  | cons d front ih => simp [ih, Nat.mul_assoc]

theorem count_cons_pos {d : Nat} {dims : Shape} :
    0 < count (d :: dims) ↔ 0 < d ∧ 0 < count dims := by
  simp [Nat.pos_iff_ne_zero]

/-- There are elements exactly if no size is zero. -/
theorem count_pos {shape : Shape} : 0 < count shape ↔ ∀ d ∈ shape, 0 < d := by
  induction shape with
  | nil => simp
  | cons d dims ih => rw [count_cons_pos, ih, List.forall_mem_cons]

/-- The index vector at a position, by parts. -/
theorem unravel_append (front back : Shape) (position : Nat) :
    unravel (front ++ back) position =
      unravel front (position / count back) ++ unravel back position := by
  induction front with
  | nil => rfl
  | cons d front ih =>
    simp only [List.cons_append, unravel, ih, count_append]
    rw [Nat.mul_comm (count front), Nat.div_div_eq_div_mul]

/-- The position of an index vector, by parts. -/
theorem flatten_append {front back : Shape} {index rest : List Nat}
    (h : front.length = index.length) :
    flatten (front ++ back) (index ++ rest) =
      flatten front index * count back + flatten back rest := by
  induction front generalizing index with
  | nil =>
    obtain rfl : index = [] := List.length_eq_zero_iff.1 h.symm
    simp [flatten]
  | cons d front ih =>
    cases index with
    | nil => simp at h
    | cons i index =>
      have hlen : front.length = index.length := by simpa using h
      simp only [List.cons_append, flatten, ih hlen, count_append]
      ring

/-- Padding a shape that has the rank already changes nothing. -/
theorem padTo_of_length_le {rank : Nat} {shape : Shape} (h : rank ≤ shape.length) :
    padTo rank shape = shape := by
  simp [padTo, Nat.sub_eq_zero_of_le h]

/-- The position that is read in an operand of the master's rank. -/
theorem sourcePosition_eq {master shape : Shape} (h : master.length = shape.length)
    (position : Nat) :
    sourcePosition master shape position =
      flatten shape (select shape (unravel master position)) := by
  simp [sourcePosition, padTo_of_length_le h.le]

/-- **Reading splits like the dimensions.** The trailing dimensions are read at the position, the
leading ones at the position divided by the number of trailing elements of the master. -/
theorem sourcePosition_append {front front' back back' : Shape}
    (hfront : front.length = front'.length) (hback : back.length = back'.length)
    (position : Nat) :
    sourcePosition (front ++ back) (front' ++ back') position =
      sourcePosition front front' (position / count back) * count back' +
        sourcePosition back back' position := by
  have hselect : select (front' ++ back') (unravel (front ++ back) position) =
      select front' (unravel front (position / count back)) ++
        select back' (unravel back position) := by
    rw [unravel_append]
    exact List.zipWith_append (by simp [hfront])
  rw [sourcePosition_eq (by simp [hfront, hback]), sourcePosition_eq hfront,
    sourcePosition_eq hback, hselect, flatten_append (by simp [select, hfront])]

@[simp] theorem sourcePosition_nil (position : Nat) : sourcePosition [] [] position = 0 := rfl

/-- Reading along a single dimension. -/
@[simp] theorem sourcePosition_singleton (m d position : Nat) :
    sourcePosition [m] [d] position = if d = 1 then 0 else position % m := by
  simp [sourcePosition_eq, select, unravel, flatten]

/-- A first dimension, and the others. -/
theorem sourcePosition_cons {m d : Nat} {master shape : Shape}
    (h : master.length = shape.length) (position : Nat) :
    sourcePosition (m :: master) (d :: shape) position =
      (if d = 1 then 0 else position / count master % m) * count shape +
        sourcePosition master shape position := by
  have hone : [m].length = [d].length := rfl
  have hsplit := sourcePosition_append hone h position
  rwa [sourcePosition_singleton] at hsplit

/-- A last dimension, and the others. -/
theorem sourcePosition_concat {m d : Nat} {master shape : Shape}
    (h : master.length = shape.length) (position : Nat) :
    sourcePosition (master ++ [m]) (shape ++ [d]) position =
      sourcePosition master shape (position / m) * d +
        if d = 1 then 0 else position % m := by
  have hone : [m].length = [d].length := rfl
  have hsplit := sourcePosition_append h hone position
  simpa using hsplit

/-- The last two dimensions, and the others. -/
theorem sourcePosition_concat_pair {m n d e : Nat} {master shape : Shape}
    (h : master.length = shape.length) (position : Nat) :
    sourcePosition (master ++ [m, n]) (shape ++ [d, e]) position =
      (sourcePosition master shape (position / n / m) * d +
        if d = 1 then 0 else position / n % m) * e + if e = 1 then 0 else position % n := by
  have hlen : (master ++ [m]).length = (shape ++ [d]).length := by simp [h]
  have hsplit := sourcePosition_concat (m := n) (d := e) hlen position
  rw [sourcePosition_concat h] at hsplit
  simpa using hsplit

/-! ## Leading ones -/

/-- Padding in two steps. -/
theorem padTo_padTo {rank rank' : Nat} (h : rank' ≤ rank) (shape : Shape) :
    padTo rank (padTo rank' shape) = padTo rank shape := by
  simp only [padTo, List.length_append, List.length_replicate, ← List.append_assoc,
    List.replicate_append_replicate]
  congr 2
  omega

/-- Leading ones are read at position zero. -/
theorem sourcePosition_replicate_append {master shape : Shape} (k : Nat)
    (h : master.length = shape.length) (position : Nat) :
    sourcePosition (List.replicate k 1 ++ master) (List.replicate k 1 ++ shape) position =
      sourcePosition master shape position := by
  have hones : ∀ q, sourcePosition (List.replicate k 1) (List.replicate k 1) q = 0 := by
    intro q
    induction k with
    | zero => rfl
    | succ k ih => simp [List.replicate_succ, sourcePosition_cons, ih]
  rw [sourcePosition_append rfl h, hones, Nat.zero_mul, Nat.zero_add]

/-- **Leading ones of the master do not change the position that is read.** -/
theorem sourcePosition_padTo {master shape : Shape} (rank : Nat)
    (h : shape.length ≤ master.length) (position : Nat) :
    sourcePosition (padTo rank master) shape position = sourcePosition master shape position := by
  have hsame : ∀ master : Shape, sourcePosition master shape position =
      sourcePosition master (padTo master.length shape) position := by
    intro master
    rw [sourcePosition, sourcePosition, padTo_padTo (Nat.le_refl _)]
  rw [hsame, hsame master, length_padTo, ← padTo_padTo (Nat.le_max_right rank master.length)]
  have hk : max rank master.length - (padTo master.length shape).length =
      rank - master.length := by
    rw [length_padTo]
    omega
  rw [padTo, padTo, hk]
  exact sourcePosition_replicate_append _ (by simp [h]) position

/-- A tensor of the master's shape is read at the position itself. -/
theorem sourcePosition_self (master : Shape) (position : Nat) :
    sourcePosition master master position = position % count master := by
  induction master with
  | nil => simp [Nat.mod_one]
  | cons m master ih =>
    rw [sourcePosition_cons rfl, ih, count_cons, Nat.mul_comm m, Nat.mod_mul]
    split
    · rename_i hone
      simp [hone, Nat.mod_one]
    · ring

end Pointwise.Shape
