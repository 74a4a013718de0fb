import Pointwise.Proofs.Checked
import Pointwise.Proofs.Shape.Broadcast

/-!
# Extents

A shape with a size of zero has no elements, but its other sizes are still multiplied with each
other on the way to that number. What bounds all these products is the *extent* of a shape, the
product of its sizes other than zero. The extent of a broadcast is bounded by the largest sizes
along each axis of the shapes that go into it.

## Main definitions

* `Shape.extent` — the product of the sizes other than zero.
* `Shape.largest` — the largest size along each axis of a list of shapes.

## Main results

* `Shape.product_eq_ok_of_extent` — a number of elements is found if the extent is in range.
* `Shape.Fits.extent_le` — the extent of an operand is at most the master's.
* `Shape.extent_le_extent_largest` — the extent of a broadcast is at most that of the largest sizes.
-/

set_option autoImplicit false

namespace Pointwise.Shape

/-- The product of the sizes other than zero. -/
def extent : Shape → Nat
  | [] => 1
  | d :: dims => max d 1 * extent dims

@[simp] theorem extent_nil : extent [] = 1 := rfl

@[simp] theorem extent_cons (d : Nat) (dims : Shape) : extent (d :: dims) = max d 1 * extent dims :=
  rfl

/-- The extent is the product over both parts. -/
@[simp] theorem extent_append (front back : Shape) :
    extent (front ++ back) = extent front * extent back := by
  induction front with
  | nil => simp
  | cons d front ih => simp [ih, Nat.mul_assoc]

@[simp] theorem extent_replicate_one (k : Nat) : extent (List.replicate k 1) = 1 := by
  induction k with
  | zero => rfl
  | succ k ih => simp [List.replicate_succ, ih]

/-- Padding keeps the extent. -/
@[simp] theorem extent_padTo (rank : Nat) (shape : Shape) :
    extent (padTo rank shape) = extent shape := by
  simp [padTo]

theorem extent_pos (shape : Shape) : 0 < extent shape := by
  induction shape with
  | nil => exact Nat.one_pos
  | cons d dims ih => exact Nat.mul_pos (by omega) ih

/-- No size exceeds the extent. -/
theorem le_extent {shape : Shape} {d : Nat} (h : d ∈ shape) : d ≤ extent shape := by
  induction shape with
  | nil => simp at h
  | cons e dims ih =>
    rw [extent_cons]
    rcases List.mem_cons.1 h with rfl | h
    · exact (Nat.le_max_left d 1).trans (Nat.le_mul_of_pos_right _ (extent_pos dims))
    · exact (ih h).trans (Nat.le_mul_of_pos_left _ (by omega))

/-- There are at most as many elements as the extent says. -/
theorem count_le_extent (shape : Shape) : count shape ≤ extent shape := by
  induction shape with
  | nil => exact le_rfl
  | cons d dims ih => exact Nat.mul_le_mul (Nat.le_max_left d 1) ih

/-- If there are elements, their number is the extent. -/
theorem extent_eq_count {shape : Shape} (hpos : 0 < count shape) : extent shape = count shape := by
  induction shape with
  | nil => rfl
  | cons d dims ih =>
    rw [count_cons_pos] at hpos
    rw [extent_cons, count_cons, ih hpos.2, Nat.max_eq_left hpos.1]

/-- **The number of elements is found if the extent is in range**, also if it is zero.

**Proof sketch.** Every partial product is at most the product of the sizes other than zero. -/
theorem product_eq_ok_of_extent {sizes : Shape} (hlt : extent sizes < 0x10000000000000000) :
    Checked.product sizes = .ok (count sizes) := by
  have hfold : ∀ (sizes : Shape) (start : Nat), start * extent sizes < 0x10000000000000000 →
      sizes.foldlM Checked.mul start = .ok (start * count sizes) := by
    intro sizes
    induction sizes with
    | nil => simp [pure, Except.pure]
    | cons d sizes ih =>
      intro start hlt
      have hstep : start * d * extent sizes ≤ start * extent (d :: sizes) := by
        rw [extent_cons, ← Nat.mul_assoc]
        exact Nat.mul_le_mul_right _ (Nat.mul_le_mul_left _ (Nat.le_max_left d 1))
      have hmul : start * d ≤ start * d * extent sizes := Nat.le_mul_of_pos_right _ (extent_pos sizes)
      rw [List.foldlM_cons, Checked.mul_eq_ok.2 ⟨rfl, by omega⟩, Checked.ok_bind, ih _ (by omega),
        count_cons, Nat.mul_assoc]
  rw [Checked.product, hfold sizes 1 (by rwa [Nat.one_mul]), Nat.one_mul]

/-! ## Operands and broadcasts -/

/-- The extent of an operand is at most the master's. -/
theorem Fits.extent_le {master shape : Shape} (h : Fits master shape) :
    extent shape ≤ extent master := by
  induction h with
  | nil => exact le_rfl
  | @cons m d master shape hd _ ih => exact Nat.mul_le_mul (by omega) ih

/-- The largest size along each axis, the shapes being aligned on their last dimensions. -/
def largest (shapes : List Shape) : Shape :=
  shapes.foldl (fun top shape => List.zipWith max top (padTo (maxRank shapes) shape))
    (List.replicate (maxRank shapes) 0)

/-- Whether the sizes of a shape, other than zero, are at most those of another one. -/
def Within (shape top : Shape) : Prop := List.Forall₂ (fun d t => d ≤ max t 1) shape top

theorem Within.extent_le {shape top : Shape} (h : Within shape top) : extent shape ≤ extent top := by
  induction h with
  | nil => exact le_rfl
  | cons hd _ ih => exact Nat.mul_le_mul (by omega) ih

/-- A merge takes its sizes from the master and the merged shape. -/
theorem within_merge {master dims merged top : Shape} (hlen : master.length = dims.length)
    (hmaster : Within master top) (h : merge master dims = .ok merged) :
    Within merged (List.zipWith max top dims) := by
  induction hmaster generalizing dims merged with
  | nil =>
    simp only [merge, Except.ok.injEq] at h
    subst h
    exact .nil
  | @cons m t master top hm _ ih =>
    cases dims with
    | nil => simp at hlen
    | cons d dims =>
      simp only [merge] at h
      split at h
      · simp at h
      · rename_i k hk
        split at h
        · rename_i rest hrest
          simp only [Except.ok.injEq] at h
          subst h
          have hsize : k = m ∨ k = d := by
            unfold mergeDim at hk
            split at hk
            · simp_all
            · split at hk <;> simp_all
          exact .cons (by omega) (ih (by simpa using hlen) hrest)
        · simp at h

/-- **The extent of a broadcast is at most that of the largest sizes.** -/
theorem extent_le_extent_largest {shapes : List Shape} {master : Shape}
    (h : broadcast shapes = .ok master) : extent master ≤ extent (largest shapes) := by
  have hfold : ∀ (rest : List Shape) (start top : Shape), (∀ shape ∈ rest, shape ∈ shapes) →
      start.length = maxRank shapes → Within start top →
      rest.foldlM (mergePadded (maxRank shapes)) start = .ok master →
      Within master
        (rest.foldl (fun top shape => List.zipWith max top (padTo (maxRank shapes) shape)) top) := by
    intro rest
    induction rest with
    | nil =>
      intro start top _ _ htop h
      rw [List.foldlM_nil, Checked.pure_eq_ok] at h
      exact h ▸ htop
    | cons shape rest ih =>
      intro start top hmem hlen htop h
      rw [List.foldlM_cons, Checked.bind_eq_ok] at h
      obtain ⟨merged, hmerge, h⟩ := h
      rw [mergePadded_eq_ok] at hmerge
      rw [List.forall_mem_cons] at hmem
      have hpad : (padTo (maxRank shapes) shape).length = maxRank shapes := by
        rw [length_padTo, Nat.max_eq_left (length_le_maxRank hmem.1)]
      exact ih merged _ hmem.2 ((length_merge hmerge).trans hlen)
        (within_merge (hlen.trans hpad.symm) htop hmerge) h
  have hstart : Within (List.replicate (maxRank shapes) 1) (List.replicate (maxRank shapes) 0) := by
    show List.Forall₂ _ _ _
    induction maxRank shapes with
    | zero => exact .nil
    | succ k ih => exact .cons (Nat.le_max_right 0 1) ih
  exact (hfold shapes _ _ (fun _ hshape => hshape) (by simp) hstart h).extent_le

end Pointwise.Shape
