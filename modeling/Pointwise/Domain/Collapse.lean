import Pointwise.Config
import Pointwise.Shape.Basic

/-!
# Collapsing trailing dimensions

Merging the last two dimensions of every tensor gives the inner loop of a kernel more elements and
leaves fewer kernel calls. Two dimensions of a tensor can be merged if both are one or neither is:
otherwise the tensor is broadcast along exactly one of them. The optimizer merges as long as a
kernel call has too little work and enough calls would remain. If tensors stand in the way, the
kernel may walk the second last dimension by itself instead, which makes its *tile rank* two.

## Main definitions

* `Optimizer` — the limits that steer the merging.
* `Shape.mergeTail`, `Shape.collapse` — the last two dimensions merged, the rank being kept.
* `Optimizer.collapse` — the shapes and the domain after all merges, and the tile rank.

## Main results

* `Shape.length_collapse` — a collapse keeps the rank.
* `Shape.count_collapse` — a collapse keeps the number of elements.
-/

set_option autoImplicit false

namespace Pointwise

namespace Shape

/-- Whether the last two dimensions can be merged: both are one, or neither is. -/
def tailMergeable (shape : Shape) : Except Error Bool := do
  let outer ← Checked.getBack shape 2
  let inner ← Checked.getBack shape 1
  return (outer = 1) = (inner = 1)

/-- Whether the last two dimensions can be merged in every shape, up to the first one where they
cannot. -/
def allTailsMergeable : List Shape → Except Error Bool
  | [] => return true
  | shape :: shapes => do
    if ← tailMergeable shape then allTailsMergeable shapes else return false

/-- The shape of one rank less with the last two dimensions merged. -/
def mergeTail : Shape → Except Error Shape
  | [] => .error (.fault .outOfRange)
  | [outer, inner] => do return [← Checked.mul inner outer]
  | d :: dims => do return d :: (← mergeTail dims)

/-- The shape of the same rank with the last two dimensions merged. -/
def collapse (shape : Shape) : Except Error Shape := do
  return 1 :: (← mergeTail shape)

/-! ## Rank and size of a merged shape -/

/-- A merge leaves one dimension less and the same number of elements. -/
theorem length_count_mergeTail {shape merged : Shape} (h : mergeTail shape = .ok merged) :
    merged.length + 1 = shape.length ∧ merged.count = shape.count := by
  induction shape generalizing merged with
  | nil => simp [mergeTail] at h
  | cons d dims ih =>
    cases dims with
    | nil => simp [mergeTail, bind, Except.bind] at h
    | cons e rest =>
      cases rest with
      | nil =>
        simp only [mergeTail, Checked.mul, Checked.size] at h
        split at h
        · simp only [bind, Except.bind, pure, Except.pure, Except.ok.injEq] at h
          rw [← h]
          simp [count, Nat.mul_comm]
        · simp [bind, Except.bind] at h
      | cons f rest =>
        simp only [mergeTail] at h
        cases ht : mergeTail (e :: f :: rest) with
        | error cause => simp [ht, bind, Except.bind] at h
        | ok tail =>
          simp only [ht, bind, Except.bind, pure, Except.pure, Except.ok.injEq] at h
          obtain ⟨hl, hc⟩ := ih ht
          rw [← h]
          refine ⟨by simp only [List.length_cons] at hl ⊢; omega, ?_⟩
          simp only [count] at hc ⊢
          rw [hc]

/-- A collapse keeps the rank. -/
theorem length_collapse {shape collapsed : Shape} (h : collapse shape = .ok collapsed) :
    collapsed.length = shape.length := by
  unfold collapse at h
  cases ht : mergeTail shape with
  | error cause => simp [ht, bind, Except.bind] at h
  | ok tail =>
    simp only [ht, bind, Except.bind, pure, Except.pure, Except.ok.injEq] at h
    rw [← h, List.length_cons, (length_count_mergeTail ht).1]

/-- A collapse keeps the number of elements. -/
theorem count_collapse {shape collapsed : Shape} (h : collapse shape = .ok collapsed) :
    collapsed.count = shape.count := by
  unfold collapse at h
  cases ht : mergeTail shape with
  | error cause => simp [ht, bind, Except.bind] at h
  | ok tail =>
    simp only [ht, bind, Except.bind, pure, Except.pure, Except.ok.injEq] at h
    rw [← h, ← (length_count_mergeTail ht).2]
    simp [count]

end Shape

/-! ## The optimizer -/

/-- The limits that steer the merging. -/
structure Optimizer where
  /-- The number of elements below which a kernel call has too little work. -/
  minWork : Nat
  /-- The number of kernel calls that have to remain. -/
  minParallelism : Nat
  /-- The largest tile rank. -/
  tileRankLimit : Nat

/-- The outcome of the merging. -/
structure Collapsed where
  tileRank : Nat
  shapes : List Shape
  domain : Shape

namespace Optimizer

/-- The limits of a configuration. -/
def ofConfig (config : Config) : Optimizer where
  minWork := config.minWork
  minParallelism := max config.minParallelism 1
  tileRankLimit := max 1 (min config.tileRankLimit maxTileRank)

/-- Merges at most `merges` times, where a kernel call now has `work` elements of `full`. -/
def collapseFrom (limits : Optimizer) (full : Nat) :
    (merges work : Nat) → List Shape → Shape → Except Error Collapsed
  | 0, _, shapes, domain => return ⟨1, shapes, domain⟩
  | merges + 1, work, shapes, domain =>
    if work < limits.minWork ∧ work < full then do
      let mergeable ← Shape.allTailsMergeable shapes
      let next ← Checked.mul work (← Checked.getBack domain 2)
      let remaining ← Checked.div full next
      if remaining < limits.minParallelism then
        return ⟨1, shapes, domain⟩
      else if mergeable then do
        let shapes ← shapes.mapM Shape.collapse
        let domain ← Shape.collapse domain
        collapseFrom limits full merges next shapes domain
      else
        return ⟨if 1 < limits.tileRankLimit then 2 else 1, shapes, domain⟩
    else
      return ⟨1, shapes, domain⟩

/-- The shapes and the domain after all merges, and the tile rank. A domain of fewer than two
dimensions stays as it is. -/
def collapse (limits : Optimizer) (shapes : List Shape) (domain : Shape) :
    Except Error Collapsed := do
  let full ← Checked.product domain
  if domain.length < 2 then
    return ⟨1, shapes, domain⟩
  else
    collapseFrom limits full (domain.length - 1) (← Checked.getBack domain 1) shapes domain

end Optimizer

end Pointwise
