import Pointwise.Proofs.Raises
import Pointwise.Proofs.Shape.Position
import Pointwise.Shape.Broadcast

/-!
# Operands of a broadcast

Shapes that broadcast are operands of their master: padded to its rank, each of their sizes is one
or the master's. An operand is read within its bounds.

## Main definitions

* `Shape.Fits` — an operand of a broadcast.

## Main results

* `Shape.sourcePosition_lt` — the position that is read lies in the operand.
* `Shape.raises_mismatch` — a broadcast fails because shapes do not match.
* `Shape.fits_of_broadcast` — shapes that broadcast are operands of their master.
* `Shape.broadcast_padTo` — leading ones in front of all shapes come out in front of the master.
* `Shape.exists_broadcast_of_padTo` — shapes broadcast if they do behind leading ones.
-/

set_option autoImplicit false

namespace Pointwise.Shape

/-! ## Operands -/

/-- An operand of a broadcast, of the master's rank: each size is one or the master's. -/
def Fits (master shape : Shape) : Prop := List.Forall₂ (fun m d => d = 1 ∨ d = m) master shape

theorem Fits.length_eq {master shape : Shape} (h : Fits master shape) :
    master.length = shape.length :=
  List.Forall₂.length_eq h

theorem fits_self (master : Shape) : Fits master master := by
  induction master with
  | nil => exact .nil
  | cons m master ih => exact .cons (.inr rfl) ih

/-- Along every axis an operand is one or has the master's size. -/
theorem Fits.getElem {master shape : Shape} (h : Fits master shape) {axis : Nat}
    (hshape : axis < shape.length) (hmaster : axis < master.length) :
    shape[axis] = 1 ∨ shape[axis] = master[axis] := by
  simpa using h.get hmaster hshape

/-- **The position that is read lies in the operand.** -/
theorem sourcePosition_lt {master shape : Shape} (h : Fits master shape) (hpos : 0 < count master)
    (position : Nat) : sourcePosition master shape position < count shape := by
  induction h with
  | nil => simp
  | @cons m d master shape hd hrest ih =>
    rw [count_cons_pos] at hpos
    have hlt := ih hpos.2
    rw [sourcePosition_cons (Fits.length_eq hrest), count_cons]
    split
    · rename_i hone
      rw [hone]
      omega
    · rename_i hone
      obtain rfl : d = m := hd.resolve_left hone
      have hmod := Nat.mod_lt (position / count master) hpos.1
      calc position / count master % d * count shape + sourcePosition master shape position
        _ < position / count master % d * count shape + count shape := by omega
        _ = (position / count master % d + 1) * count shape := by ring
        _ ≤ d * count shape := Nat.mul_le_mul_right _ hmod

/-- An operand has elements if the master has. -/
theorem Fits.count_pos {master shape : Shape} (h : Fits master shape) (hpos : 0 < count master) :
    0 < count shape :=
  Nat.zero_lt_of_lt (sourcePosition_lt h hpos 0)

/-- No size of an operand exceeds the number of elements of the master. -/
theorem Fits.le_count {master shape : Shape} (h : Fits master shape) (hpos : 0 < count master) :
    ∀ d ∈ shape, d ≤ count master := by
  induction h with
  | nil => simp
  | @cons m d master shape hd hrest ih =>
    rw [count_cons_pos] at hpos
    rw [count_cons, List.forall_mem_cons]
    constructor
    · have hle : d ≤ m := by omega
      exact hle.trans (Nat.le_mul_of_pos_right m hpos.2)
    · exact fun e he => (ih hpos.2 e he).trans (Nat.le_mul_of_pos_left _ hpos.1)

/-- An operand has at most as many elements as the master. -/
theorem Fits.count_le {master shape : Shape} (h : Fits master shape) (hpos : 0 < count master) :
    count shape ≤ count master := by
  induction h with
  | nil => exact le_rfl
  | @cons m d master shape hd hrest ih =>
    rw [count_cons_pos] at hpos
    exact Nat.mul_le_mul (by omega) (ih hpos.2)

/-- **An operand with as many elements as the master has its shape.** -/
theorem Fits.eq_of_count {master shape : Shape} (h : Fits master shape) (hpos : 0 < count master)
    (hcount : count shape = count master) : shape = master := by
  induction h with
  | nil => rfl
  | @cons m d master shape hd hrest ih =>
    rw [count_cons_pos] at hpos
    rw [count_cons, count_cons] at hcount
    have hle : d ≤ m := by omega
    have hrestCount : count shape = count master := by
      refine Nat.le_antisymm (Fits.count_le hrest hpos.2) (Nat.le_of_not_lt fun hlt => ?_)
      have hless := (Nat.mul_le_mul_right (count shape) hle).trans_lt
        (Nat.mul_lt_mul_of_pos_left hlt hpos.1)
      omega
    rw [hrestCount] at hcount
    rw [Nat.eq_of_mul_eq_mul_right hpos.2 hcount, ih hpos.2 hrestCount]

/-- Such an operand is read at each position at the position itself. -/
theorem Fits.sourcePosition_of_count {master shape : Shape} (h : Fits master (padTo master.length shape))
    (hpos : 0 < count master) (hcount : count shape = count master) (position : Nat) :
    sourcePosition master shape position = position % count master := by
  have hsame := h.eq_of_count hpos ((count_padTo _ _).trans hcount)
  have hself := sourcePosition_self master position
  rw [sourcePosition, padTo_of_length_le le_rfl] at hself
  rw [sourcePosition, hsame, hself]

/-! ## Shapes that broadcast -/

/-- A merge keeps operands of the old master operands of the new one, and makes one of the merged
shape. -/
theorem fits_merge {master dims merged : Shape} (hlen : master.length = dims.length)
    (h : merge master dims = .ok merged) :
    Fits merged dims ∧ ∀ shape, Fits master shape → Fits merged shape := by
  induction master generalizing dims merged with
  | nil =>
    obtain rfl : dims = [] := List.length_eq_zero_iff.1 hlen.symm
    simp only [merge, Except.ok.injEq] at h
    subst h
    exact ⟨.nil, fun _ hshape => hshape⟩
  | cons m master ih =>
    cases dims with
    | nil => simp at hlen
    | cons d dims =>
      simp only [merge] at h
      split at h
      · simp at h
      · rename_i k hk
        split at h
        · rename_i rest hrest
          simp only [Except.ok.injEq] at h
          subst h
          obtain ⟨hnew, hold⟩ := ih (by simpa using hlen) hrest
          have hdim : (d = 1 ∨ d = k) ∧ (m = 1 ∨ m = k) := by
            unfold mergeDim at hk
            split at hk
            · simp_all
            · split at hk <;> simp_all
          refine ⟨.cons hdim.1 hnew, fun shape hshape => ?_⟩
          cases hshape with
          | cons hx hshape =>
            refine .cons ?_ (hold _ hshape)
            rcases hx with rfl | rfl
            · exact .inl rfl
            · exact hdim.2
        · simp at h

/-- One more shape, padded to a rank, merged into a master of that rank. -/
def mergePadded (rank : Nat) (master shape : Shape) : Except Error Shape :=
  match merge master (padTo rank shape) with
  | .ok merged => .ok merged
  | .error partly => .error (.shape (.broadcast partly shape))

/-- A broadcast merges one shape after the other. -/
theorem broadcast_eq_foldlM (shapes : List Shape) :
    broadcast shapes =
      shapes.foldlM (mergePadded (maxRank shapes)) (List.replicate (maxRank shapes) 1) :=
  rfl

theorem mergePadded_eq_ok {rank : Nat} {master shape merged : Shape} :
    mergePadded rank master shape = .ok merged ↔ merge master (padTo rank shape) = .ok merged := by
  unfold mergePadded
  split <;> simp_all

/-- All shapes that are merged into a master are operands of the outcome. -/
theorem fits_foldlM_mergePadded {rank : Nat} {shapes : List Shape} {start master : Shape}
    (hrank : ∀ shape ∈ shapes, shape.length ≤ rank) (hstart : start.length = rank)
    (h : shapes.foldlM (mergePadded rank) start = .ok master) :
    master.length = rank ∧ (∀ shape ∈ shapes, Fits master (padTo rank shape)) ∧
      ∀ shape, Fits start shape → Fits master shape := by
  induction shapes generalizing start with
  | nil =>
    rw [List.foldlM_nil, Checked.pure_eq_ok] at h
    subst h
    exact ⟨hstart, by simp, fun _ hshape => hshape⟩
  | cons shape shapes ih =>
    rw [List.foldlM_cons, Checked.bind_eq_ok] at h
    obtain ⟨merged, hmerge, h⟩ := h
    rw [mergePadded_eq_ok] at hmerge
    have hpad : (padTo rank shape).length = rank := by
      rw [length_padTo, Nat.max_eq_left (hrank shape (by simp))]
    obtain ⟨hnew, hold⟩ := fits_merge (by rw [hstart, hpad]) hmerge
    obtain ⟨hlen, hall, hkeep⟩ := ih (fun s hs => hrank s (by simp [hs]))
      (by rw [length_merge hmerge, hstart]) h
    refine ⟨hlen, ?_, fun s hs => hkeep s (hold s hs)⟩
    rw [List.forall_mem_cons]
    exact ⟨hkeep _ hnew, hall⟩

/-- No shape exceeds the largest rank. -/
theorem length_le_maxRank {shapes : List Shape} {shape : Shape} (h : shape ∈ shapes) :
    shape.length ≤ maxRank shapes := by
  have hgrow : ∀ (shapes : List Shape) (start : Nat),
      start ≤ shapes.foldl (fun rank s => max rank s.length) start ∧
        ∀ s ∈ shapes, s.length ≤ shapes.foldl (fun rank s => max rank s.length) start := by
    intro shapes
    induction shapes with
    | nil => simp
    | cons s shapes ih =>
      intro start
      obtain ⟨hstart, hall⟩ := ih (max start s.length)
      rw [List.foldl_cons, List.forall_mem_cons]
      exact ⟨by omega, by omega, hall⟩
  exact (hgrow shapes 0).2 shape h

/-- The largest rank is bounded by what bounds all ranks. -/
theorem maxRank_le {shapes : List Shape} {bound : Nat} (h : ∀ shape ∈ shapes, shape.length ≤ bound) :
    maxRank shapes ≤ bound := by
  have hfold : ∀ (shapes : List Shape) (start : Nat), start ≤ bound →
      (∀ shape ∈ shapes, shape.length ≤ bound) →
      shapes.foldl (fun rank s => max rank s.length) start ≤ bound := by
    intro shapes
    induction shapes with
    | nil => exact fun start hstart _ => hstart
    | cons shape shapes ih =>
      intro start hstart hall
      rw [List.forall_mem_cons] at hall
      exact ih _ (Nat.max_le.2 ⟨hstart, hall.1⟩) hall.2
  exact hfold shapes 0 (Nat.zero_le _) h

/-- The largest rank is that of one of the shapes, unless it is zero. -/
theorem exists_length_eq_maxRank {shapes : List Shape} (hpos : 0 < maxRank shapes) :
    ∃ shape ∈ shapes, shape.length = maxRank shapes := by
  by_contra hnone
  push Not at hnone
  have hle : maxRank shapes ≤ maxRank shapes - 1 := maxRank_le fun shape hshape =>
    Nat.le_sub_one_of_lt (lt_of_le_of_ne (length_le_maxRank hshape) (hnone shape hshape))
  omega

/-- A broadcast can only fail because one of the shapes does not match what was merged before. -/
theorem raises_mismatch (shapes : List Shape) : Checked.Raises
    (fun cause => ∃ partly, ∃ shape ∈ shapes, cause = .shape (.broadcast partly shape))
    (broadcast shapes) := by
  refine Checked.Raises.foldlM (fun master shape hshape => ?_) _
  split
  · exact .of_ok rfl
  · exact .error ⟨_, shape, hshape, rfl⟩

/-- **Shapes that broadcast are operands of their master**, which has the largest rank. -/
theorem fits_of_broadcast {shapes : List Shape} {master : Shape}
    (h : broadcast shapes = .ok master) :
    master.length = maxRank shapes ∧ ∀ shape ∈ shapes, Fits master (padTo master.length shape) := by
  rw [broadcast_eq_foldlM] at h
  obtain ⟨hlen, hall, -⟩ := fits_foldlM_mergePadded (fun _ hshape => length_le_maxRank hshape)
    List.length_replicate h
  exact ⟨hlen, hlen ▸ hall⟩

/-! ## Leading ones -/

/-- Leading ones are merged apart. -/
theorem merge_replicate_append {master dims merged : Shape} (k : Nat)
    (h : merge master dims = .ok merged) :
    merge (List.replicate k 1 ++ master) (List.replicate k 1 ++ dims) =
      .ok (List.replicate k 1 ++ merged) := by
  induction k with
  | zero => exact h
  | succ k ih => simp [List.replicate_succ, merge, mergeDim, ih]

/-- Padding beyond a rank puts more ones in front. -/
theorem padTo_add {rank : Nat} (k : Nat) {shape : Shape} (h : shape.length ≤ rank) :
    padTo (k + rank) shape = List.replicate k 1 ++ padTo rank shape := by
  rw [padTo, padTo, ← List.append_assoc, List.replicate_append_replicate]
  congr 2
  omega

/-- Shapes and master keep leading ones through all merges. -/
theorem foldlM_mergePadded_replicate_append {rank k : Nat} {shapes : List Shape}
    {start master : Shape} (hrank : ∀ shape ∈ shapes, shape.length ≤ rank)
    (h : shapes.foldlM (mergePadded rank) start = .ok master) :
    (shapes.map (padTo (k + rank))).foldlM (mergePadded (k + rank))
      (List.replicate k 1 ++ start) = .ok (List.replicate k 1 ++ master) := by
  induction shapes generalizing start with
  | nil =>
    rw [List.foldlM_nil, Checked.pure_eq_ok] at h
    subst h
    rfl
  | cons shape shapes ih =>
    rw [List.foldlM_cons, Checked.bind_eq_ok] at h
    obtain ⟨merged, hmerge, h⟩ := h
    rw [mergePadded_eq_ok] at hmerge
    have hnext : mergePadded (k + rank) (List.replicate k 1 ++ start) (padTo (k + rank) shape) =
        .ok (List.replicate k 1 ++ merged) := by
      rw [mergePadded_eq_ok, padTo_padTo (Nat.le_refl _), padTo_add k (hrank shape (by simp))]
      exact merge_replicate_append k hmerge
    rw [List.map_cons, List.foldlM_cons, hnext]
    exact ih (fun s hs => hrank s (by simp [hs])) h

/-- Padded shapes have the rank to which they are padded. -/
theorem maxRank_map_padTo {rank : Nat} {shapes : List Shape} (hne : shapes ≠ [])
    (hrank : ∀ shape ∈ shapes, shape.length ≤ rank) : maxRank (shapes.map (padTo rank)) = rank := by
  have hlength : ∀ shape ∈ shapes.map (padTo rank), shape.length = rank :=
    List.forall_mem_map.2 fun shape hshape => by
      rw [length_padTo, Nat.max_eq_left (hrank shape hshape)]
  refine Nat.le_antisymm (maxRank_le fun shape hshape => (hlength shape hshape).le) ?_
  obtain ⟨shape, hshape⟩ := List.exists_mem_of_ne_nil _ hne
  have hmem := List.mem_map_of_mem (f := padTo rank) hshape
  exact (hlength _ hmem).ge.trans (length_le_maxRank hmem)

/-- **Leading ones in front of all shapes come out in front of the master.** -/
theorem broadcast_padTo (rank : Nat) {shapes : List Shape} {master : Shape} (hne : shapes ≠ [])
    (hrank : maxRank shapes ≤ rank) (h : broadcast shapes = .ok master) :
    broadcast (shapes.map (padTo rank)) = .ok (padTo rank master) := by
  obtain ⟨k, rfl⟩ : ∃ k, rank = k + maxRank shapes := ⟨rank - maxRank shapes, by omega⟩
  have hmax := maxRank_map_padTo hne fun s hs => (length_le_maxRank hs).trans hrank
  have hlen := (fits_of_broadcast h).1
  rw [broadcast_eq_foldlM] at h ⊢
  have hpad : padTo (k + maxRank shapes) master = List.replicate k 1 ++ master := by
    rw [padTo, hlen, Nat.add_sub_cancel]
  rw [hmax, hpad, List.replicate_add]
  exact foldlM_mergePadded_replicate_append (fun s hs => length_le_maxRank hs) h

/-- A merge behind leading ones is one of the shapes without them. -/
theorem exists_merge_of_replicate_append (k : Nat) {master dims merged : Shape}
    (h : merge (List.replicate k 1 ++ master) (List.replicate k 1 ++ dims) = .ok merged) :
    ∃ tail, merge master dims = .ok tail ∧ merged = List.replicate k 1 ++ tail := by
  cases hmerge : merge master dims with
  | ok tail =>
    rw [merge_replicate_append k hmerge, Except.ok.injEq] at h
    exact ⟨tail, rfl, h.symm⟩
  | error partly =>
    -- a mismatch stays one behind the ones
    have hall : ∀ k, ∃ partly', merge (List.replicate k 1 ++ master) (List.replicate k 1 ++ dims) =
        .error partly' := by
      intro k
      induction k with
      | zero => exact ⟨partly, hmerge⟩
      | succ k ih =>
        obtain ⟨partly', hpartly⟩ := ih
        exact ⟨1 :: partly', by simp [List.replicate_succ, merge, mergeDim, hpartly]⟩
    obtain ⟨partly', hpartly⟩ := hall k
    rw [hpartly] at h
    cases h

/-- **Shapes broadcast if they do behind leading ones.** -/
theorem exists_broadcast_of_padTo {rank : Nat} {shapes : List Shape} {padded : Shape}
    (hne : shapes ≠ []) (hrank : maxRank shapes ≤ rank)
    (h : broadcast (shapes.map (padTo rank)) = .ok padded) : ∃ master, broadcast shapes = .ok master := by
  obtain ⟨k, rfl⟩ : ∃ k, rank = k + maxRank shapes := ⟨rank - maxRank shapes, by omega⟩
  have hfold : ∀ (rest : List Shape) (start : Shape),
      (∀ shape ∈ rest, shape.length ≤ maxRank shapes) →
      (rest.map (padTo (k + maxRank shapes))).foldlM (mergePadded (k + maxRank shapes))
        (List.replicate k 1 ++ start) = .ok padded →
      ∃ master, rest.foldlM (mergePadded (maxRank shapes)) start = .ok master := by
    intro rest
    induction rest with
    | nil => exact fun start _ _ => ⟨start, rfl⟩
    | cons shape rest ih =>
      intro start hall h
      rw [List.forall_mem_cons] at hall
      rw [List.map_cons, List.foldlM_cons, Checked.bind_eq_ok] at h
      obtain ⟨merged, hmerge, h⟩ := h
      rw [mergePadded_eq_ok, padTo_padTo (Nat.le_refl _), padTo_add k hall.1] at hmerge
      obtain ⟨tail, htail, rfl⟩ := exists_merge_of_replicate_append k hmerge
      obtain ⟨master, hmaster⟩ := ih tail hall.2 h
      rw [List.foldlM_cons, mergePadded_eq_ok.2 htail]
      exact ⟨master, hmaster⟩
  rw [broadcast_eq_foldlM, maxRank_map_padTo hne fun s hs => (length_le_maxRank hs).trans hrank,
    List.replicate_add] at h
  exact hfold shapes _ (fun s hs => length_le_maxRank hs) h

end Pointwise.Shape
