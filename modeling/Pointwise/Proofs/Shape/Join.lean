import Pointwise.Proofs.Shape.Broadcast

/-!
# Masters as joins

A master is not only some shape of which all others are operands. It is the least one: a size other than
one comes from a shape that goes into the broadcast. These two facts determine the master, whatever the
order is in which the shapes are merged.

## Main definitions

* `Shape.Attained` — the sizes of a master come from given shapes.

## Main results

* `Shape.broadcast_eq_ok` — the master of a broadcast.
-/

set_option autoImplicit false

namespace Pointwise.Shape

/-- Each size of a master, unless it is one, stands at its place in one of the shapes. -/
def Attained (master : Shape) (shapes : List Shape) : Prop :=
  ∀ axis m : Nat, master[axis]? = some m → m = 1 ∨ ∃ shape ∈ shapes, shape[axis]? = some m

/-! ## Where sizes come from -/

/-- A merge takes its sizes from the master and from the merged shape. -/
theorem getElem?_of_merge {master dims merged : Shape} (h : merge master dims = .ok merged)
    {axis m : Nat} (hm : merged[axis]? = some m) : master[axis]? = some m ∨ dims[axis]? = some m := by
  induction master generalizing dims merged axis with
  | nil =>
    simp only [merge, Except.ok.injEq] at h
    exact .inl (h ▸ hm)
  | cons size master ih =>
    cases dims with
    | nil =>
      simp only [merge, Except.ok.injEq] at h
      exact .inl (h ▸ hm)
    | cons d dims =>
      simp only [merge] at h
      split at h
      · simp at h
      · rename_i k hk
        split at h
        · rename_i rest hrest
          simp only [Except.ok.injEq] at h
          subst h
          cases axis with
          | zero =>
            obtain rfl : k = m := by simpa using hm
            unfold mergeDim at hk
            split at hk
            · simp_all
            · split at hk <;> simp_all
          | succ axis => exact ih hrest hm
        · simp at h

/-- All merges take their sizes from the master at the beginning and from the shapes. -/
theorem getElem?_of_foldlM {rank : Nat} {shapes : List Shape} {start master : Shape}
    (h : shapes.foldlM (mergePadded rank) start = .ok master) {axis m : Nat}
    (hm : master[axis]? = some m) :
    start[axis]? = some m ∨ ∃ shape ∈ shapes.map (padTo rank), shape[axis]? = some m := by
  induction shapes generalizing start with
  | nil =>
    rw [List.foldlM_nil, Checked.pure_eq_ok] at h
    exact .inl (h ▸ hm)
  | cons shape shapes ih =>
    rw [List.foldlM_cons, Checked.bind_eq_ok] at h
    obtain ⟨merged, hmerge, h⟩ := h
    rcases ih h with hmerged | ⟨other, hother, hsize⟩
    · rcases getElem?_of_merge (mergePadded_eq_ok.1 hmerge) hmerged with hstart | hshape
      · exact .inl hstart
      · exact .inr ⟨_, by simp, hshape⟩
    · exact .inr ⟨other, List.mem_cons_of_mem _ hother, hsize⟩

/-! ## Operands of a common master -/

/-- Operands of one master can be merged, and the outcome is one of its operands. -/
theorem exists_merge_of_fits {master shape other : Shape} (h : Fits master shape)
    (hother : Fits master other) : ∃ merged, merge shape other = .ok merged ∧ Fits master merged := by
  induction h generalizing other with
  | nil =>
    cases hother
    exact ⟨[], rfl, .nil⟩
  | @cons m d master shape hd _ ih =>
    cases hother with
    | @cons _ e _ other he hother =>
      obtain ⟨merged, hmerge, hfits⟩ := ih hother
      have hdim : ∃ k, mergeDim d e = some k ∧ (k = 1 ∨ k = m) := by
        unfold mergeDim
        by_cases hone : d = 1
        · exact ⟨e, if_pos hone, he⟩
        · obtain rfl := hd.resolve_left hone
          exact ⟨d, by rw [if_neg hone, if_pos he], .inr rfl⟩
      obtain ⟨k, hk, hkm⟩ := hdim
      exact ⟨k :: merged, by simp [merge, hk, hmerge], .cons hkm hfits⟩

/-- Shapes that are operands of one master are merged into one of its operands. -/
theorem exists_foldlM_of_fits {master start : Shape} {shapes : List Shape} (hstart : Fits master start)
    (h : ∀ shape ∈ shapes, Fits master (padTo master.length shape)) :
    ∃ merged, shapes.foldlM (mergePadded master.length) start = .ok merged ∧ Fits master merged := by
  induction shapes generalizing start with
  | nil => exact ⟨start, rfl, hstart⟩
  | cons shape shapes ih =>
    rw [List.forall_mem_cons] at h
    obtain ⟨merged, hmerge, hfits⟩ := exists_merge_of_fits hstart h.1
    rw [List.foldlM_cons, mergePadded_eq_ok.2 hmerge]
    exact ih hfits h.2

/-- Ones are operands of every master. -/
theorem fits_replicate_one (master : Shape) : Fits master (List.replicate master.length 1) := by
  induction master with
  | nil => exact .nil
  | cons m master ih => exact .cons (.inl rfl) ih

/-- An operand of a master that has all shapes as operands itself is the master, if the sizes of the
master come from the shapes. -/
theorem Fits.eq_of_attained {master merged : Shape} {shapes : List Shape} (h : Fits master merged)
    (hshapes : ∀ shape ∈ shapes, Fits merged shape) (hattained : Attained master shapes) :
    merged = master := by
  apply List.ext_getElem h.length_eq.symm
  intro axis hmerged hmaster
  rcases hattained axis master[axis] (List.getElem?_eq_getElem hmaster) with hone | ⟨shape, hshape, hsize⟩
  · rcases h.getElem hmerged hmaster with hsame | hsame
    · rw [hsame, hone]
    · exact hsame
  · obtain ⟨hlt, hsize⟩ := List.getElem?_eq_some_iff.1 hsize
    rcases (hshapes shape hshape).getElem hlt hmerged with hone | hsame
    · rcases h.getElem hmerged hmaster with hmergedOne | hsame
      · rw [hmergedOne, ← hsize, hone]
      · exact hsame
    · rw [← hsame, hsize]

/-- **The master of a broadcast** has the largest rank, the shapes as operands, and only sizes that come
from the shapes.

**Proof sketch.** Every merge takes its sizes from what is merged. Conversely, operands of one master are
merged into an operand of it, and this one is the master if no size of the master is missing. -/
theorem broadcast_eq_ok {shapes : List Shape} {master : Shape} :
    broadcast shapes = .ok master ↔
      master.length = maxRank shapes ∧
        (∀ shape ∈ shapes.map (padTo master.length), Fits master shape) ∧
        Attained master (shapes.map (padTo master.length)) := by
  constructor
  · intro h
    obtain ⟨hlen, hfits⟩ := fits_of_broadcast h
    refine ⟨hlen, List.forall_mem_map.2 hfits, fun axis m hm => ?_⟩
    rw [broadcast_eq_foldlM, ← hlen] at h
    refine (getElem?_of_foldlM h hm).imp_left fun hstart => ?_
    exact (List.getElem_replicate _).symm.trans (List.getElem?_eq_some_iff.1 hstart).2 |>.symm
  · rintro ⟨hlen, hfits, hattained⟩
    rw [List.forall_mem_map] at hfits
    obtain ⟨merged, hmerged, hmaster⟩ := exists_foldlM_of_fits (fits_replicate_one master) hfits
    have h : broadcast shapes = .ok merged := by
      rw [broadcast_eq_foldlM, ← hlen]
      exact hmerged
    rw [h, hmaster.eq_of_attained (List.forall_mem_map.2 fun shape hshape => ?_) hattained]
    rw [hmaster.length_eq]
    exact (fits_of_broadcast h).2 shape hshape

end Pointwise.Shape
