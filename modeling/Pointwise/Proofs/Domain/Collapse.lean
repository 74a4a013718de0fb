import Pointwise.Domain.Collapse
import Pointwise.Proofs.Shape.Broadcast

/-!
# Merging the last two dimensions

If a tensor is broadcast along both of its last dimensions or along neither, merging them leaves
every element where it is: an operand is read at the same place, whether a position is taken apart
in the dimensions before the merge or behind it. All merges that the optimizer makes are of this
kind, so that the whole collapse keeps every reading.

## Main definitions

* `Shape.SameReading` — an operand of another master that is read at the same places.

## Main results

* `Shape.collapse_eq_ok` — what a merge does.
* `Shape.sameReading_collapse` — one merge keeps all readings.
* `Optimizer.collapseFrom_induction` — what every merge keeps holds of the outcome.
* `Optimizer.collapseFrom_succeeds` — merging shapes with elements raises no fault.
-/

set_option autoImplicit false

namespace Pointwise

namespace Shape

/-! ## One merge -/

/-- The last two dimensions are replaced by their product. -/
theorem mergeTail_eq_ok {shape merged : Shape} :
    mergeTail shape = .ok merged ↔
      ∃ front outer inner, shape = front ++ [outer, inner] ∧
        inner * outer < 0x10000000000000000 ∧ merged = front ++ [inner * outer] := by
  induction shape generalizing merged with
  | nil => simp [mergeTail]
  | cons d dims ih =>
    rcases dims with _ | ⟨e, _ | ⟨f, rest⟩⟩
    · simp only [mergeTail, Checked.bind_eq_ok, reduceCtorEq, false_and, exists_false, false_iff]
      rintro ⟨front, outer, inner, h, -⟩
      have := congrArg List.length h
      simp at this
    · simp only [mergeTail, Checked.bind_eq_ok, Checked.mul_eq_ok, Checked.pure_eq_ok]
      constructor
      · rintro ⟨-, ⟨rfl, hlt⟩, rfl⟩
        exact ⟨[], d, e, rfl, hlt, rfl⟩
      · rintro ⟨front, outer, inner, h, hlt, rfl⟩
        obtain rfl : front = [] := by
          have := congrArg List.length h
          simpa using this
        obtain ⟨rfl, rfl⟩ : d = outer ∧ e = inner := by simpa using h
        exact ⟨_, ⟨rfl, hlt⟩, rfl⟩
    · simp only [mergeTail, Checked.bind_eq_ok, Checked.pure_eq_ok, ih]
      constructor
      · rintro ⟨-, ⟨front, outer, inner, h, hlt, rfl⟩, rfl⟩
        exact ⟨d :: front, outer, inner, by simp [h], hlt, rfl⟩
      · rintro ⟨front, outer, inner, h, hlt, rfl⟩
        cases front with
        | nil => simp at h
        | cons c front =>
          obtain ⟨rfl, htail⟩ : d = c ∧ e :: f :: rest = front ++ [outer, inner] := by simpa using h
          exact ⟨_, ⟨front, outer, inner, htail, hlt, rfl⟩, rfl⟩

/-- A merge of the last two dimensions puts a one in front. -/
theorem collapse_eq_ok {shape collapsed : Shape} :
    collapse shape = .ok collapsed ↔
      ∃ front outer inner, shape = front ++ [outer, inner] ∧
        inner * outer < 0x10000000000000000 ∧ collapsed = 1 :: front ++ [inner * outer] := by
  simp only [collapse, Checked.bind_eq_ok, mergeTail_eq_ok, Checked.pure_eq_ok]
  constructor
  · rintro ⟨-, ⟨front, outer, inner, h, hlt, rfl⟩, rfl⟩
    exact ⟨front, outer, inner, h, hlt, rfl⟩
  · rintro ⟨front, outer, inner, h, hlt, rfl⟩
    exact ⟨_, ⟨front, outer, inner, h, hlt, rfl⟩, rfl⟩

/-- A shape of two dimensions or more, split in front of the last two. -/
theorem exists_eq_append_pair {shape : Shape} (h : 2 ≤ shape.length) :
    ∃ front outer inner, shape = front ++ [outer, inner] := by
  obtain ⟨inner, rest, hrest⟩ := List.exists_cons_of_length_pos (l := shape.reverse) (by simp; omega)
  have hlen := congrArg List.length hrest
  obtain ⟨outer, front, hfront⟩ := List.exists_cons_of_length_pos (l := rest)
    (by simp at hlen; omega)
  refine ⟨front.reverse, outer, inner, ?_⟩
  rw [← List.reverse_reverse shape, hrest, hfront]
  simp

/-- Whether the last two dimensions can be merged. -/
theorem tailMergeable_append (front : Shape) (outer inner : Nat) :
    tailMergeable (front ++ [outer, inner]) = .ok ((outer = 1) = (inner = 1)) := by
  simp only [tailMergeable, Checked.getBack_concat_two, Checked.getBack_pair_one,
    Checked.ok_bind]
  rfl

/-- All shapes can be merged exactly if each of them can. -/
theorem allTailsMergeable_eq_true {shapes : List Shape} :
    allTailsMergeable shapes = .ok true ↔ ∀ shape ∈ shapes, tailMergeable shape = .ok true := by
  induction shapes with
  | nil => simp [allTailsMergeable]
  | cons shape shapes ih =>
    rw [allTailsMergeable, Checked.bind_eq_ok, List.forall_mem_cons, ← ih]
    constructor
    · rintro ⟨mergeable, hshape, h⟩
      cases mergeable with
      | false => simp at h
      | true => exact ⟨hshape, by simpa using h⟩
    · rintro ⟨hshape, h⟩
      exact ⟨true, hshape, by simpa using h⟩

/-- Whether all shapes of two dimensions or more can be merged has an answer. -/
theorem exists_allTailsMergeable {shapes : List Shape} (h : ∀ shape ∈ shapes, 2 ≤ shape.length) :
    ∃ mergeable, allTailsMergeable shapes = .ok mergeable := by
  induction shapes with
  | nil => exact ⟨true, rfl⟩
  | cons shape shapes ih =>
    rw [List.forall_mem_cons] at h
    obtain ⟨front, outer, inner, rfl⟩ := exists_eq_append_pair h.1
    obtain ⟨mergeable, hrest⟩ := ih h.2
    rw [allTailsMergeable, tailMergeable_append, Checked.ok_bind]
    split
    · exact ⟨mergeable, hrest⟩
    · exact ⟨false, rfl⟩

/-! ## Readings -/

/-- An operand of another master that is read at the same places. -/
structure SameReading (master shape master' shape' : Shape) : Prop where
  fits : Fits master' shape'
  sourcePosition_eq : ∀ position,
    sourcePosition master' shape' position = sourcePosition master shape position

theorem SameReading.trans {master shape master' shape' master'' shape'' : Shape}
    (h : SameReading master shape master' shape')
    (h' : SameReading master' shape' master'' shape'') :
    SameReading master shape master'' shape'' :=
  ⟨h'.fits, fun position => (h'.sourcePosition_eq position).trans (h.sourcePosition_eq position)⟩

/-- The operands of a master split like the master. -/
theorem Fits.of_append {front back shape : Shape} (h : Fits (front ++ back) shape) :
    ∃ front' back', shape = front' ++ back' ∧ Fits front front' ∧ Fits back back' := by
  induction front generalizing shape with
  | nil => exact ⟨[], shape, rfl, .nil, h⟩
  | cons m front ih =>
    cases h with
    | cons hd hrest =>
      obtain ⟨front', back', rfl, hfront, hback⟩ := ih hrest
      exact ⟨_ :: front', back', rfl, .cons hd hfront, hback⟩

/-- Operands are put together like their masters. -/
theorem Fits.append {front front' back back' : Shape} (hfront : Fits front front')
    (hback : Fits back back') : Fits (front ++ back) (front' ++ back') := by
  induction hfront with
  | nil => exact hback
  | cons hd _ ih => exact .cons hd ih

/-- The operands of a master split in front of the last two dimensions like the master. -/
theorem Fits.of_append_pair {front shape : Shape} {outer inner : Nat}
    (h : Fits (front ++ [outer, inner]) shape) :
    ∃ front' p q, shape = front' ++ [p, q] ∧ Fits front front' ∧
      (p = 1 ∨ p = outer) ∧ (q = 1 ∨ q = inner) := by
  obtain ⟨front', back', rfl, hfront, hback⟩ := h.of_append
  cases hback with
  | cons hp hback =>
    cases hback with
    | cons hq hback =>
      cases hback
      exact ⟨front', _, _, rfl, hfront, hp, hq⟩

/-- An operand without its last dimension. -/
theorem Fits.front {front front' : Shape} {m d : Nat} (h : Fits (front ++ [m]) (front' ++ [d])) :
    Fits front front' := by
  obtain ⟨a, b, heq, ha, hb⟩ := h.of_append
  obtain ⟨rfl, -⟩ := List.append_inj' heq (by simpa using hb.length_eq)
  exact ha

/-- The splitting of a list in front of its last two entries is unique. -/
theorem append_pair_inj {front front' : Shape} {p q p' q' : Nat}
    (h : front ++ [p, q] = front' ++ [p', q']) : front = front' ∧ p = p' ∧ q = q' := by
  obtain ⟨hfront, hback⟩ := List.append_inj' h rfl
  simpa [hfront] using hback

/-- The dimensions in front of the last one. -/
theorem take_append_pair_one (front : Shape) (outer inner : Nat) :
    (front ++ [outer, inner]).take ((front ++ [outer, inner]).length - 1) = front ++ [outer] := by
  rw [← List.dropLast_eq_take]
  simp

/-- The dimensions in front of the last two. -/
theorem take_append_pair_two (front : Shape) (outer inner : Nat) :
    (front ++ [outer, inner]).take ((front ++ [outer, inner]).length - 2) = front := by
  simp

/-- **A merge keeps all readings.** Along both dimensions the operand stands still or moves with the
master, so that position `i * inner + j` of the master reads the same place as index `(i, j)`. -/
theorem sameReading_collapse {master shape master' shape' : Shape} (hfits : Fits master shape)
    (hmergeable : tailMergeable shape = .ok true) (hmaster : collapse master = .ok master')
    (hshape : collapse shape = .ok shape') : SameReading master shape master' shape' := by
  obtain ⟨front, outer, inner, rfl, -, rfl⟩ := collapse_eq_ok.1 hmaster
  obtain ⟨front', p, q, rfl, hfront, hp, hq⟩ := hfits.of_append_pair
  obtain ⟨_, _, _, heq, -, rfl⟩ := collapse_eq_ok.1 hshape
  obtain ⟨rfl, rfl, rfl⟩ := append_pair_inj heq
  have hboth : p = 1 ↔ q = 1 := by
    rw [tailMergeable_append, Except.ok.injEq, decide_eq_true_eq] at hmergeable
    exact iff_of_eq hmergeable
  have hone : q * p = 1 ↔ p = 1 := by
    refine ⟨Nat.eq_one_of_mul_eq_one_left, fun h => ?_⟩
    rw [h, hboth.1 h]
  constructor
  · refine .cons (.inl rfl) (hfront.append (.cons ?_ .nil))
    by_cases h1 : p = 1
    · exact .inl (hone.2 h1)
    · rw [hp.resolve_left h1, hq.resolve_left (mt hboth.2 h1)]
      exact .inr rfl
  · intro position
    have hlen := hfront.length_eq
    rw [List.cons_append, List.cons_append, sourcePosition_cons (by simp [hlen]),
      sourcePosition_concat hlen, sourcePosition_concat_pair hlen, if_pos rfl, Nat.zero_mul,
      Nat.zero_add, Nat.div_div_eq_div_mul]
    by_cases h1 : p = 1
    · have h2 := hboth.1 h1
      simp [h1, h2]
    · have h2 := mt hboth.2 h1
      rw [if_neg (mt hone.1 h1), if_neg h1, if_neg h2, hq.resolve_left h2, Nat.mod_mul]
      ring

end Shape

/-! ## All merges -/

namespace Optimizer

variable {limits : Optimizer} {full : Nat}

/-- **What every merge keeps holds of the outcome.** A merge is made only if all tensors can be
merged; the tile rank is one or two.

**Proof sketch.** Induction on the number of merges that are left. A step either stops with the
shapes as they are, or merges all of them and goes on. -/
theorem collapseFrom_induction {P : List Shape → Shape → Prop}
    (hstep : ∀ {shapes shapes' : List Shape} {domain domain' : Shape}, P shapes domain →
      (∀ shape ∈ shapes, Shape.tailMergeable shape = .ok true) →
      shapes.mapM Shape.collapse = .ok shapes' → Shape.collapse domain = .ok domain' →
      P shapes' domain')
    {merges work : Nat} {shapes : List Shape} {domain : Shape} {out : Collapsed}
    (h : collapseFrom limits full merges work shapes domain = .ok out) (hP : P shapes domain) :
    P out.shapes out.domain ∧ (out.tileRank = 1 ∨ out.tileRank = 2) := by
  induction merges generalizing work shapes domain with
  | zero =>
    rw [collapseFrom, Checked.pure_eq_ok] at h
    subst h
    exact ⟨hP, .inl rfl⟩
  | succ merges ih =>
    rw [collapseFrom] at h
    split at h
    · obtain ⟨mergeable, hmergeable, h⟩ := Checked.bind_eq_ok.1 h
      obtain ⟨second, -, h⟩ := Checked.bind_eq_ok.1 h
      obtain ⟨next, -, h⟩ := Checked.bind_eq_ok.1 h
      obtain ⟨remaining, -, h⟩ := Checked.bind_eq_ok.1 h
      split at h
      · rw [Checked.pure_eq_ok] at h
        subst h
        exact ⟨hP, .inl rfl⟩
      · split at h
        · rename_i hmerge
          obtain ⟨shapes', hshapes, h⟩ := Checked.bind_eq_ok.1 h
          obtain ⟨domain', hdomain, h⟩ := Checked.bind_eq_ok.1 h
          rw [hmerge, Shape.allTailsMergeable_eq_true] at hmergeable
          exact ih h (hstep hP hmergeable hshapes hdomain)
        · rw [Checked.pure_eq_ok] at h
          subst h
          refine ⟨hP, ?_⟩
          dsimp only
          split
          · exact .inr rfl
          · exact .inl rfl
    · rw [Checked.pure_eq_ok] at h
      subst h
      exact ⟨hP, .inl rfl⟩

/-- What every merge keeps holds of the outcome of the collapse. -/
theorem collapse_induction {P : List Shape → Shape → Prop}
    (hstep : ∀ {shapes shapes' : List Shape} {domain domain' : Shape}, P shapes domain →
      (∀ shape ∈ shapes, Shape.tailMergeable shape = .ok true) →
      shapes.mapM Shape.collapse = .ok shapes' → Shape.collapse domain = .ok domain' →
      P shapes' domain')
    {shapes : List Shape} {domain : Shape} {out : Collapsed}
    (h : limits.collapse shapes domain = .ok out) (hP : P shapes domain) :
    P out.shapes out.domain ∧ (out.tileRank = 1 ∨ out.tileRank = 2) := by
  obtain ⟨full, -, h⟩ := Checked.bind_eq_ok.1 h
  split at h
  · rw [Checked.pure_eq_ok] at h
    subst h
    exact ⟨hP, .inl rfl⟩
  · obtain ⟨work, -, h⟩ := Checked.bind_eq_ok.1 h
    exact collapseFrom_induction hstep h hP

/-- A merge of operands of a master with elements raises no fault. -/
theorem exists_collapse {master shape : Shape} (hfits : Shape.Fits master shape)
    (hrank : 2 ≤ master.length) (hpos : 0 < master.count)
    (hlt : master.count < 0x10000000000000000) : ∃ shape', Shape.collapse shape = .ok shape' := by
  obtain ⟨front, outer, inner, rfl⟩ := Shape.exists_eq_append_pair hrank
  obtain ⟨front', p, q, rfl, -, hp, hq⟩ := hfits.of_append_pair
  simp only [Shape.count_append, Shape.count_cons, Shape.count_nil, Nat.mul_one] at hpos hlt
  have hprod : 0 < outer * inner := Nat.pos_of_mul_pos_left hpos
  have hp' : p ≤ outer := by
    have := Nat.pos_of_mul_pos_right hprod
    omega
  have hq' : q ≤ inner := by
    have := Nat.pos_of_mul_pos_left hprod
    omega
  have hle : q * p ≤ Shape.count front * (outer * inner) := by
    calc q * p
      _ ≤ inner * outer := Nat.mul_le_mul hq' hp'
      _ = outer * inner := Nat.mul_comm _ _
      _ ≤ Shape.count front * (outer * inner) :=
        Nat.le_mul_of_pos_left _ (Nat.pos_of_mul_pos_right hpos)
  exact ⟨_, Shape.collapse_eq_ok.2 ⟨front', p, q, rfl, by omega, rfl⟩⟩

/-- **Merging shapes with elements raises no fault.**

**Proof sketch.** Induction on the number of merges that are left, with the work of a call being
the master's last dimension: all products are at most the number of elements, and no divisor is
zero. -/
theorem collapseFrom_succeeds (limits : Optimizer) (full merges : Nat) {work : Nat}
    {shapes : List Shape} {domain : Shape}
    (hrank : 2 ≤ domain.length) (hfits : ∀ shape ∈ shapes, Shape.Fits domain shape)
    (hpos : 0 < domain.count) (hlt : domain.count < 0x10000000000000000)
    (hwork : Checked.getBack domain 1 = .ok work) :
    ∃ out, collapseFrom limits full merges work shapes domain = .ok out := by
  induction merges generalizing work shapes domain with
  | zero => exact ⟨_, rfl⟩
  | succ merges ih =>
    obtain ⟨front, outer, inner, rfl⟩ := Shape.exists_eq_append_pair hrank
    obtain rfl : inner = work := by simpa using hwork
    have hranks : ∀ shape ∈ shapes, 2 ≤ shape.length :=
      fun shape hshape => (hfits shape hshape).length_eq ▸ hrank
    obtain ⟨mergeable, hmergeable⟩ := Shape.exists_allTailsMergeable hranks
    obtain ⟨domain', hdomain⟩ := exists_collapse (Shape.fits_self _) hrank hpos hlt
    obtain ⟨_, _, _, heq, hnext, rfl⟩ := Shape.collapse_eq_ok.1 hdomain
    obtain ⟨rfl, rfl, rfl⟩ := Shape.append_pair_inj heq
    have hne : inner * outer ≠ 0 := by
      simp only [Shape.count_append, Shape.count_cons, Shape.count_nil, Nat.mul_one] at hpos
      rw [Nat.mul_comm]
      exact (Nat.pos_of_mul_pos_left hpos).ne'
    rw [collapseFrom]
    split
    · rw [hmergeable, Checked.ok_bind, Checked.getBack_concat_two, Checked.ok_bind,
        Checked.mul_eq_ok.2 ⟨rfl, hnext⟩, Checked.ok_bind, Checked.div_eq_ok.2 ⟨hne, rfl⟩,
        Checked.ok_bind]
      split
      · exact ⟨_, rfl⟩
      · split
        · rename_i hmerge
          rw [hmerge, Shape.allTailsMergeable_eq_true] at hmergeable
          have hall : ∀ shape ∈ shapes, ∃ shape', Shape.collapse shape = .ok shape' :=
            fun shape hshape => exists_collapse (hfits shape hshape) hrank hpos hlt
          choose! collapsed hcollapsed using hall
          rw [Checked.mapM_eq_ok_map hcollapsed, Checked.ok_bind, hdomain, Checked.ok_bind]
          refine ih (by simp) ?_ ?_ ?_ (Checked.getBack_concat_one (1 :: front) (inner * outer))
          · intro shape' hshape'
            obtain ⟨shape, hshape, rfl⟩ := List.mem_map.1 hshape'
            exact (Shape.sameReading_collapse (hfits shape hshape) (hmergeable shape hshape)
              hdomain (hcollapsed shape hshape)).fits
          · rwa [Shape.count_collapse hdomain]
          · rwa [Shape.count_collapse hdomain]
        · exact ⟨_, rfl⟩
    · exact ⟨_, rfl⟩

end Optimizer

end Pointwise
