import Pointwise.Proofs.Domain.Settings
import Pointwise.Proofs.Shape.Join

/-!
# Planning twice

A plan is a fixed point of planning: the planned inputs broadcast to the planned master again, and the
optimizer stops at once, for the reason for which it stopped before. The first half needs that merged
sizes still come from the inputs, although outputs took part in the merging; the second one that the next
turn depends on nothing but the tensors and the limits.

## Main results

* `Shape.attained_collapse` — a merge keeps the master the least one for the inputs.
* `Optimizer.collapse_of_plan` — where a plan stops merging, the next collapse stops at once.
* `Optimizer.broadcast_of_plan` — the planned inputs broadcast to the planned master.
* `Optimizer.plan_idempotent` — planning is idempotent.
-/

set_option autoImplicit false

namespace Pointwise

/-! ## Masters of merged shapes -/

namespace Shape

/-- Positions of a merged shape that stand in front of the merged dimension. -/
theorem getElem?_collapse {front : Shape} {outer inner axis : Nat} (h : axis < front.length) :
    (1 :: front ++ [inner * outer])[axis + 1]? = (front ++ [outer, inner])[axis]? := by
  rw [List.cons_append, List.getElem?_cons_succ, List.getElem?_append_left h,
    List.getElem?_append_left h]

/-- **A merge keeps the master the least one for the inputs.** If a merged size is not one, one of its
two factors is not; an input that has this factor has the other one as well, since it can be merged. -/
theorem attained_collapse {master master' : Shape} {shapes shapes' : List Shape}
    (h : Attained master shapes) (hfits : ∀ shape ∈ shapes, Fits master shape)
    (hmergeable : ∀ shape ∈ shapes, tailMergeable shape = .ok true)
    (hshapes : shapes.mapM collapse = .ok shapes') (hmaster : collapse master = .ok master') :
    Attained master' shapes' := by
  obtain ⟨front, outer, inner, rfl, -, rfl⟩ := collapse_eq_ok.1 hmaster
  -- an input and what it becomes
  have hinput : ∀ shape ∈ shapes, ∃ front' p q, shape = front' ++ [p, q] ∧
      front'.length = front.length ∧ (p = 1 ∨ p = outer) ∧ (q = 1 ∨ q = inner) ∧ (p = 1 ↔ q = 1) ∧
      1 :: front' ++ [q * p] ∈ shapes' := by
    intro shape hshape
    obtain ⟨front', p, q, rfl, hfront, hp, hq⟩ := (hfits shape hshape).of_append_pair
    have hboth := hmergeable _ hshape
    rw [tailMergeable_append, Except.ok.injEq, decide_eq_true_eq] at hboth
    obtain ⟨i, hi, hget⟩ := List.getElem_of_mem hshape
    have hi' : i < shapes'.length := by rwa [Checked.length_of_mapM hshapes]
    have hcollapse := Checked.getElem_of_mapM hshapes hi hi'
    rw [hget] at hcollapse
    obtain ⟨_, _, _, heq, -, hresult⟩ := collapse_eq_ok.1 hcollapse
    obtain ⟨rfl, rfl, rfl⟩ := append_pair_inj heq
    exact ⟨front', p, q, rfl, hfront.length_eq.symm, hp, hq, iff_of_eq hboth,
      hresult ▸ List.getElem_mem hi'⟩
  intro axis m hm
  cases axis with
  | zero => exact .inl (by simpa using hm.symm)
  | succ axis =>
    rcases Nat.lt_trichotomy axis front.length with hlt | rfl | hgt
    · rw [getElem?_collapse hlt] at hm
      refine (h axis m hm).imp_right fun ⟨shape, hshape, hsize⟩ => ?_
      obtain ⟨front', p, q, rfl, hlen, -, -, -, hmem⟩ := hinput shape hshape
      exact ⟨_, hmem, by rwa [getElem?_collapse (hlen ▸ hlt)]⟩
    · obtain rfl : inner * outer = m := by simpa using hm
      -- an input that has one of the factors has both
      have hfactors : outer ≠ 1 ∨ inner ≠ 1 → ∃ front', front'.length = front.length ∧
          1 :: front' ++ [inner * outer] ∈ shapes' := by
        rintro (houter | hinner)
        · obtain ⟨shape, hshape, hsize⟩ := (h front.length outer (by simp)).resolve_left houter
          obtain ⟨front', p, q, rfl, hlen, -, hq, hboth, hmem⟩ := hinput shape hshape
          obtain rfl : p = outer := by simpa [← hlen] using hsize
          rw [hq.resolve_left (mt hboth.2 houter)] at hmem
          exact ⟨front', hlen, hmem⟩
        · obtain ⟨shape, hshape, hsize⟩ := (h (front.length + 1) inner (by simp)).resolve_left hinner
          obtain ⟨front', p, q, rfl, hlen, hp, -, hboth, hmem⟩ := hinput shape hshape
          obtain rfl : q = inner := by simpa [← hlen] using hsize
          rw [hp.resolve_left (mt hboth.1 hinner)] at hmem
          exact ⟨front', hlen, hmem⟩
      by_cases hone : outer = 1 ∧ inner = 1
      · exact .inl (by rw [hone.1, hone.2])
      · obtain ⟨front', hlen, hmem⟩ := hfactors (by tauto)
        exact .inr ⟨_, hmem, by simp [← hlen]⟩
    · rw [List.getElem?_eq_none (by simp; omega)] at hm
      cases hm

end Shape

namespace Optimizer

variable {limits : Optimizer} {shapes : List Shape} {outputs : Nat} {planned : Domain} {master : Shape}

/-! ## Collapsing twice -/

/-- Without elements nothing is merged, because a call has all the work. -/
theorem courseFrom_of_no_elements (merges work : Nat) (domain : Shape) :
    limits.courseFrom 0 merges work shapes domain = .ok (.enoughWork, ⟨1, shapes, domain⟩) := by
  have hall : ¬(work < limits.minWork ∧ work < 0) := fun h => Nat.not_lt_zero _ h.2
  cases merges with
  | zero =>
    rw [courseFrom, if_neg hall]
    rfl
  | succ merges =>
    rw [courseFrom, turn, if_neg hall]
    rfl

/-- Shapes that have a plan broadcast. -/
theorem exists_broadcast_of_plan (h : limits.plan shapes outputs = .ok planned) :
    ∃ master, Shape.broadcast shapes = .ok master := by
  obtain ⟨hne, _, _, _, hpadded, -⟩ := plan_eq_ok.1 h
  exact Shape.exists_broadcast_of_padTo hne (Nat.le_max_left _ _) hpadded

/-- The number of elements that a plan counts is that of the planned master.

**Proof sketch.** With elements all products are in range. Without elements nothing was merged. -/
theorem product_master_of_plan (h : limits.plan shapes outputs = .ok planned) :
    Checked.product planned.master = .ok planned.elements := by
  obtain ⟨master, hmaster⟩ := exists_broadcast_of_plan h
  obtain ⟨reason, work, -, hproduct, -, hcourse⟩ := exists_course_of_plan hmaster h
  rcases Nat.eq_zero_or_pos planned.elements with hzero | hpos
  · rw [hzero, courseFrom_of_no_elements, Except.ok.injEq, Prod.mk.injEq, Collapsed.mk.injEq] at hcourse
    rwa [hcourse.2.2.2] at hproduct
  · have hcount := (planned_of_plan h).1.elements
    have hlt := elements_lt_of_plan h
    rw [hcount] at hpos hlt ⊢
    exact Shape.product_eq_ok hpos hlt

/-- **Where a plan stops merging, the next collapse stops at once.** -/
theorem collapse_of_plan (h : limits.plan shapes outputs = .ok planned) :
    limits.collapse (planned.inputShapes ++ planned.outputShapes) planned.master =
      .ok ⟨planned.tileRank, planned.inputShapes ++ planned.outputShapes, planned.master⟩ := by
  obtain ⟨master, hmaster⟩ := exists_broadcast_of_plan h
  obtain ⟨reason, work, -, -, hstart, hcourse⟩ := exists_course_of_plan hmaster h
  obtain ⟨merges, work', hend, hturn⟩ := turn_of_courseFrom hcourse hstart
  have hrank := (planned_of_plan h).1.rank
  rw [tensorRank] at hrank
  obtain ⟨left, hleft⟩ : ∃ left, planned.master.length - 1 = left + 1 :=
    ⟨planned.master.length - 2, by omega⟩
  rw [collapse_eq_course, course, product_master_of_plan h, Checked.ok_bind, if_neg (by omega), hend.work,
    Checked.ok_bind, hleft, courseFrom, hturn]
  rfl

/-! ## Broadcasting planned inputs -/

/-- Planned inputs have the rank of the plan. -/
theorem length_of_mem_inputShapes (h : limits.plan shapes outputs = .ok planned) {shape : Shape}
    (hshape : shape ∈ planned.inputShapes) : shape.length = planned.rank :=
  ((planned_of_plan h).1.fits shape hshape).length_eq.symm

/-- Planned inputs are padded already. -/
theorem map_padTo_inputShapes (h : limits.plan shapes outputs = .ok planned) :
    planned.inputShapes.map (Shape.padTo planned.rank) = planned.inputShapes := by
  rw [List.map_congr_left fun shape hshape => ?_, List.map_id]
  rw [Shape.padTo_of_length_le (length_of_mem_inputShapes h hshape).ge]
  rfl

/-- The largest rank of planned inputs is that of the plan. -/
theorem maxRank_inputShapes (h : limits.plan shapes outputs = .ok planned) :
    Shape.maxRank planned.inputShapes = planned.rank := by
  have hne : planned.inputShapes ≠ [] := by
    rw [← List.length_pos_iff, (planned_of_plan h).2, List.length_pos_iff]
    exact (plan_eq_ok.1 h).1
  have hle : ∀ shape ∈ planned.inputShapes, shape.length ≤ planned.rank :=
    fun shape hshape => (length_of_mem_inputShapes h hshape).le
  have hmax := Shape.maxRank_map_padTo hne hle
  rwa [map_padTo_inputShapes h] at hmax

/-- **The planned inputs broadcast to the planned master.**

**Proof sketch.** Before all merges the master is the least one for the padded inputs, and every merge
keeps it so. -/
theorem broadcast_of_plan (h : limits.plan shapes outputs = .ok planned) :
    Shape.broadcast planned.inputShapes = .ok planned.master := by
  have hattained : Shape.Attained planned.master planned.inputShapes := by
    obtain ⟨hne, padded, elements, out, hpadded, -, hcollapse, hdomain⟩ := plan_eq_ok.1 h
    obtain ⟨hinputs, hmaster⟩ : planned.inputShapes = out.shapes.take shapes.length ∧
        planned.master = out.domain := by
      obtain ⟨callCount, -, hdomain⟩ := Checked.bind_eq_ok.1 hdomain
      obtain rfl := Checked.pure_eq_ok.1 hdomain
      exact ⟨rfl, rfl⟩
    obtain ⟨hlen, hfits⟩ := fits_of_broadcast_padTo hne hpadded
    have hstart : Shape.Attained padded (shapes.map (Shape.padTo (planRank shapes))) := by
      have hleast := (Shape.broadcast_eq_ok.1 hpadded).2.2
      have hagain : shapes.map (Shape.padTo (planRank shapes) ∘ Shape.padTo (planRank shapes)) =
          shapes.map (Shape.padTo (planRank shapes)) :=
        List.map_congr_left fun shape _ => Shape.padTo_padTo le_rfl shape
      rwa [List.map_map, hlen, hagain] at hleast
    rw [hinputs, hmaster]
    refine (collapse_induction (P := fun tensors domain =>
      Shape.Attained domain (tensors.take shapes.length) ∧
        ∀ shape ∈ tensors.take shapes.length, Shape.Fits domain shape) ?_ hcollapse ?_).1.1
    · rintro tensors tensors' domain domain' ⟨hleast, hoperands⟩ hmergeable htensors hmerge
      have htake := (mapM_collapse_take_drop shapes.length htensors).1
      have hmergeable' : ∀ shape ∈ tensors.take shapes.length, Shape.tailMergeable shape = .ok true :=
        fun shape hshape => hmergeable shape (List.mem_of_mem_take hshape)
      refine ⟨Shape.attained_collapse hleast hoperands hmergeable' htake hmerge, ?_⟩
      intro shape' hshape'
      obtain ⟨i, hi, rfl⟩ := List.getElem_of_mem hshape'
      have hi' : i < (tensors.take shapes.length).length := by rwa [← Checked.length_of_mapM htake]
      have hmem := List.getElem_mem hi'
      exact (Shape.sameReading_collapse (hoperands _ hmem) (hmergeable' _ hmem) hmerge
        (Checked.getElem_of_mapM htake hi' hi)).fits
    · rw [List.take_left' (by simp)]
      exact ⟨hstart, hfits⟩
  refine Shape.broadcast_eq_ok.2 ⟨(maxRank_inputShapes h).symm, ?_, ?_⟩
  · rw [← Domain.rank, map_padTo_inputShapes h]
    exact (planned_of_plan h).1.fits
  · rw [← Domain.rank, map_padTo_inputShapes h]
    exact hattained

/-! ## Planning twice -/

/-- **Planning is idempotent.** Shapes that broadcast, and whose sizes other than zero have a product in
range, have a plan; and the inputs of any plan have this plan again.

**Proof sketch.** The planned inputs broadcast to the planned master, because its sizes still come from
the inputs, and have its rank already. The outputs have its shape. So the optimizer looks at the tensors
at which it stopped, and stops again with the same tile rank. -/
theorem plan_idempotent (limits : Optimizer) (shapes : List Shape) (outputs : Nat) :
    (∀ master, shapes ≠ [] → Shape.broadcast shapes = .ok master →
        (master.filter (· ≠ 0)).prod < 2 ^ 64 →
        ∃ planned, limits.plan shapes outputs = .ok planned) ∧
      ∀ planned, limits.plan shapes outputs = .ok planned →
        limits.plan planned.inputShapes outputs = .ok planned := by
  constructor
  · intro master hne hmaster hrange
    rw [Shape.prod_filter_ne_zero] at hrange
    exact plan_succeeds_of_extent hne hmaster hrange
  · intro planned h
    obtain ⟨hplanned, hlen⟩ := planned_of_plan h
    have hrank : planRank planned.inputShapes = planned.rank := by
      rw [planRank, maxRank_inputShapes h]
      exact Nat.max_eq_left hplanned.rank
    have hne : planned.inputShapes ≠ [] := by
      rw [← List.length_pos_iff, hlen, List.length_pos_iff]
      exact (plan_eq_ok.1 h).1
    have hself := ofMaster_append_of_plan h
    rw [← hlen] at hself
    refine plan_eq_ok.2 ⟨hne, planned.master, planned.elements,
      ⟨planned.tileRank, planned.inputShapes ++ planned.outputShapes, planned.master⟩, ?_,
      product_master_of_plan h, ?_, hself⟩
    · rw [hrank, map_padTo_inputShapes h]
      exact broadcast_of_plan h
    · rw [hrank, map_padTo_inputShapes h, ← hplanned.outputShapes]
      exact collapse_of_plan h

/-- One input is the same along a row. The last two of its three dimensions are merged, and a call walks
both that are left. -/
theorem plan_idempotent_of_rows :
    Shape.broadcast [[2, 3, 4], [2, 1, 1]] = .ok [2, 3, 4] ∧
      (([2, 3, 4] : Shape).filter (· ≠ 0)).prod < 2 ^ 64 ∧
      ∃ planned, plan ⟨256, 1, 2⟩ [[2, 3, 4], [2, 1, 1]] 1 = .ok planned ∧
        planned.master = [1, 1, 1, 1, 2, 12] ∧ planned.tileRank = 2 ∧
        planned.inputShapes = [[1, 1, 1, 1, 2, 12], [1, 1, 1, 1, 2, 1]] ∧
        plan ⟨256, 1, 2⟩ [[1, 1, 1, 1, 2, 12], [1, 1, 1, 1, 2, 1]] 1 = .ok planned := by
  have hmaster : Shape.broadcast [[2, 3, 4], [2, 1, 1]] = .ok [2, 3, 4] := by rfl
  have hrange : (([2, 3, 4] : Shape).filter (· ≠ 0)).prod < 2 ^ 64 := by decide
  obtain ⟨hexists, hagain⟩ := plan_idempotent ⟨256, 1, 2⟩ [[2, 3, 4], [2, 1, 1]] 1
  obtain ⟨planned, h⟩ := hexists _ (List.cons_ne_nil _ _) hmaster hrange
  have hfields : (plan ⟨256, 1, 2⟩ [[2, 3, 4], [2, 1, 1]] 1).map
      (fun planned => (planned.master, planned.tileRank, planned.inputShapes)) =
        .ok ([1, 1, 1, 1, 2, 12], 2, [[1, 1, 1, 1, 2, 12], [1, 1, 1, 1, 2, 1]]) := by rfl
  rw [h] at hfields
  simp only [Except.map, Except.ok.injEq, Prod.mk.injEq] at hfields
  obtain ⟨hmaster', hrank, hinputs⟩ := hfields
  exact ⟨hmaster, hrange, planned, h, hmaster', hrank, hinputs, hinputs ▸ hagain planned h⟩

end Optimizer

end Pointwise
