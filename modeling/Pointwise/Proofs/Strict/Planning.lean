import Pointwise.Proofs.Domain.Plan
import Pointwise.Proofs.Strict.Basic

/-!
# Strict planning

The strict form of planning a domain. Merging dimensions is checked anyway; the trailing dimensions are then
taken out of the master one by one, each of them at a position that has to exist.

## Main definitions

* `Strict.ofMaster`, `Strict.plan` — the strict plan.

## Main results

* `Strict.plan_eq` — every plan is confirmed.
-/

set_option autoImplicit false

namespace Pointwise.Strict

/-! ## Domains -/

/-- Takes the trailing dimension with number `i`, counted from the last one, out of a domain and keeps it
among the amounts of work. -/
def takeOut (rank : Nat) (split : Shape × List Nat) (i : Nat) : Except Error (Shape × List Nat) := do
  let dim ← Checked.sub (← Checked.sub rank 1) i
  let slot ← Checked.sub (← Checked.sub maxTileRank 1) i
  let size ← Checked.get split.1 dim
  return (← Checked.set split.1 dim 1, ← Checked.set split.2 slot size)

/-- The strict form of `Domain.ofMaster`. -/
def ofMaster (inputShapes outputShapes : List Shape) (master : Shape) (tileRank elements : Nat) :
    Except Error Domain := do
  let (callShape, amounts) ←
    (List.range tileRank).foldlM (takeOut master.length) (master, List.replicate maxTileRank 1)
  let callCount ← Checked.product callShape
  let outer ← Checked.get amounts 0
  let inner ← Checked.get amounts 1
  return {
    inputShapes, outputShapes, master, callShape, tileRank, elements, callCount
    tiled := { outer, inner } }

/-- The strict form of `Optimizer.plan`. -/
def plan (limits : Optimizer) (inputShapes : List Shape) (outputs : Nat) : Except Error Domain := do
  require (inputShapes ≠ []) (.invalid .noInputShapes)
  let rank := max (Shape.maxRank inputShapes) tensorRank
  let inputs := inputShapes.map (Shape.padTo rank)
  let master ← Shape.broadcast inputs
  let elements ← Checked.product master
  let collapsed ← limits.collapse (inputs ++ List.replicate outputs master) master
  require (inputs.length ≤ collapsed.shapes.length) (.fault .outOfRange)
  ofMaster (collapsed.shapes.take inputs.length) (collapsed.shapes.drop inputs.length)
    collapsed.domain collapsed.tileRank elements

section Domain

variable {inputShapes outputShapes : List Shape} {master : Shape} {tileRank elements : Nat}

/-- The last dimension taken out of a domain. -/
theorem takeOut_last (front : Shape) (outer inner : Nat) :
    takeOut (front ++ [outer, inner]).length (front ++ [outer, inner], [1, 1]) 0 =
      .ok (front ++ [outer, 1], [1, inner]) := by
  simp [takeOut, Checked.set, maxTileRank, Checked.sub, Checked.get, Checked.within, require]

/-- The dimension before it taken out as well. -/
theorem takeOut_next (front : Shape) (outer inner : Nat) :
    takeOut (front ++ [outer, inner]).length (front ++ [outer, 1], [1, inner]) 1 =
      .ok (front ++ [1, 1], [outer, inner]) := by
  simp [takeOut, Checked.set, maxTileRank, Checked.sub, Checked.get, Checked.within, require]

/-- The last dimension or the last two can be taken out of a domain. -/
theorem ofMaster_eq (hrank : 2 ≤ master.length) (htile : tileRank = 1 ∨ tileRank = 2) :
    ofMaster inputShapes outputShapes master tileRank elements =
      Domain.ofMaster inputShapes outputShapes master tileRank elements := by
  obtain ⟨front, outer, inner, rfl⟩ := Shape.exists_eq_append_pair hrank
  have hwidth : (front ++ [outer, inner]).getLastD 1 = inner := by simp
  rcases htile with rfl | rfl
  · have hfold : (List.range 1).foldlM (takeOut (front ++ [outer, inner]).length)
        (front ++ [outer, inner], List.replicate maxTileRank 1) =
          .ok (front ++ [outer, 1], [1, inner]) := by
      rw [List.range_one, List.foldlM_cons]
      exact Checked.bind_eq_ok.2 ⟨_, takeOut_last front outer inner, rfl⟩
    have hcalls : front ++ [outer] ++ List.replicate 1 1 = front ++ [outer, 1] := by simp
    have houter : Checked.get [1, inner] 0 = .ok 1 := rfl
    have hinner : Checked.get [1, inner] 1 = .ok inner := rfl
    rw [ofMaster, hfold, Checked.ok_bind, Domain.ofMaster, Shape.take_append_pair_one, hcalls]
    simp only [houter, hinner, Checked.ok_bind, if_true, hwidth]
  · have hfold : (List.range 2).foldlM (takeOut (front ++ [outer, inner]).length)
        (front ++ [outer, inner], List.replicate maxTileRank 1) =
          .ok (front ++ [1, 1], [outer, inner]) := by
      rw [List.range_succ, List.range_one, List.singleton_append, List.foldlM_cons]
      exact Checked.bind_eq_ok.2 ⟨_, takeOut_last front outer inner,
        Checked.bind_eq_ok.2 ⟨_, takeOut_next front outer inner, rfl⟩⟩
    have hcalls : front ++ List.replicate 2 1 = front ++ [1, 1] := by simp
    have hrows : (front ++ [outer, inner]).getD ((front ++ [outer, inner]).length - 2) 1 = outer := by simp
    have houter : Checked.get [outer, inner] 0 = .ok outer := rfl
    have hinner : Checked.get [outer, inner] 1 = .ok inner := rfl
    rw [ofMaster, hfold, Checked.ok_bind, Domain.ofMaster, Shape.take_append_pair_two, hcalls]
    simp only [houter, hinner, Checked.ok_bind, hwidth, hrows, OfNat.ofNat_ne_one, if_false]

variable {limits : Optimizer} {shapes : List Shape} {outputs : Nat} {domain : Domain}

/-- **Every plan is confirmed.** -/
theorem plan_eq (h : limits.plan shapes outputs = .ok domain) : plan limits shapes outputs = .ok domain := by
  obtain ⟨hne, master, elements, collapsed, hmaster, helements, hcollapsed, hdomain⟩ :=
    Optimizer.plan_eq_ok.1 h
  obtain ⟨hlen, hfits⟩ := Optimizer.fits_of_broadcast_padTo hne hmaster
  obtain ⟨hderives, hlen', -, htile⟩ := Optimizer.forall₂_derives_of_collapse hfits hcollapsed
  have htensors : (shapes.map (Shape.padTo (Optimizer.planRank shapes))).length ≤
      collapsed.shapes.length := by
    simp only [← hderives.length_eq, Optimizer.sources, List.length_append, List.length_map]
    exact Nat.le_add_right _ _
  have hrank : 2 ≤ collapsed.domain.length := by
    rw [hlen', hlen, Optimizer.planRank, tensorRank]
    omega
  have hmaster' : Shape.broadcast (shapes.map (Shape.padTo (max (Shape.maxRank shapes) tensorRank))) =
      .ok master := hmaster
  rw [plan, require_eq_ok.2 hne, Checked.ok_bind]
  dsimp only
  rw [hmaster', Checked.ok_bind, helements, Checked.ok_bind]
  refine Checked.bind_eq_ok.2 ⟨collapsed, hcollapsed, ?_⟩
  refine Checked.bind_eq_ok.2 ⟨(), require_eq_ok.2 htensors, ?_⟩
  rw [ofMaster_eq hrank htile, List.length_map]
  exact hdomain

end Domain

end Pointwise.Strict
