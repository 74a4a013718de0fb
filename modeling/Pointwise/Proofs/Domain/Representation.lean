import Pointwise.Proofs.Domain.Pattern

/-!
# The representation invariant of planned domains

Everything behind a plan relies on how its parts fit together: offset tables on tensors of one rank,
each broadcast to the master or equal to it, the box of the calls on the master without its tiled
dimensions, and all counts of elements on each other. A merge changes the tensors and the master at
the same time; whatever the limits are, and also if there is nothing to compute, they come out in
step.

## Main definitions

* `Shape.Scales` — a shape of a master's rank with as many elements as a given one.
* `Domain.Represents` — a domain that represents the computation on given shapes.

## Main results

* `Optimizer.represents_of_plan` — planned domains do.
* `Optimizer.plan_represents` — there is a plan if the sizes of the broadcast other than zero have a
  product in range, and it represents the computation.
-/

set_option autoImplicit false

namespace Pointwise

/-- A shape of the master's rank, each size of which is one or the master's, with as many elements as
a given shape. -/
structure Shape.Scales (master given shape : Shape) : Prop where
  rank : shape.length = master.length
  sizes : ∀ axis (hshape : axis < shape.length) (hmaster : axis < master.length),
    shape[axis] = 1 ∨ shape[axis] = master[axis]
  count : shape.count = given.count

/-- A domain that represents the computation of a number of outputs from tensors of given shapes, which
broadcast to a master. -/
structure Domain.Represents (domain : Domain) (shapes : List Shape) (master : Shape) (outputs : Nat) :
    Prop where
  rank : domain.rank = max 6 (Shape.maxRank shapes)
  tileRank : domain.tileRank = 1 ∨ domain.tileRank = 2
  inputShapes : List.Forall₂ (Shape.Scales domain.master) shapes domain.inputShapes
  outputShapes : domain.outputShapes = List.replicate outputs domain.master
  /-- The calls have the dimensions of the master, but for ones in place of the tiled ones. -/
  callShape : domain.callShape =
    domain.master.take (domain.rank - domain.tileRank) ++ List.replicate domain.tileRank 1
  /-- The kernel walks the dimensions that the calls do not have. -/
  tiled : domain.tileRank = 1 ∧ domain.tiled.outer = 1 ∧
      domain.master.drop (domain.rank - 1) = [domain.tiled.inner] ∨
    domain.tileRank = 2 ∧
      domain.master.drop (domain.rank - 2) = [domain.tiled.outer, domain.tiled.inner]
  elements : domain.elements = master.count
  callCount : domain.callCount = domain.callShape.count
  /-- The calls share all elements out. -/
  shares : domain.callCount * domain.tiled.outer * domain.tiled.inner = domain.elements

/-! ## Sizes and counts -/

/-- The sizes other than zero multiply to the extent. -/
theorem Shape.prod_filter_ne_zero (shape : Shape) :
    (shape.filter (· ≠ 0)).prod = Shape.extent shape := by
  induction shape with
  | nil => rfl
  | cons d dims ih =>
    rw [extent_cons, ← ih]
    rcases Nat.eq_zero_or_pos d with rfl | hpos
    · simp
    · rw [List.filter_cons_of_pos (by simpa using hpos.ne'), List.prod_cons, Nat.max_eq_left hpos]

@[simp] theorem Shape.count_replicate_one (ones : Nat) : Shape.count (List.replicate ones 1) = 1 := by
  induction ones with
  | zero => rfl
  | succ ones ih => rw [List.replicate_succ, count_cons, ih]

namespace Domain.Planned

variable {domain : Domain} {outputs : Nat} (h : domain.Planned outputs)
include h

theorem tileRank_eq : domain.tileRank = 1 ∨ domain.tileRank = 2 := by
  obtain ⟨front, -, ⟨htile, -, -⟩ | ⟨htile, -⟩⟩ := h.split
  · exact .inl htile
  · exact .inr htile

/-- The dimensions that are left to the calls are those of the master in front of the tiled ones. -/
theorem callShape_eq : domain.callShape =
    domain.master.take (domain.rank - domain.tileRank) ++ List.replicate domain.tileRank 1 := by
  obtain ⟨front, hcall, ⟨htile, -, hmaster⟩ | ⟨htile, hmaster⟩⟩ := h.split
  · rw [hcall, Domain.rank, hmaster, htile, List.take_left' (by simp)]
  · rw [hcall, Domain.rank, hmaster, htile, List.take_left' (by simp)]

/-- The last dimensions of the master are the tiled ones. -/
theorem drop_master : domain.tileRank = 1 ∧ domain.tiled.outer = 1 ∧
      domain.master.drop (domain.rank - 1) = [domain.tiled.inner] ∨
    domain.tileRank = 2 ∧
      domain.master.drop (domain.rank - 2) = [domain.tiled.outer, domain.tiled.inner] := by
  obtain ⟨front, -, ⟨htile, houter, hmaster⟩ | ⟨htile, hmaster⟩⟩ := h.split
  · refine .inl ⟨htile, houter, ?_⟩
    rw [Domain.rank, hmaster, List.drop_left' (by simp)]
  · refine .inr ⟨htile, ?_⟩
    rw [Domain.rank, hmaster, List.drop_left' (by simp)]

/-- **The calls share all elements out**: each of them walks the tiled dimensions once. -/
theorem count_callShape_mul :
    domain.callShape.count * domain.tiled.outer * domain.tiled.inner = domain.elements := by
  rw [h.elements]
  obtain ⟨front, hcall, ⟨-, houter, hmaster⟩ | ⟨-, hmaster⟩⟩ := h.split
  · rw [hcall, hmaster, houter, Shape.count_append, Shape.count_append, Shape.count_replicate_one]
    simp
  · rw [hcall, hmaster, Shape.count_append, Shape.count_append, Shape.count_replicate_one]
    simp [Nat.mul_assoc]

end Domain.Planned

namespace Optimizer

variable {limits : Optimizer} {shapes : List Shape} {outputs : Nat} {domain : Domain} {master : Shape}

/-! ## Planned domains -/

/-- Planned inputs have as many elements as the given shapes. -/
theorem map_count_of_plan (h : limits.plan shapes outputs = .ok domain) :
    domain.inputShapes.map Shape.count = shapes.map Shape.count := by
  rw [map_inputShapes_of_plan (fun _ => Shape.count_collapse) h]
  apply List.map_congr_left
  intro shape _
  exact Shape.count_padTo _ shape

/-- Planned inputs are scaled to the master. -/
theorem scales_of_plan (h : limits.plan shapes outputs = .ok domain) :
    List.Forall₂ (Shape.Scales domain.master) shapes domain.inputShapes := by
  obtain ⟨hplanned, hlength⟩ := planned_of_plan h
  rw [List.forall₂_iff_get]
  refine ⟨hlength.symm, fun i hgiven hshape => ?_⟩
  have hfits := hplanned.fits _ (List.getElem_mem hshape)
  refine ⟨hfits.length_eq.symm, fun axis => hfits.getElem, ?_⟩
  have hcount := congrArg (·[i]?) (map_count_of_plan h)
  simpa [hgiven, hshape] using hcount

/-- A plan counts its calls. -/
theorem callCount_of_plan (h : limits.plan shapes outputs = .ok domain) :
    domain.callCount = domain.callShape.count := by
  obtain ⟨-, _, _, _, -, -, -, hdomain⟩ := plan_eq_ok.1 h
  obtain ⟨callCount, hcalls, hdomain⟩ := Checked.bind_eq_ok.1 hdomain
  rw [Checked.pure_eq_ok] at hdomain
  rw [← hdomain]
  exact Shape.eq_count_of_product hcalls

/-- **A planned domain represents the computation on the given shapes.** -/
theorem represents_of_plan (hmaster : Shape.broadcast shapes = .ok master)
    (h : limits.plan shapes outputs = .ok domain) : domain.Represents shapes master outputs := by
  have hplanned := (planned_of_plan h).1
  constructor
  case rank =>
    rw [rank_of_plan h, planRank, tensorRank, Nat.max_comm]
  case tileRank => exact hplanned.tileRank_eq
  case inputShapes => exact scales_of_plan h
  case outputShapes => exact hplanned.outputShapes
  case callShape => exact hplanned.callShape_eq
  case tiled => exact hplanned.drop_master
  case elements => exact (sameReading_of_plan hmaster h).2
  case callCount => exact callCount_of_plan h
  case shares =>
    rw [callCount_of_plan h]
    exact hplanned.count_callShape_mul

/-- **Planning yields a domain that represents the computation.** For any limits, any number of outputs
and any shapes that broadcast, also of different ranks and with sizes of zero, there is a plan as long
as the sizes of the broadcast other than zero have a product in range.

**Proof sketch.** Every product that the plan forms is bounded by that of the sizes other than zero.
A merge keeps the rank and the number of elements of every tensor, inputs stay operands of the master
and outputs stay equal to it; the dimensions behind the split are the tiled ones. -/
theorem plan_represents (limits : Optimizer) (outputs : Nat) (hne : shapes ≠ [])
    (hmaster : Shape.broadcast shapes = .ok master)
    (hrange : (master.filter (· ≠ 0)).prod < 2 ^ 64) :
    ∃ domain, limits.plan shapes outputs = .ok domain ∧ domain.Represents shapes master outputs := by
  rw [Shape.prod_filter_ne_zero] at hrange
  obtain ⟨domain, hplan⟩ := plan_succeeds_of_extent hne hmaster hrange
  exact ⟨domain, hplan, represents_of_plan hmaster hplan⟩

/-- Tensors of two ranks, the larger of them without elements, and two outputs. -/
theorem plan_represents_of_empty_rows :
    Shape.broadcast [[2, 0, 3], [3]] = .ok [2, 0, 3] ∧ (Shape.count [2, 0, 3] = 0) ∧
      (([2, 0, 3] : Shape).filter (· ≠ 0)).prod < 2 ^ 64 ∧
      ∃ domain, plan ⟨256, 1, 2⟩ [[2, 0, 3], [3]] 2 = .ok domain ∧
        domain.Represents [[2, 0, 3], [3]] [2, 0, 3] 2 := by
  have hmaster : Shape.broadcast [[2, 0, 3], [3]] = .ok [2, 0, 3] := by rfl
  have hrange : (([2, 0, 3] : Shape).filter (· ≠ 0)).prod < 2 ^ 64 := by decide
  exact ⟨hmaster, rfl, hrange, plan_represents ⟨256, 1, 2⟩ 2 (List.cons_ne_nil _ _) hmaster hrange⟩

end Optimizer

end Pointwise
