import Pointwise.Proofs.Domain.Plan

/-!
# What a plan keeps of a request

A kernel that serves many shapes tells them apart by their rank and by which of them have a last
dimension of one. How many dimensions are merged depends on the settings and on all shapes of a
request; still a merged dimension is one exactly if the last one was, since two dimensions are merged
only if both are one or neither is. Neither does a plan make any product of sizes larger.

## Main definitions

* `Shape.isNarrow` — a shape whose last dimension is one, or that has no dimension.

## Main results

* `Optimizer.broadcastFlags_of_plan` — the planned inputs with a last dimension of one are the narrow
  shapes of the request.
* `Optimizer.rank_of_plan` — the rank of a planned domain.
* `Optimizer.extent_le_of_plan` — the extent of a planned master is at most that of the broadcast.
* `Optimizer.plan_succeeds_of_extent` — planning shapes whose extent is in range raises no fault.
* `Optimizer.raises_plan` — the causes for which planning fails.
-/

set_option autoImplicit false

namespace Pointwise

namespace Shape

/-! ## Narrow shapes -/

/-- Whether the last dimension of a shape is one, or there is none. -/
def isNarrow (shape : Shape) : Bool := shape.getLastD 1 = 1

@[simp] theorem isNarrow_concat (front : Shape) (d : Nat) :
    isNarrow (front ++ [d]) = decide (d = 1) := by
  simp [isNarrow]

/-- A shape of two dimensions or more, judged by its last one. -/
@[simp] theorem isNarrow_append_pair (front : Shape) (outer inner : Nat) :
    isNarrow (front ++ [outer, inner]) = decide (inner = 1) := by
  have hassoc : front ++ [outer, inner] = (front ++ [outer]) ++ [inner] := by simp
  rw [hassoc, isNarrow_concat]

/-- Leading ones change nothing, also if there is no other dimension. -/
@[simp] theorem isNarrow_padTo (rank : Nat) (shape : Shape) :
    isNarrow (padTo rank shape) = isNarrow shape := by
  rcases List.eq_nil_or_concat shape with rfl | ⟨front, d, rfl⟩
  · rw [padTo, List.append_nil]
    cases rank - ([] : Shape).length with
    | zero => rfl
    | succ k =>
      rw [List.replicate_succ', isNarrow_concat]
      rfl
  · rw [List.concat_eq_append, padTo, ← List.append_assoc, isNarrow_concat, isNarrow_concat]

/-- **A merge keeps narrow shapes narrow** and others not narrow: the product of two dimensions that are
both one or both not is one exactly if the last one was. -/
theorem isNarrow_collapse {shape collapsed : Shape} (hmergeable : tailMergeable shape = .ok true)
    (h : collapse shape = .ok collapsed) : isNarrow collapsed = isNarrow shape := by
  obtain ⟨front, outer, inner, rfl, -, rfl⟩ := collapse_eq_ok.1 h
  rw [tailMergeable_append, Except.ok.injEq, decide_eq_true_eq] at hmergeable
  have hone : inner * outer = 1 ↔ inner = 1 := by
    constructor
    · exact Nat.eq_one_of_mul_eq_one_right
    · intro hinner
      rw [hinner, Nat.one_mul]
      exact (iff_of_eq hmergeable).2 hinner
  rw [isNarrow_concat, isNarrow_append_pair]
  exact decide_eq_decide.2 hone

/-- Shapes that are narrow in the same places have the same pattern. -/
theorem map_isNarrow_eq_iff {shapes samples : List Shape}
    (hlength : shapes.length = samples.length) :
    shapes.map isNarrow = samples.map isNarrow ↔
      ∀ (i : Nat) (sample shape : Shape), samples[i]? = some sample → shapes[i]? = some shape →
        (shape.isNarrow ↔ sample.isNarrow) := by
  constructor
  · intro heq i sample shape hsample hshape
    have hget := congrArg (·[i]?) heq
    simp only [List.getElem?_map, hsample, hshape, Option.map_some, Option.some.injEq] at hget
    rw [hget]
  · intro hall
    apply List.ext_getElem
    · simpa using hlength
    · intro i hi hi'
      rw [List.length_map] at hi hi'
      rw [List.getElem_map, List.getElem_map, Bool.eq_iff_iff]
      exact hall i _ _ (List.getElem?_eq_getElem hi') (List.getElem?_eq_getElem hi)

/-- The extent of a merged shape is at most that of the shape: a dimension of zero absorbs the other. -/
theorem extent_collapse_le {shape collapsed : Shape} (h : collapse shape = .ok collapsed) :
    extent collapsed ≤ extent shape := by
  obtain ⟨front, outer, inner, rfl, -, rfl⟩ := collapse_eq_ok.1 h
  have hmul : max (inner * outer) 1 ≤ max outer 1 * max inner 1 := by
    refine Nat.max_le.2 ⟨?_, Nat.mul_pos (by omega) (by omega)⟩
    rw [Nat.mul_comm inner]
    exact Nat.mul_le_mul (Nat.le_max_left _ _) (Nat.le_max_left _ _)
  simpa using Nat.mul_le_mul_left (extent front) hmul

end Shape

namespace Optimizer

variable {limits : Optimizer} {shapes : List Shape} {outputs : Nat} {domain : Domain} {master : Shape}

/-! ## The pattern -/

/-- **What one merge keeps of a tensor, the collapse keeps of all tensors.** -/
theorem map_eq_of_collapse {β : Type} {view : Shape → β}
    (hkeep : ∀ {shape merged : Shape}, Shape.tailMergeable shape = .ok true →
      Shape.collapse shape = .ok merged → view merged = view shape)
    {tensors : List Shape} {collapsed : Collapsed}
    (h : limits.collapse tensors master = .ok collapsed) :
    collapsed.shapes.map view = tensors.map view := by
  refine (collapse_induction (P := fun shapes _ => shapes.map view = tensors.map view) ?_ h rfl).1
  intro shapes shapes' _ _ hP hmergeable hshapes _
  rw [← hP]
  rw [Checked.mapM_eq_ok] at hshapes
  clear hP
  induction hshapes with
  | nil => rfl
  | cons hshape _ ih =>
    rw [List.forall_mem_cons] at hmergeable
    rw [List.map_cons, List.map_cons, hkeep hmergeable.1 hshape, ih hmergeable.2]

/-- What one merge keeps, the planned inputs have in common with the padded shapes of the request. -/
theorem map_inputShapes_of_plan {β : Type} {view : Shape → β}
    (hkeep : ∀ {shape merged : Shape}, Shape.tailMergeable shape = .ok true →
      Shape.collapse shape = .ok merged → view merged = view shape)
    (h : limits.plan shapes outputs = .ok domain) :
    domain.inputShapes.map view = shapes.map fun shape => view (Shape.padTo (planRank shapes) shape) := by
  obtain ⟨-, padded, elements, collapsed, -, -, hcollapse, hdomain⟩ := plan_eq_ok.1 h
  have hinputs : domain.inputShapes = collapsed.shapes.take shapes.length := by
    obtain ⟨callCount, -, hdomain⟩ := Checked.bind_eq_ok.1 hdomain
    rw [Checked.pure_eq_ok] at hdomain
    rw [← hdomain]
  rw [hinputs, List.map_take, map_eq_of_collapse hkeep hcollapse, List.map_append,
    List.take_left' (by simp), List.map_map]
  rfl

/-- The last dimensions of tensors that have one. -/
theorem mapM_getBack_one {tensors : List Shape} (h : ∀ shape ∈ tensors, shape ≠ []) :
    tensors.mapM (Checked.getBack · 1) = .ok (tensors.map (·.getLastD 1)) := by
  apply Checked.mapM_eq_ok_map
  intro shape hshape
  obtain ⟨front, d, rfl⟩ := (List.eq_nil_or_concat shape).resolve_left (h shape hshape)
  simp

/-- **The planned inputs with a last dimension of one** are the narrow shapes of the request, whatever
the limits are and however many dimensions are merged.

**Proof sketch.** Padding keeps narrow shapes and so does every merge; the planned shapes have a last
dimension. -/
theorem broadcastFlags_of_plan (h : limits.plan shapes outputs = .ok domain) :
    domain.broadcastFlags = .ok (shapes.map Shape.isNarrow) := by
  have hplanned := (planned_of_plan h).1
  have hnarrow : domain.inputShapes.map Shape.isNarrow = shapes.map Shape.isNarrow := by
    rw [map_inputShapes_of_plan Shape.isNarrow_collapse h]
    apply List.map_congr_left
    intro shape _
    exact Shape.isNarrow_padTo _ shape
  have hne : ∀ shape ∈ domain.inputShapes, shape ≠ [] := by
    intro shape hshape
    have hrank := hplanned.rank
    rw [tensorRank, (hplanned.fits shape hshape).length_eq] at hrank
    exact List.ne_nil_of_length_pos (by omega)
  rw [Domain.broadcastFlags, Domain.inputDims, mapM_getBack_one hne, Checked.ok_bind, ← hnarrow]
  simp only [List.map_map, pure, Except.pure]
  rfl

/-- **The rank of a planned domain** is the one to which the shapes were padded. -/
theorem rank_of_plan (h : limits.plan shapes outputs = .ok domain) : domain.rank = planRank shapes := by
  obtain ⟨-, -, -, hrank, -⟩ := forall₂_sameReading_of_plan h
  exact hrank

/-- A plan has the rank of tensors exactly if no shape has more dimensions. -/
theorem planRank_eq_tensorRank : planRank shapes = tensorRank ↔ ∀ shape ∈ shapes, shape.length ≤ 6 := by
  rw [planRank, tensorRank]
  constructor
  · intro hrank shape hshape
    have hle := Shape.length_le_maxRank hshape
    omega
  · intro hall
    exact Nat.max_eq_right (Shape.maxRank_le hall)

/-! ## Extents -/

/-- Merges make no extent larger. -/
theorem extent_le_of_collapse {tensors : List Shape} {collapsed : Collapsed}
    (h : limits.collapse tensors master = .ok collapsed) :
    Shape.extent collapsed.domain ≤ Shape.extent master :=
  (collapse_induction (P := fun _ domain => Shape.extent domain ≤ Shape.extent master)
    (fun hP _ _ hdomain => (Shape.extent_collapse_le hdomain).trans hP) h le_rfl).1

/-- **The extent of a planned master** is at most that of the broadcast of the request. -/
theorem extent_le_of_plan (hmaster : Shape.broadcast shapes = .ok master)
    (h : limits.plan shapes outputs = .ok domain) :
    Shape.extent domain.master ≤ Shape.extent master := by
  obtain ⟨hne, padded, elements, collapsed, hpadded, -, hcollapse, hdomain⟩ := plan_eq_ok.1 h
  obtain ⟨callCount, -, hdomain⟩ := Checked.bind_eq_ok.1 hdomain
  rw [Checked.pure_eq_ok] at hdomain
  rw [Shape.broadcast_padTo (planRank shapes) hne (Nat.le_max_left _ _) hmaster,
    Except.ok.injEq] at hpadded
  rw [← hdomain, ← Shape.extent_padTo (planRank shapes) master, hpadded]
  exact extent_le_of_collapse hcollapse

/-! ## Success and failure -/

/-- Planning shapes whose extent is in range raises no fault, also if there are no elements. -/
theorem plan_succeeds_of_extent (hne : shapes ≠ []) (hmaster : Shape.broadcast shapes = .ok master)
    (hlt : Shape.extent master < 0x10000000000000000) :
    ∃ domain, limits.plan shapes outputs = .ok domain :=
  plan_succeeds_of_product hne hmaster (Shape.product_eq_ok_of_extent hlt)

/-- **Planning shapes that broadcast** fails only if there are too many elements to be counted. -/
theorem raises_plan_of_broadcast (hne : shapes ≠ []) (hmaster : Shape.broadcast shapes = .ok master) :
    Checked.Raises (fun cause => cause = .fault .overflow ∧ 2 ^ 64 ≤ Shape.extent master)
      (limits.plan shapes outputs) := by
  refine Checked.Raises.and ?_ fun hlt => plan_succeeds_of_extent hne hmaster (by omega)
  cases hproduct : Checked.product master with
  | ok elements =>
    obtain ⟨domain, hplan⟩ := plan_succeeds_of_product hne hmaster hproduct
    exact .of_ok hplan
  | error cause =>
    -- The elements are counted before anything is merged.
    have hpadded := Shape.broadcast_padTo (planRank shapes) hne (Nat.le_max_left _ _) hmaster
    refine Checked.Raises.bind (.of_ok (require_eq_ok.2 hne)) fun _ _ =>
      Checked.Raises.bind (.of_ok hpadded) fun padded hpadded' =>
        (Checked.Raises.product padded).bind fun elements helements => ?_
    obtain rfl := Except.ok.inj (hpadded.symm.trans hpadded')
    rw [Shape.product_padTo, hproduct] at helements
    cases helements

/-- **Planning fails for shapes that do not match**, and otherwise only if there are too many elements to
be counted. -/
theorem raises_plan (hne : shapes ≠ []) :
    Checked.Raises (fun cause => (∃ why, cause = .shape why) ∨ cause = .fault .overflow ∧
        ∃ master, Shape.broadcast shapes = .ok master ∧ 2 ^ 64 ≤ Shape.extent master)
      (limits.plan shapes outputs) := by
  cases hbroadcast : Shape.broadcast shapes with
  | ok master =>
    exact (raises_plan_of_broadcast hne hbroadcast).mono fun _ ⟨hcause, hlarge⟩ =>
      .inr ⟨hcause, master, rfl, hlarge⟩
  | error cause =>
    refine Checked.Raises.bind (.of_ok (require_eq_ok.2 hne)) fun _ _ =>
      ((Shape.raises_mismatch _).mono fun _ ⟨_, _, _, hcause⟩ => .inl ⟨_, hcause⟩).bind
        fun padded hpadded => ?_
    -- Padding makes no difference to whether shapes can be broadcast.
    obtain ⟨master, hmaster⟩ := Shape.exists_broadcast_of_padTo hne (Nat.le_max_left _ _) hpadded
    rw [hmaster] at hbroadcast
    cases hbroadcast

end Optimizer

end Pointwise
