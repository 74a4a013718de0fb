import Pointwise.Domain.Plan
import Pointwise.Proofs.Domain.Collapse
import Pointwise.Proofs.Shape.Extent

/-!
# Planned domains

A plan pads the input shapes, broadcasts them, merges dimensions and splits what remains between
the kernel and its calls. Every input is read at the same places as before, so that an element
selected by unravelling a position in the broadcast of the given shapes is the one selected by
unravelling it in the planned master.

## Main definitions

* `Domain.Planned` — what holds of every planned domain.

## Main results

* `Optimizer.planned_of_plan` — a plan yields a planned domain.
* `Optimizer.sameReading_of_plan` — its inputs are read like the given shapes.
* `Optimizer.plan_succeeds_of_product` — planning raises no fault if the elements can be counted.
* `Optimizer.plan_preserves_addresses` — domain collapsing is sound for addressing.
-/

set_option autoImplicit false

namespace Pointwise

/-! ## Numbers of elements -/

/-- A product that stays in range at every step is the exact one. -/
theorem Shape.eq_count_of_product {sizes : Shape} {n : Nat} (h : Checked.product sizes = .ok n) :
    n = Shape.count sizes := by
  have hfold : ∀ (sizes : Shape) (start : Nat), sizes.foldlM Checked.mul start = .ok n →
      n = start * Shape.count sizes := by
    intro sizes
    induction sizes with
    | nil =>
      intro start h
      rw [List.foldlM_nil, Checked.pure_eq_ok] at h
      simp [h]
    | cons d sizes ih =>
      intro start h
      rw [List.foldlM_cons, Checked.bind_eq_ok] at h
      obtain ⟨next, hnext, h⟩ := h
      rw [ih next h, ← (Checked.mul_eq_ok.1 hnext).1, Shape.count_cons, Nat.mul_assoc]
  simpa using hfold sizes 1 h

/-- A product that is found is in range. -/
theorem Shape.lt_of_product {sizes : Shape} {n : Nat} (h : Checked.product sizes = .ok n) :
    n < 0x10000000000000000 := by
  have hfold : ∀ (sizes : Shape) (start : Nat), start < 0x10000000000000000 →
      sizes.foldlM Checked.mul start = .ok n → n < 0x10000000000000000 := by
    intro sizes
    induction sizes with
    | nil =>
      intro start hstart h
      rw [List.foldlM_nil, Checked.pure_eq_ok] at h
      exact h ▸ hstart
    | cons d sizes ih =>
      intro start _ h
      rw [List.foldlM_cons, Checked.bind_eq_ok] at h
      obtain ⟨next, hnext, h⟩ := h
      obtain ⟨hmul, hlt⟩ := Checked.mul_eq_ok.1 hnext
      exact ih next (hmul ▸ hlt) h
  exact hfold sizes 1 (by decide) h

/-- The number of elements of a shape of positive sizes is found if it is in range. -/
theorem Shape.product_eq_ok {sizes : Shape} (hpos : 0 < Shape.count sizes)
    (hlt : Shape.count sizes < 0x10000000000000000) :
    Checked.product sizes = .ok (Shape.count sizes) :=
  Shape.product_eq_ok_of_extent (by rwa [Shape.extent_eq_count hpos])

/-- The sizes in front have a product in range if all have. -/
theorem Shape.exists_product_of_append {front back : Shape} {n : Nat}
    (h : Checked.product (front ++ back) = .ok n) : ∃ m, Checked.product front = .ok m := by
  rw [Checked.product, List.foldlM_append] at h
  obtain ⟨m, hm, -⟩ := Checked.bind_eq_ok.1 h
  exact ⟨m, hm⟩

/-- A one in front changes no product. -/
theorem Shape.product_one_cons (sizes : Shape) :
    Checked.product (1 :: sizes) = Checked.product sizes := by
  have hone : Checked.mul 1 1 = .ok 1 := by rfl
  rw [Checked.product, List.foldlM_cons, hone, Checked.ok_bind, Checked.product]

/-- Padding changes no product. -/
theorem Shape.product_padTo (rank : Nat) (sizes : Shape) :
    Checked.product (padTo rank sizes) = Checked.product sizes := by
  rw [padTo]
  induction rank - sizes.length with
  | zero => rfl
  | succ k ih => rw [List.replicate_succ, List.cons_append, product_one_cons, ih]

/-- A one at the end leaves a product in range. -/
theorem Shape.product_concat_one {sizes : Shape} {n : Nat} (h : Checked.product sizes = .ok n) :
    Checked.product (sizes ++ [1]) = .ok n := by
  have hlast : Checked.mul n 1 = .ok n := Checked.mul_eq_ok.2 ⟨Nat.mul_one n, by
    rw [Nat.mul_one]
    exact lt_of_product h⟩
  rw [Checked.product] at h ⊢
  rw [List.foldlM_append, h, Checked.ok_bind, List.foldlM_cons, hlast]
  rfl

/-- Leading dimensions hold at most all elements, and at least one if there is any. -/
theorem Shape.count_take_append_le {shape : Shape} (k ones : Nat) (hpos : 0 < Shape.count shape) :
    0 < Shape.count (shape.take k ++ List.replicate ones 1) ∧
      Shape.count (shape.take k ++ List.replicate ones 1) ≤ Shape.count shape := by
  have hones : Shape.count (List.replicate ones 1) = 1 := by
    induction ones with
    | zero => rfl
    | succ ones ih => simp [List.replicate_succ, ih]
  rw [Shape.count_append, hones, Nat.mul_one]
  rw [← List.take_append_drop k shape, Shape.count_append] at hpos
  have hdrop := Nat.pos_of_mul_pos_left hpos
  refine ⟨Nat.pos_of_mul_pos_right hpos, ?_⟩
  calc Shape.count (shape.take k)
    _ ≤ Shape.count (shape.take k) * Shape.count (shape.drop k) := Nat.le_mul_of_pos_right _ hdrop
    _ = Shape.count shape := by rw [← Shape.count_append, List.take_append_drop]

/-! ## The split of a master -/

/-- What holds of every planned domain. The kernel walks the last dimension of the master, or the
last two; the others are left to the calls. -/
structure Domain.Planned (domain : Domain) (outputs : Nat) : Prop where
  rank : tensorRank ≤ domain.master.length
  fits : ∀ shape ∈ domain.inputShapes, Shape.Fits domain.master shape
  outputShapes : domain.outputShapes = List.replicate outputs domain.master
  elements : domain.elements = domain.master.count
  /-- The dimensions that are left to the calls, and the tiled ones. -/
  split : ∃ front, domain.callShape = front ++ List.replicate domain.tileRank 1 ∧
    (domain.tileRank = 1 ∧ domain.tiled.outer = 1 ∧ domain.master = front ++ [domain.tiled.inner] ∨
      domain.tileRank = 2 ∧ domain.master = front ++ [domain.tiled.outer, domain.tiled.inner])

/-- The domain that walks the last dimension or the last two of a master. -/
theorem Domain.split_of_ofMaster {inputShapes outputShapes : List Shape} {master : Shape}
    {tileRank elements : Nat} {domain : Domain} (hrank : 2 ≤ master.length)
    (htile : tileRank = 1 ∨ tileRank = 2)
    (h : Domain.ofMaster inputShapes outputShapes master tileRank elements = .ok domain) :
    ∃ front, domain.callShape = front ++ List.replicate domain.tileRank 1 ∧
      (domain.tileRank = 1 ∧ domain.tiled.outer = 1 ∧ domain.master = front ++ [domain.tiled.inner] ∨
        domain.tileRank = 2 ∧
          domain.master = front ++ [domain.tiled.outer, domain.tiled.inner]) := by
  obtain ⟨callCount, -, h⟩ := Checked.bind_eq_ok.1 h
  rw [Checked.pure_eq_ok] at h
  subst h
  obtain ⟨front, outer, inner, rfl⟩ := Shape.exists_eq_append_pair hrank
  refine ⟨_, rfl, ?_⟩
  rcases htile with rfl | rfl
  · refine .inl ⟨rfl, rfl, ?_⟩
    rw [Shape.take_append_pair_one]
    simp
  · exact .inr ⟨rfl, by simp⟩

/-! ## Plans -/

namespace Optimizer

variable {limits : Optimizer} {shapes : List Shape} {outputs : Nat} {domain : Domain}

/-- The rank of a plan for given shapes. -/
def planRank (shapes : List Shape) : Nat := max (Shape.maxRank shapes) tensorRank

/-- A plan taken apart into its steps. -/
theorem plan_eq_ok :
    limits.plan shapes outputs = .ok domain ↔
      shapes ≠ [] ∧ ∃ master elements collapsed,
        Shape.broadcast (shapes.map (Shape.padTo (planRank shapes))) = .ok master ∧
        Checked.product master = .ok elements ∧
        limits.collapse (shapes.map (Shape.padTo (planRank shapes)) ++
          List.replicate outputs master) master = .ok collapsed ∧
        Domain.ofMaster (collapsed.shapes.take shapes.length)
          (collapsed.shapes.drop shapes.length) collapsed.domain collapsed.tileRank elements =
            .ok domain := by
  rw [plan, Checked.require_bind_eq_ok]
  simp [Checked.bind_eq_ok, planRank]

/-- How a planned tensor is related to what it was made from: an input is read like the shape that
was given for it, and an output has the shape of the master. -/
def Derives (master domain : Shape) (source : Option Shape) (shape : Shape) : Prop :=
  match source with
  | some given => Shape.SameReading master given domain shape
  | none => shape = domain

/-- What the tensors of a plan are made from. -/
def sources (shapes : List Shape) (outputs : Nat) : List (Option Shape) :=
  shapes.map some ++ List.replicate outputs none

/-- A merge of tensors that can be merged keeps what they are made from. -/
theorem forall₂_derives_collapse {given : Shape} {from_ : List (Option Shape)}
    {shapes shapes' : List Shape} {master master' : Shape}
    (h : List.Forall₂ (Derives given master) from_ shapes)
    (hmergeable : ∀ shape ∈ shapes, Shape.tailMergeable shape = .ok true)
    (hshapes : shapes.mapM Shape.collapse = .ok shapes')
    (hmaster : Shape.collapse master = .ok master') :
    List.Forall₂ (Derives given master') from_ shapes' := by
  rw [Checked.mapM_eq_ok] at hshapes
  induction h generalizing shapes' with
  | nil =>
    cases hshapes
    exact .nil
  | @cons source shape from_ shapes hsource hrest ih =>
    cases hshapes with
    | cons hshape hshapes =>
      rw [List.forall_mem_cons] at hmergeable
      refine .cons ?_ (ih hmergeable.2 hshapes)
      cases source with
      | none =>
        obtain rfl : shape = master := hsource
        rw [hmaster, Except.ok.injEq] at hshape
        exact hshape.symm
      | some given =>
        exact hsource.trans
          (Shape.sameReading_collapse hsource.fits hmergeable.1 hmaster hshape)

/-- Before all merges an input is read like itself and an output has the shape of the master. -/
theorem forall₂_derives_self {master : Shape}
    (hfits : ∀ shape ∈ shapes, Shape.Fits master shape) :
    List.Forall₂ (Derives master master) (sources shapes outputs)
      (shapes ++ List.replicate outputs master) := by
  refine List.rel_append ?_ ?_
  · rw [List.forall₂_map_left_iff, List.forall₂_same]
    exact fun shape hshape => ⟨hfits shape hshape, fun _ => rfl⟩
  · induction outputs with
    | zero => exact .nil
    | succ outputs ih => exact .cons rfl ih

/-- Padded shapes that broadcast are operands of their master. -/
theorem fits_of_broadcast_padTo {master : Shape} (hne : shapes ≠ [])
    (h : Shape.broadcast (shapes.map (Shape.padTo (planRank shapes))) = .ok master) :
    master.length = planRank shapes ∧
      ∀ shape ∈ shapes.map (Shape.padTo (planRank shapes)), Shape.Fits master shape := by
  have hle : ∀ shape ∈ shapes, shape.length ≤ planRank shapes :=
    fun shape hshape => (Shape.length_le_maxRank hshape).trans (Nat.le_max_left _ _)
  obtain ⟨hlen, hfits⟩ := Shape.fits_of_broadcast h
  rw [Shape.maxRank_map_padTo hne hle] at hlen
  refine ⟨hlen, fun shape hshape => ?_⟩
  have hfit := hfits shape hshape
  obtain ⟨given, hgiven, rfl⟩ := List.mem_map.1 hshape
  rwa [hlen, Shape.padTo_padTo (Nat.le_refl _)] at hfit

/-- **What planned tensors are made from.** All inputs are read like the padded shapes that were
given, and all outputs have the shape of the master.

**Proof sketch.** This holds before the collapse and is kept by every merge. -/
theorem forall₂_derives_of_collapse {master : Shape} {collapsed : Collapsed}
    (hfits : ∀ shape ∈ shapes, Shape.Fits master shape)
    (h : limits.collapse (shapes ++ List.replicate outputs master) master = .ok collapsed) :
    List.Forall₂ (Derives master collapsed.domain) (sources shapes outputs) collapsed.shapes ∧
      collapsed.domain.length = master.length ∧ collapsed.domain.count = master.count ∧
      (collapsed.tileRank = 1 ∨ collapsed.tileRank = 2) := by
  obtain ⟨⟨hderives, hlen, hcount⟩, htile⟩ := collapse_induction
    (P := fun tensors domain => List.Forall₂ (Derives master domain) (sources shapes outputs) tensors ∧
      domain.length = master.length ∧ domain.count = master.count)
    (fun {_ _ _ _} hP hmergeable hshapes hdomain =>
      ⟨forall₂_derives_collapse hP.1 hmergeable hshapes hdomain,
        (Shape.length_collapse hdomain).trans hP.2.1, (Shape.count_collapse hdomain).trans hP.2.2⟩)
    h ⟨forall₂_derives_self hfits, rfl, rfl⟩
  exact ⟨hderives, hlen, hcount, htile⟩

/-- The first tensors of a plan are its inputs. -/
theorem forall₂_take_of_derives {master domain : Shape} {tensors : List Shape}
    (h : List.Forall₂ (Derives master domain) (sources shapes outputs) tensors) :
    List.Forall₂ (fun given shape => Shape.SameReading master given domain shape) shapes
      (tensors.take shapes.length) := by
  have htake := List.forall₂_take shapes.length h
  rwa [sources, List.take_left' (by simp), List.forall₂_map_left_iff] at htake

/-- The other tensors of a plan are its outputs. -/
theorem drop_of_derives {master domain : Shape} {tensors : List Shape}
    (h : List.Forall₂ (Derives master domain) (sources shapes outputs) tensors) :
    tensors.drop shapes.length = List.replicate outputs domain := by
  have hdrop := List.forall₂_drop shapes.length h
  rw [sources, List.drop_left' (by simp)] at hdrop
  rw [List.eq_replicate_iff]
  refine ⟨by simpa using hdrop.length_eq.symm, fun shape hshape => ?_⟩
  obtain ⟨i, hi, rfl⟩ := List.getElem_of_mem hshape
  have hget := hdrop.get (i := i) (by rwa [hdrop.length_eq]) hi
  simpa [Derives] using hget

/-- A planned domain together with what its tensors are made from. -/
theorem forall₂_sameReading_of_plan (h : limits.plan shapes outputs = .ok domain) :
    ∃ master, Shape.broadcast (shapes.map (Shape.padTo (planRank shapes))) = .ok master ∧
      List.Forall₂ (fun given shape =>
        Shape.SameReading master (Shape.padTo (planRank shapes) given) domain.master shape) shapes
          domain.inputShapes ∧
      domain.master.length = planRank shapes ∧ domain.master.count = master.count ∧
      domain.Planned outputs := by
  obtain ⟨hne, master, elements, collapsed, hmaster, helements, hcollapsed, hdomain⟩ :=
    plan_eq_ok.1 h
  obtain ⟨hlen, hfits⟩ := fits_of_broadcast_padTo hne hmaster
  obtain ⟨hderives, hlen', hcount, htile⟩ := forall₂_derives_of_collapse hfits hcollapsed
  have hinputs := forall₂_take_of_derives hderives
  have houtputs := drop_of_derives hderives
  rw [List.length_map] at hinputs houtputs
  rw [List.forall₂_map_left_iff] at hinputs
  have hrank : tensorRank ≤ collapsed.domain.length := by
    rw [hlen', hlen]
    exact Nat.le_max_right _ _
  have hsplit := Domain.split_of_ofMaster (by simp only [tensorRank] at hrank; omega) htile hdomain
  obtain ⟨callCount, -, hdomain⟩ := Checked.bind_eq_ok.1 hdomain
  rw [Checked.pure_eq_ok] at hdomain
  subst hdomain
  refine ⟨master, hmaster, hinputs, hlen'.trans hlen, hcount, hrank, fun shape hshape => ?_,
    houtputs, ?_, hsplit⟩
  · obtain ⟨i, hi, rfl⟩ := List.getElem_of_mem hshape
    exact (hinputs.get (i := i) (by rwa [hinputs.length_eq]) hi).fits
  · exact (Shape.eq_count_of_product helements).trans hcount.symm

/-- **A plan yields a planned domain.** -/
theorem planned_of_plan (h : limits.plan shapes outputs = .ok domain) :
    domain.Planned outputs ∧ domain.inputShapes.length = shapes.length := by
  obtain ⟨_, _, hinputs, _, _, hplanned⟩ := forall₂_sameReading_of_plan h
  exact ⟨hplanned, hinputs.length_eq.symm⟩

/-- The number of elements of a planned domain is in range. -/
theorem elements_lt_of_plan (h : limits.plan shapes outputs = .ok domain) :
    domain.elements < 0x10000000000000000 := by
  obtain ⟨-, master, elements, collapsed, -, helements, -, hdomain⟩ := plan_eq_ok.1 h
  obtain ⟨callCount, -, hdomain⟩ := Checked.bind_eq_ok.1 hdomain
  rw [Checked.pure_eq_ok] at hdomain
  rw [← hdomain]
  exact Shape.lt_of_product helements

/-- **Planned inputs are read like the given shapes**, from the master of these. -/
theorem sameReading_of_plan {master : Shape} (hmaster : Shape.broadcast shapes = .ok master)
    (h : limits.plan shapes outputs = .ok domain) :
    List.Forall₂ (fun given shape => Shape.SameReading master given domain.master shape) shapes
        domain.inputShapes ∧ domain.elements = master.count := by
  obtain ⟨padded, hpadded, hinputs, -, hcount, hplanned⟩ := forall₂_sameReading_of_plan h
  have hlen := (Shape.fits_of_broadcast hmaster).1
  rw [Shape.broadcast_padTo (planRank shapes) (plan_eq_ok.1 h).1 (Nat.le_max_left _ _) hmaster,
    Except.ok.injEq] at hpadded
  subst hpadded
  refine ⟨?_, by rw [hplanned.elements, hcount, Shape.count_padTo]⟩
  have hle : ∀ given ∈ shapes, given.length ≤ master.length :=
    fun given hgiven => hlen ▸ Shape.length_le_maxRank hgiven
  rw [List.forall₂_iff_zip] at hinputs ⊢
  refine ⟨hinputs.1, fun {given shape} hmem => ?_⟩
  have hread := hinputs.2 hmem
  refine ⟨hread.fits, fun position => (hread.sourcePosition_eq position).trans ?_⟩
  rw [← Shape.sourcePosition_padTo (planRank shapes) (hle given (List.of_mem_zip hmem).1),
    Shape.sourcePosition, Shape.sourcePosition, Shape.padTo_padTo]
  rw [Shape.length_padTo, hlen]
  exact (Nat.max_eq_left (Nat.le_max_left _ _)).ge

/-! ## Success -/

/-- Without elements nothing is merged. -/
theorem collapse_of_product_eq_zero {tensors : List Shape} {master : Shape} (hrank : 2 ≤ master.length)
    (hzero : Checked.product master = .ok 0) :
    limits.collapse tensors master = .ok ⟨1, tensors, master⟩ := by
  obtain ⟨front, outer, inner, rfl⟩ := Shape.exists_eq_append_pair hrank
  obtain ⟨merges, hmerges⟩ : ∃ merges, (front ++ [outer, inner]).length - 1 = merges + 1 :=
    ⟨front.length, by simp⟩
  rw [collapse, hzero, Checked.ok_bind, if_neg (by omega), hmerges, Checked.getBack_pair_one,
    Checked.ok_bind, collapseFrom, if_neg fun hcase => Nat.not_lt_zero _ hcase.2]
  rfl

/-- With elements all merges are in range. -/
theorem exists_collapse_of_count_pos {tensors : List Shape} {master : Shape} (hrank : 2 ≤ master.length)
    (hfits : ∀ shape ∈ tensors, Shape.Fits master shape) (hpos : 0 < master.count)
    (hlt : master.count < 0x10000000000000000) :
    ∃ collapsed, limits.collapse tensors master = .ok collapsed ∧
      collapsed.domain.count = master.count := by
  obtain ⟨work, hwork⟩ : ∃ work, Checked.getBack master 1 = .ok work := by
    obtain ⟨front, outer, inner, rfl⟩ := Shape.exists_eq_append_pair hrank
    exact ⟨inner, Checked.getBack_pair_one front outer inner⟩
  obtain ⟨collapsed, hcollapsed⟩ :=
    collapseFrom_succeeds limits master.count (master.length - 1) hrank hfits hpos hlt hwork
  have hcollapse : limits.collapse tensors master = .ok collapsed := by
    rw [collapse, Shape.product_eq_ok hpos hlt, Checked.ok_bind, if_neg (by omega), hwork,
      Checked.ok_bind]
    exact hcollapsed
  exact ⟨collapsed, hcollapse, (collapse_induction (P := fun _ domain => domain.count = master.count)
    (fun hP _ _ hdomain => (Shape.count_collapse hdomain).trans hP) hcollapse rfl).1⟩

/-- **If the elements can be counted**, tensors can be merged, and the calls can be counted. -/
theorem exists_collapse_of_product {tensors : List Shape} {master : Shape} {elements : Nat}
    (hrank : 2 ≤ master.length) (hfits : ∀ shape ∈ tensors, Shape.Fits master shape)
    (hproduct : Checked.product master = .ok elements) :
    ∃ collapsed callCount, limits.collapse tensors master = .ok collapsed ∧
      Checked.product (collapsed.domain.take (collapsed.domain.length - collapsed.tileRank) ++
        List.replicate collapsed.tileRank 1) = .ok callCount := by
  have hcount := Shape.eq_count_of_product hproduct
  rcases Nat.eq_zero_or_pos elements with rfl | hpos
  · -- The sizes of the calls are multiplied on the way to the number of elements.
    rw [← List.take_append_drop (master.length - 1) master] at hproduct
    obtain ⟨callCount, hcalls⟩ := Shape.exists_product_of_append hproduct
    rw [List.take_append_drop] at hproduct
    exact ⟨_, callCount, collapse_of_product_eq_zero hrank hproduct, Shape.product_concat_one hcalls⟩
  · -- There are at most as many calls as elements.
    have hlt := Shape.lt_of_product hproduct
    rw [hcount] at hpos hlt
    obtain ⟨collapsed, hcollapse, hsame⟩ := exists_collapse_of_count_pos hrank hfits hpos hlt
    rw [← hsame] at hpos hlt
    have hcalls := Shape.count_take_append_le (collapsed.domain.length - collapsed.tileRank)
      collapsed.tileRank hpos
    exact ⟨collapsed, _, hcollapse, Shape.product_eq_ok hcalls.1 (hcalls.2.trans_lt hlt)⟩

/-- **Planning succeeds if the elements can be counted**, also if there are none.

**Proof sketch.** The padded shapes broadcast to the padded master, and the tensors of the plan are operands
of it. -/
theorem plan_succeeds_of_product {master : Shape} {elements : Nat} (hne : shapes ≠ [])
    (hmaster : Shape.broadcast shapes = .ok master) (hproduct : Checked.product master = .ok elements) :
    ∃ domain, limits.plan shapes outputs = .ok domain := by
  have hpadded := Shape.broadcast_padTo (planRank shapes) hne (Nat.le_max_left _ _) hmaster
  obtain ⟨hlen, hfits⟩ := fits_of_broadcast_padTo hne hpadded
  rw [← Shape.product_padTo (planRank shapes)] at hproduct
  generalize Shape.padTo (planRank shapes) master = padded at *
  have hrank : 2 ≤ padded.length := by
    rw [hlen, planRank, tensorRank]
    omega
  have hfits' : ∀ shape ∈ shapes.map (Shape.padTo (planRank shapes)) ++
      List.replicate outputs padded, Shape.Fits padded shape := by
    intro shape hshape
    rcases List.mem_append.1 hshape with hshape | hshape
    · exact hfits shape hshape
    · rw [List.eq_of_mem_replicate hshape]
      exact Shape.fits_self padded
  obtain ⟨collapsed, callCount, hcollapse, hcalls⟩ :=
    limits.exists_collapse_of_product hrank hfits' hproduct
  obtain ⟨domain, hdomain⟩ : ∃ domain, Domain.ofMaster
      (collapsed.shapes.take shapes.length) (collapsed.shapes.drop shapes.length)
      collapsed.domain collapsed.tileRank elements = .ok domain := by
    rw [Domain.ofMaster, hcalls, Checked.ok_bind]
    exact ⟨_, rfl⟩
  exact ⟨domain, plan_eq_ok.2 ⟨hne, padded, elements, collapsed, hpadded, hproduct, hcollapse, hdomain⟩⟩

/-- Planning shapes with elements raises no fault, if their number is in range. -/
theorem plan_succeeds {master : Shape} (hne : shapes ≠ [])
    (hmaster : Shape.broadcast shapes = .ok master) (hpos : 0 < master.count)
    (hlt : master.count < 0x10000000000000000) : ∃ domain, limits.plan shapes outputs = .ok domain :=
  plan_succeeds_of_product hne hmaster (Shape.product_eq_ok hpos hlt)

/-! ## Addressing -/

/-- **Domain collapsing is sound for addressing.** Shapes that broadcast to elements in range have a
plan. In every plan, unravelling a position in the given master (padded with ones) and broadcasting
it into a given shape selects the same flat offset as unravelling it in the planned master and
broadcasting it into the planned shape. Outputs have the shape of the planned master, so that
positions in them are unchanged.

**Proof sketch.** Padding keeps every reading, and so does each merge, because it is made only if
every tensor is broadcast along both of its last dimensions or along neither. -/
theorem plan_preserves_addresses {limits : Optimizer} {shapes : List Shape} {outputs : Nat}
    {master : Shape} (hmaster : Shape.broadcast shapes = .ok master) (hpos : 0 < master.count) :
    (shapes ≠ [] → master.count < 0x10000000000000000 →
        ∃ domain, limits.plan shapes outputs = .ok domain) ∧
      ∀ domain, limits.plan shapes outputs = .ok domain →
        domain.elements = master.count ∧ domain.inputShapes.length = shapes.length ∧
        (∀ position < domain.elements, ∀ (i : Nat) (given planned : Shape),
          shapes[i]? = some given → domain.inputShapes[i]? = some planned →
            Shape.sourcePosition (Shape.padTo domain.rank master) given position =
              Shape.sourcePosition domain.master planned position) ∧
        domain.outputShapes = List.replicate outputs domain.master ∧
        ∀ position < domain.elements,
          Shape.sourcePosition domain.master domain.master position = position := by
  refine ⟨fun hne hlt => plan_succeeds hne hmaster hpos hlt, fun domain h => ?_⟩
  obtain ⟨hinputs, helements⟩ := sameReading_of_plan hmaster h
  obtain ⟨hplanned, hlen⟩ := planned_of_plan h
  refine ⟨helements, hlen, ?_, hplanned.outputShapes, ?_⟩
  · intro position _ i given planned hgiven hshape
    obtain ⟨hi, rfl⟩ := List.getElem?_eq_some_iff.1 hgiven
    obtain ⟨hi', rfl⟩ := List.getElem?_eq_some_iff.1 hshape
    have hrank : shapes[i].length ≤ master.length :=
      (Shape.fits_of_broadcast hmaster).1 ▸ Shape.length_le_maxRank (List.getElem_mem hi)
    rw [Shape.sourcePosition_padTo _ hrank]
    exact ((hinputs.get hi hi').sourcePosition_eq position).symm
  · intro position hposition
    rw [Shape.sourcePosition_self, Nat.mod_eq_of_lt (hplanned.elements ▸ hposition)]

/-- Two dimensions of a dense input are merged, in front of them the input that is broadcast along
both stops the merging. -/
theorem plan_preserves_addresses_of_rows :
    Shape.broadcast [[2, 3, 4], [2, 1, 1]] = .ok [2, 3, 4] ∧ 0 < Shape.count [2, 3, 4] ∧
      (plan ⟨256, 1, 2⟩ [[2, 3, 4], [2, 1, 1]] 1).map (·.master) = .ok [1, 1, 1, 1, 2, 12] ∧
      ∀ position < 24, Shape.sourcePosition (Shape.padTo 6 [2, 3, 4]) [2, 1, 1] position =
        Shape.sourcePosition [1, 1, 1, 1, 2, 12] [1, 1, 1, 1, 2, 1] position := by
  have h : plan ⟨256, 1, 2⟩ [[2, 3, 4], [2, 1, 1]] 1 = .ok {
      inputShapes := [[1, 1, 1, 1, 2, 12], [1, 1, 1, 1, 2, 1]]
      outputShapes := [[1, 1, 1, 1, 2, 12]]
      master := [1, 1, 1, 1, 2, 12]
      callShape := [1, 1, 1, 1, 1, 1]
      tileRank := 2
      elements := 24
      callCount := 1
      tiled := ⟨2, 12⟩ } := by rfl
  have hmaster : Shape.broadcast [[2, 3, 4], [2, 1, 1]] = .ok [2, 3, 4] := by rfl
  refine ⟨hmaster, by decide, by rw [h]; rfl, fun position hposition => ?_⟩
  exact ((plan_preserves_addresses hmaster (by decide)).2 _ h).2.2.1 position hposition 1 _ _
    rfl rfl

end Optimizer

end Pointwise
