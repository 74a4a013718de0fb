import Mathlib.Data.List.GetD
import Pointwise.Proofs.Shape.Join

/-!
# Broadcasting by axes

Shapes are aligned on their last dimensions: axes are counted from the last dimension on, and a shape has
size one along the axes that it does not have. Shapes broadcast if their sizes other than one are the same
along every axis, and these are the sizes of the master. So a broadcast depends on the sizes along the axes
only: neither the order of the shapes matters, nor how often a shape occurs, nor how many ones are written in
front of it.

## Main definitions

* `Shape.sizeAt` — the size along an axis.
* `Shape.Agree` — shapes whose sizes other than one are the same along every axis.
* `Shape.IsMaster` — the common sizes of shapes.

## Main results

* `Shape.broadcast_eq_ok_iff` — a broadcast yields the common sizes.
* `Shape.exists_isMaster_iff` — there are common sizes if the shapes agree.
* `Shape.isMaster_congr` — common sizes depend on the sizes along the axes only.
* `Shape.broadcast_by_axes` — when a broadcast succeeds, and with what.
-/

set_option autoImplicit false

namespace Pointwise.Shape

/-! ## Axes -/

/-- The size along an axis, counted from the last dimension; one if a shape does not have the axis. -/
def sizeAt (shape : Shape) (axis : Nat) : Nat := shape.reverse.getD axis 1

section Axes

variable {shape master : Shape} {shapes : List Shape}

/-- Ones in front of a shape are the sizes that it has there anyway. -/
@[simp] theorem sizeAt_padTo (rank : Nat) (shape : Shape) (axis : Nat) :
    (padTo rank shape).sizeAt axis = shape.sizeAt axis := by
  rw [sizeAt, sizeAt, padTo, List.reverse_append, List.reverse_replicate]
  rcases Nat.lt_or_ge axis shape.reverse.length with hlt | hge
  · exact List.getD_append _ _ _ _ hlt
  · rw [List.getD_append_right _ _ _ _ hge, List.getD_eq_default _ _ hge,
      List.getD_eq_getElem?_getD, List.getElem?_replicate]
    split <;> rfl

/-- A shape has size one along the axes that it does not have. -/
theorem sizeAt_of_length_le {axis : Nat} (h : shape.length ≤ axis) : shape.sizeAt axis = 1 :=
  List.getD_eq_default _ _ (by rwa [List.length_reverse])

/-- The dimension of an axis. -/
theorem getElem?_eq_sizeAt {axis : Nat} (h : axis < shape.length) :
    shape[shape.length - 1 - axis]? = some (shape.sizeAt axis) := by
  rw [sizeAt, List.getD_eq_getElem?_getD, List.getElem?_reverse h,
    List.getElem?_eq_getElem (by omega), Option.getD_some]

/-- The axis of a dimension. -/
theorem getElem?_eq_sizeAt_sub {position : Nat} (h : position < shape.length) :
    shape[position]? = some (shape.sizeAt (shape.length - 1 - position)) := by
  have hsize := @getElem?_eq_sizeAt shape (shape.length - 1 - position) (by omega)
  rwa [Nat.sub_sub_self (by omega)] at hsize

/-- **Operands by axes.** Along each axis an operand has size one or that of the master. -/
theorem fits_iff_sizeAt (hlen : master.length = shape.length) :
    Fits master shape ↔ ∀ axis, shape.sizeAt axis = 1 ∨ shape.sizeAt axis = master.sizeAt axis := by
  rw [Fits, List.forall₂_iff_get]
  constructor
  · rintro ⟨-, h⟩ axis
    rcases Nat.lt_or_ge axis shape.length with hlt | hge
    · have hdim := h (shape.length - 1 - axis) (by omega) (by omega)
      have hmaster := getElem?_eq_sizeAt (hlen ▸ hlt : axis < master.length)
      rw [hlen, List.getElem?_eq_getElem (by omega), Option.some.injEq] at hmaster
      have hshape := getElem?_eq_sizeAt hlt
      rw [List.getElem?_eq_getElem (by omega), Option.some.injEq] at hshape
      rwa [List.get_eq_getElem, List.get_eq_getElem, hshape, hmaster] at hdim
    · exact .inl (sizeAt_of_length_le hge)
  · intro h
    refine ⟨hlen, fun position hposition hposition' => ?_⟩
    have hmaster := getElem?_eq_sizeAt_sub hposition
    rw [List.getElem?_eq_getElem hposition, Option.some.injEq] at hmaster
    have hshape := getElem?_eq_sizeAt_sub hposition'
    rw [List.getElem?_eq_getElem hposition', Option.some.injEq] at hshape
    rw [List.get_eq_getElem, List.get_eq_getElem, hmaster, hshape, hlen]
    exact h _

/-- **Sizes of a master by axes.** A size other than one is that of a shape along the same axis. -/
theorem attained_iff_sizeAt (hlen : ∀ shape ∈ shapes, shape.length = master.length) :
    Attained master shapes ↔
      ∀ axis, master.sizeAt axis = 1 ∨ ∃ shape ∈ shapes, shape.sizeAt axis = master.sizeAt axis := by
  constructor
  · intro h axis
    rcases Nat.lt_or_ge axis master.length with hlt | hge
    · refine (h _ _ (getElem?_eq_sizeAt hlt)).imp_right fun ⟨shape, hshape, hsize⟩ => ⟨shape, hshape, ?_⟩
      rw [← hlen shape hshape] at hlt hsize
      rw [getElem?_eq_sizeAt hlt] at hsize
      exact Option.some.inj hsize
    · exact .inl (sizeAt_of_length_le hge)
  · intro h position m hm
    obtain ⟨hlt, -⟩ := List.getElem?_eq_some_iff.1 hm
    rw [getElem?_eq_sizeAt_sub hlt, Option.some.injEq] at hm
    subst hm
    refine (h _).imp_right fun ⟨shape, hshape, hsize⟩ => ⟨shape, hshape, ?_⟩
    rw [← hlen shape hshape] at hlt hsize ⊢
    rw [getElem?_eq_sizeAt_sub hlt, hsize]

end Axes

/-! ## Common sizes -/

/-- Shapes whose sizes other than one are the same along every axis. -/
def Agree (shapes : List Shape) : Prop :=
  ∀ axis, ∀ shape ∈ shapes, ∀ other ∈ shapes, shape.sizeAt axis ≠ 1 → other.sizeAt axis ≠ 1 →
    shape.sizeAt axis = other.sizeAt axis

/-- The common sizes of shapes: along every axis the size that is not one, if there is such a size. -/
structure IsMaster (shapes : List Shape) (master : Shape) : Prop where
  rank_le : ∀ shape ∈ shapes, shape.length ≤ master.length
  rank_attained : master = [] ∨ ∃ shape ∈ shapes, shape.length = master.length
  common : ∀ axis, ∀ shape ∈ shapes, shape.sizeAt axis ≠ 1 → master.sizeAt axis = shape.sizeAt axis
  one : ∀ axis, (∀ shape ∈ shapes, shape.sizeAt axis = 1) → master.sizeAt axis = 1

section Masters

variable {shapes others : List Shape} {master : Shape}

/-- The rank of common sizes is the largest one. -/
theorem length_eq_maxRank_iff : master.length = maxRank shapes ↔
    (∀ shape ∈ shapes, shape.length ≤ master.length) ∧
      (master = [] ∨ ∃ shape ∈ shapes, shape.length = master.length) := by
  constructor
  · intro h
    rw [h]
    refine ⟨fun shape hshape => length_le_maxRank hshape, ?_⟩
    rcases Nat.eq_zero_or_pos (maxRank shapes) with hzero | hpos
    · exact .inl (List.length_eq_zero_iff.1 (h.trans hzero))
    · exact .inr (exists_length_eq_maxRank hpos)
  · rintro ⟨hle, rfl | ⟨shape, hshape, hlength⟩⟩
    · exact (Nat.le_zero.1 (maxRank_le hle)).symm
    · exact Nat.le_antisymm (hlength ▸ length_le_maxRank hshape) (maxRank_le hle)

/-- Common sizes, by rank and sizes. -/
theorem isMaster_iff : IsMaster shapes master ↔ master.length = maxRank shapes ∧
    (∀ axis, ∀ shape ∈ shapes, shape.sizeAt axis ≠ 1 → master.sizeAt axis = shape.sizeAt axis) ∧
    ∀ axis, (∀ shape ∈ shapes, shape.sizeAt axis = 1) → master.sizeAt axis = 1 := by
  rw [length_eq_maxRank_iff]
  exact ⟨fun h => ⟨⟨h.rank_le, h.rank_attained⟩, h.common, h.one⟩,
    fun ⟨⟨hle, hattained⟩, hcommon, hone⟩ => ⟨hle, hattained, hcommon, hone⟩⟩

/-- **A broadcast yields the common sizes.** -/
theorem broadcast_eq_ok_iff : broadcast shapes = .ok master ↔ IsMaster shapes master := by
  rw [broadcast_eq_ok, isMaster_iff]
  refine and_congr_right fun hlen => ?_
  have hpadded : ∀ shape ∈ shapes.map (padTo master.length), shape.length = master.length :=
    List.forall_mem_map.2 fun shape hshape => by
      rw [length_padTo, Nat.max_eq_left (hlen ▸ length_le_maxRank hshape)]
  have hfits : (∀ shape ∈ shapes.map (padTo master.length), Fits master shape) ↔
      ∀ axis, ∀ shape ∈ shapes, shape.sizeAt axis ≠ 1 → master.sizeAt axis = shape.sizeAt axis := by
    rw [List.forall_mem_map]
    refine ⟨fun h axis shape hshape hne => ?_, fun h shape hshape => ?_⟩
    · have hsize := (fits_iff_sizeAt (hpadded _ (List.mem_map_of_mem hshape)).symm).1 (h shape hshape) axis
      rw [sizeAt_padTo] at hsize
      exact (hsize.resolve_left hne).symm
    · refine (fits_iff_sizeAt (hpadded _ (List.mem_map_of_mem hshape)).symm).2 fun axis => ?_
      rw [sizeAt_padTo]
      exact or_iff_not_imp_left.2 fun hne => (h axis shape hshape hne).symm
  rw [hfits, attained_iff_sizeAt hpadded]
  refine and_congr_right fun hcommon => forall_congr' fun axis => ⟨fun h hone => ?_, fun h => ?_⟩
  · rcases h with hsize | ⟨padded, hmem, hsize⟩
    · exact hsize
    · obtain ⟨shape, hshape, rfl⟩ := List.mem_map.1 hmem
      rw [← hsize, sizeAt_padTo, hone shape hshape]
  · by_cases hone : ∀ shape ∈ shapes, shape.sizeAt axis = 1
    · exact .inl (h hone)
    · push Not at hone
      obtain ⟨shape, hshape, hne⟩ := hone
      refine .inr ⟨_, List.mem_map_of_mem hshape, ?_⟩
      rw [sizeAt_padTo, hcommon axis shape hshape hne]

/-- The size other than one along an axis, if there is one. -/
def commonSize (shapes : List Shape) (axis : Nat) : Nat :=
  ((shapes.map fun shape => shape.sizeAt axis).find? (· ≠ 1)).getD 1

theorem commonSize_eq_one {axis : Nat} (h : ∀ shape ∈ shapes, shape.sizeAt axis = 1) :
    commonSize shapes axis = 1 := by
  rw [commonSize, List.find?_eq_none.2, Option.getD_none]
  exact List.forall_mem_map.2 fun shape hshape => by simp [h shape hshape]

theorem Agree.commonSize_eq (h : Agree shapes) {axis : Nat} {shape : Shape} (hshape : shape ∈ shapes)
    (hne : shape.sizeAt axis ≠ 1) : commonSize shapes axis = shape.sizeAt axis := by
  cases hfind : (shapes.map fun shape => shape.sizeAt axis).find? (· ≠ 1) with
  | none =>
    have hall := List.find?_eq_none.1 hfind _ (List.mem_map_of_mem hshape)
    simp [hne] at hall
  | some size =>
    obtain ⟨other, hother, rfl⟩ := List.mem_map.1 (List.mem_of_find?_eq_some hfind)
    have hsize : other.sizeAt axis ≠ 1 := by simpa using List.find?_some hfind
    rw [commonSize, hfind, Option.getD_some]
    exact h axis other hother shape hshape hsize hne

/-- **There are common sizes if the shapes agree**, and only then. -/
theorem exists_isMaster_iff : (∃ master, IsMaster shapes master) ↔ Agree shapes := by
  constructor
  · rintro ⟨master, h⟩ axis shape hshape other hother hne hne'
    rw [← h.common axis shape hshape hne, h.common axis other hother hne']
  · intro h
    have hsize : ∀ axis, sizeAt ((List.range (maxRank shapes)).map (commonSize shapes)).reverse axis =
        commonSize shapes axis := by
      intro axis
      rw [sizeAt, List.reverse_reverse]
      rcases Nat.lt_or_ge axis (maxRank shapes) with hlt | hge
      · rw [List.getD_eq_getElem _ _ (by simpa using hlt), List.getElem_map, List.getElem_range]
      · rw [List.getD_eq_default _ _ (by simpa using hge), commonSize_eq_one]
        exact fun shape hshape => sizeAt_of_length_le ((length_le_maxRank hshape).trans hge)
    refine ⟨((List.range (maxRank shapes)).map (commonSize shapes)).reverse, isMaster_iff.2
      ⟨by simp, fun axis shape hshape hne => ?_, fun axis hone => ?_⟩⟩
    · rw [hsize, h.commonSize_eq hshape hne]
    · rw [hsize, commonSize_eq_one hone]

/-- **Common sizes depend on the sizes along the axes only**, besides the largest rank. -/
theorem isMaster_congr (hrank : maxRank shapes = maxRank others)
    (h : ∀ shape ∈ shapes, ∃ other ∈ others, other.sizeAt = shape.sizeAt)
    (h' : ∀ other ∈ others, ∃ shape ∈ shapes, shape.sizeAt = other.sizeAt) :
    IsMaster shapes master ↔ IsMaster others master := by
  have hall : ∀ P : (Nat → Nat) → Prop,
      (∀ shape ∈ shapes, P shape.sizeAt) ↔ ∀ other ∈ others, P other.sizeAt := by
    refine fun P => ⟨fun hP other hother => ?_, fun hP shape hshape => ?_⟩
    · obtain ⟨shape, hshape, hsizes⟩ := h' other hother
      exact hsizes ▸ hP shape hshape
    · obtain ⟨other, hother, hsizes⟩ := h shape hshape
      exact hsizes ▸ hP other hother
  rw [isMaster_iff, isMaster_iff, hrank]
  refine and_congr_right fun _ => and_congr (forall_congr' fun axis => ?_) (forall_congr' fun axis => ?_)
  · exact hall fun size => size axis ≠ 1 → master.sizeAt axis = size axis
  · rw [hall fun size => size axis = 1]

end Masters

/-! ## Broadcasts -/

/-- **A broadcast, by axes.** It succeeds if the sizes other than one are the same along every axis, and
yields these sizes; otherwise one of the shapes does not match. Shapes that are repeated, put into another
order and padded up to the largest rank are broadcast to the same master, or cannot be broadcast either.

**Proof sketch.** The master is the least shape that has all others as operands, which says of each axis what
its size is. Repetitions, order and ones in front neither add sizes along an axis nor take any away. -/
theorem broadcast_by_axes (shapes : List Shape) :
    (∀ master, broadcast shapes = .ok master ↔ IsMaster shapes master) ∧
      ((∃ master, broadcast shapes = .ok master) ↔ Agree shapes) ∧
      (¬ Agree shapes → ∃ partly, ∃ shape ∈ shapes,
        broadcast shapes = .error (.shape (.broadcast partly shape))) ∧
      ∀ repeated ⊆ shapes, ∀ ordered, ordered.Perm (shapes ++ repeated) → ∀ padded,
        List.Forall₂ (fun shape other => ∃ rank ≤ maxRank shapes, other = padTo rank shape)
          ordered padded →
        (broadcast padded).toOption = (broadcast shapes).toOption := by
  have hexists : (∃ master, broadcast shapes = .ok master) ↔ Agree shapes := by
    simp only [broadcast_eq_ok_iff]
    exact exists_isMaster_iff
  refine ⟨fun master => broadcast_eq_ok_iff, hexists, fun hdisagree => ?_,
    fun repeated hrepeated ordered hperm padded hpadded => ?_⟩
  · cases hbroadcast : broadcast shapes with
    | ok master => exact absurd (hexists.1 ⟨master, hbroadcast⟩) hdisagree
    | error cause =>
      obtain ⟨partly, shape, hshape, rfl⟩ := raises_mismatch shapes cause hbroadcast
      exact ⟨partly, shape, hshape, rfl⟩
  · -- each padded shape comes from one of the shapes, and each of these is there
    have hfrom : ∀ other ∈ padded, ∃ shape ∈ shapes, ∃ rank ≤ maxRank shapes, other = padTo rank shape := by
      intro other hother
      obtain ⟨shape, hshape, hpad⟩ := forall₂_mem_right hpadded hother
      rcases List.mem_append.1 (hperm.mem_iff.1 hshape) with hmem | hmem
      · exact ⟨shape, hmem, hpad⟩
      · exact ⟨shape, hrepeated hmem, hpad⟩
    have hthere : ∀ shape ∈ shapes, ∃ other ∈ padded, ∃ rank ≤ maxRank shapes, other = padTo rank shape :=
      fun shape hshape => forall₂_mem_right hpadded.flip
        (hperm.mem_iff.2 (List.mem_append_left _ hshape))
    have hrank : maxRank padded = maxRank shapes := by
      apply Nat.le_antisymm
      · refine maxRank_le fun other hother => ?_
        obtain ⟨shape, hshape, rank, hle, rfl⟩ := hfrom other hother
        rw [length_padTo]
        exact Nat.max_le.2 ⟨hle, length_le_maxRank hshape⟩
      · refine maxRank_le fun shape hshape => ?_
        obtain ⟨other, hother, rank, -, rfl⟩ := hthere shape hshape
        refine le_trans ?_ (length_le_maxRank hother)
        rw [length_padTo]
        exact Nat.le_max_right _ _
    apply Option.ext
    intro master
    rw [Checked.toOption_eq_some, Checked.toOption_eq_some, broadcast_eq_ok_iff, broadcast_eq_ok_iff]
    refine isMaster_congr hrank (fun other hother => ?_) fun shape hshape => ?_
    · obtain ⟨shape, hshape, rank, -, rfl⟩ := hfrom other hother
      exact ⟨shape, hshape, funext fun axis => (sizeAt_padTo rank shape axis).symm⟩
    · obtain ⟨other, hother, rank, -, rfl⟩ := hthere shape hshape
      exact ⟨_, hother, funext fun axis => sizeAt_padTo rank shape axis⟩

/-- A row of sizes, a column and a single size of zero. -/
example : broadcast [[2, 1, 0], [3, 1], [1]] = .ok [2, 3, 0] := by rfl

end Pointwise.Shape
