import Pointwise.Proofs.Offset.Block
import Pointwise.Proofs.Offset.Total

/-!
# What the block of a table holds

An argument block has room for more parameters than most programs have. The block of a table of rank six
holds the row offset and the five strides of each parameter in its place, zeros in the places of the
others, and the amounts of work as they are.

## Main definitions

* `ArgumentBlock.stridesOf` — the five strides of a parameter in a block.
* `ArgumentBlock.Holds` — a block that holds the offsets of a table.

## Main results

* `OffsetTable.paramStrides_of_ofDomain` — every parameter of a domain has its strides in the table.
* `ArgumentBlock.holds_of_ofDomain` — the block of a table holds it.
-/

set_option autoImplicit false

namespace Pointwise

/-! ## Rows of a table -/

namespace Strides

/-- As many strides as dimensions. -/
theorem length_of_elements {inner : Int} {pairs : List (Nat × Nat)} {strides : List Int} {behind : Int}
    (h : elements inner pairs = .ok (strides, behind)) : strides.length = pairs.length := by
  induction pairs generalizing strides behind with
  | nil =>
    simp only [elements, Checked.pure_eq_ok, Prod.mk.injEq] at h
    rw [← h.1]
    rfl
  | cons pair pairs ih =>
    obtain ⟨rest, behind', hrest, rfl, -⟩ := elements_cons_eq_ok.1 h
    rw [List.length_cons, List.length_cons, ih hrest]

/-- One stride for each dimension but the last. -/
theorem length_of_ofShape {shape master : Shape} {elemSize : Nat} {strides : List Int}
    (hlen : shape.length = master.length) (h : ofShape shape master elemSize = .ok strides) :
    strides.length = master.length - 1 := by
  obtain ⟨last, hlast, h⟩ := Checked.bind_eq_ok.1 h
  obtain ⟨inner, -, h⟩ := Checked.bind_eq_ok.1 h
  obtain ⟨⟨rest, behind⟩, hrest, h⟩ := Checked.bind_eq_ok.1 h
  rw [Checked.sub_eq_ok] at hlast
  rw [Checked.length_of_mapM h, length_of_elements hrest, List.length_take, List.length_zip, hlen]
  omega

end Strides

namespace OffsetTable

variable {domain : Domain} {outputs : Nat} {table : OffsetTable}

/-- Rows of equal width put together. -/
theorem length_flatMap_of_width {α β : Type} {f : α → List β} {width : Nat} {list : List α}
    (hwidth : ∀ a ∈ list, (f a).length = width) : (list.flatMap f).length = list.length * width := by
  induction list with
  | nil => simp
  | cons a list ih =>
    rw [List.forall_mem_cons] at hwidth
    rw [List.flatMap_cons, List.length_append, hwidth.1, ih hwidth.2, List.length_cons]
    ring

/-- A table has one row of strides and one row offset for each parameter. -/
theorem lengths_of_ofDomain (hplanned : domain.Planned outputs) (h : ofDomain domain = .ok table) :
    table.strides.length = domain.params.length * (domain.master.length - 1) ∧
      table.rowOffsets.length = domain.params.length ∧ table.master = domain.master ∧
      table.tiled = domain.tiled := by
  obtain ⟨-, h⟩ := Checked.require_bind_eq_ok.1 h
  obtain ⟨inputs, hinputs, h⟩ := Checked.bind_eq_ok.1 h
  obtain ⟨targets, htargets, h⟩ := Checked.bind_eq_ok.1 h
  rw [Checked.pure_eq_ok] at h
  subst h
  have hrow : ∀ (shape : Shape) (rowOffset : List Int → Except Error Int) (row : List Int × Int),
      shape.length = domain.master.length →
      param domain.master domain.tileRank shape rowOffset = .ok row →
      row.1.length = domain.master.length - 1 :=
    fun shape rowOffset row hlen hparam => Strides.length_of_ofShape hlen (param_eq_ok.1 hparam).1
  have hlen : (inputs ++ targets).length = domain.params.length := by
    rw [List.length_append, Checked.length_of_mapM hinputs, Checked.length_of_mapM htargets,
      Domain.params, List.length_append]
  refine ⟨?_, by rw [List.length_map, hlen], rfl, rfl⟩
  rw [← hlen]
  apply length_flatMap_of_width
  intro row hmem
  rcases List.mem_append.1 hmem with hmem | hmem
  · obtain ⟨i, hi, rfl⟩ := List.getElem_of_mem hmem
    have hi' : i < domain.inputShapes.length := Checked.length_of_mapM hinputs ▸ hi
    have hfits := hplanned.fits _ (List.getElem_mem hi')
    exact hrow _ _ _ hfits.length_eq.symm (Checked.getElem_of_mapM hinputs hi' hi)
  · obtain ⟨i, hi, rfl⟩ := List.getElem_of_mem hmem
    have hi' : i < domain.outputShapes.length := Checked.length_of_mapM htargets ▸ hi
    have hshape : ∀ shape ∈ domain.outputShapes, shape = domain.master := by
      rw [hplanned.outputShapes]
      exact fun shape hshape => List.eq_of_mem_replicate hshape
    exact hrow _ _ _ (by rw [hshape _ (List.getElem_mem hi')])
      (Checked.getElem_of_mapM htargets hi' hi)

/-- **Every parameter has its strides in the table** of a domain of rank six. -/
theorem paramStrides_of_ofDomain (hplanned : domain.Planned outputs) (hrank : domain.rank = tensorRank)
    (hparams : domain.params.length ≤ maxParams) (h : ofDomain domain = .ok table) {p : Nat}
    (hp : p < domain.params.length) :
    table.paramStrides p = .ok (table.row p) ∧ (table.row p).length = maxCallDims := by
  obtain ⟨hlength, -, hmaster, -⟩ := lengths_of_ofDomain hplanned h
  have hfive : domain.master.length - 1 = 5 := by
    rw [Domain.rank, tensorRank] at hrank
    omega
  rw [hfive] at hlength
  rw [maxParams] at hparams
  have hwidth' : table.master.length - 1 = 5 := by rw [hmaster, hfive]
  constructor
  · rw [paramStrides, Checked.sub_eq_ok.2 ⟨by omega, hwidth'⟩, Checked.ok_bind,
      Checked.mul_eq_ok.2 ⟨rfl, by omega⟩, Checked.ok_bind, Checked.add_eq_ok.2 ⟨rfl, by omega⟩,
      Checked.ok_bind, Checked.mul_eq_ok.2 ⟨rfl, by omega⟩, Checked.ok_bind,
      require_eq_ok.2 (by omega), Checked.ok_bind, row, hwidth']
    have hsub : (p + 1) * 5 - p * 5 = 5 := by omega
    rw [hsub]
    rfl
  · rw [row, hwidth', List.length_take, List.length_drop, maxCallDims]
    omega

end OffsetTable

/-! ## The block of a table -/

namespace ArgumentBlock

/-- The five strides of a parameter in a block. -/
def stridesOf (block : ArgumentBlock) (param : Nat) : List Int :=
  (block.strides.toList.drop (param * maxCallDims)).take maxCallDims

/-- A block that holds the offsets of a table for its first parameters, nothing for the others, the given
amounts of work, and no addresses. -/
structure Holds (block : ArgumentBlock) (table : OffsetTable) (params : Nat) (tiled : WorkAmounts) :
    Prop where
  rowOffset : ∀ p < params, ∃ offset, table.rowOffsets[p]? = some offset ∧
    block.rowOffsets.toList[p]? = some offset
  strides : ∀ p < params, table.paramStrides p = .ok (block.stridesOf p) ∧
    (block.stridesOf p).length = maxCallDims
  unused : ∀ p, params ≤ p → p < maxParams → block.rowOffsets.toList[p]? = some 0 ∧
    block.stridesOf p = List.replicate maxCallDims 0
  outer : block.outer = tiled.outer
  inner : block.inner = tiled.inner
  sources : block.sources = .replicate _ 0
  targets : block.targets = .replicate _ 0

/-- Entries that are filled up to the size of a vector with a default. -/
theorem toList_ofFn_getD {α : Type} {n : Nat} {list : List α} (a : α) (h : list.length ≤ n) :
    (Vector.ofFn fun i : Fin n => list.getD i a).toList =
      list ++ List.replicate (n - list.length) a := by
  apply List.ext_getElem
  · simp
    omega
  · intro i hi hi'
    rcases Nat.lt_or_ge i list.length with hlt | hge
    · simp [List.getElem_append_left hlt, List.getElem?_eq_getElem hlt]
    · simp [List.getElem_append_right hge, List.getElem?_eq_none hge]

/-- The amounts of work of a planned domain are at most its extent. -/
theorem tiled_le_extent {domain : Domain} {outputs : Nat} (hplanned : domain.Planned outputs) :
    domain.tiled.outer ≤ Shape.extent domain.master ∧
      domain.tiled.inner ≤ Shape.extent domain.master := by
  obtain ⟨front, -, ⟨-, houter, hmaster⟩ | ⟨-, hmaster⟩⟩ := hplanned.split
  · rw [houter]
    exact ⟨Shape.extent_pos _, Shape.le_extent (by simp [hmaster])⟩
  · exact ⟨Shape.le_extent (by simp [hmaster]), Shape.le_extent (by simp [hmaster])⟩

/-- **The block of a table holds it.**

**Proof sketch.** The strides and row offsets of a table of rank six are as long as its parameters say, so
that the block is the table filled up with zeros. -/
theorem holds_of_ofDomain {domain : Domain} {outputs : Nat} {table : OffsetTable}
    (hplanned : domain.Planned outputs) (hrank : domain.rank = tensorRank)
    (hparams : domain.params.length ≤ maxParams)
    (hsmall : Shape.extent domain.master < 0x8000000000000000)
    (h : OffsetTable.ofDomain domain = .ok table) :
    (ofTable table).Holds table domain.params.length domain.tiled := by
  obtain ⟨hlength, hlength', hmaster, htiled⟩ := OffsetTable.lengths_of_ofDomain hplanned h
  have hfive : domain.master.length - 1 = 5 := by
    rw [Domain.rank, tensorRank] at hrank
    omega
  have hmax : domain.params.length ≤ 12 := hparams
  rw [hfive] at hlength
  have hrows : (ofTable table).rowOffsets.toList =
      table.rowOffsets ++ List.replicate (maxParams - table.rowOffsets.length) 0 :=
    toList_ofFn_getD 0 (by rw [maxParams]; omega)
  have hall : (ofTable table).strides.toList =
      table.strides ++ List.replicate (maxParams * maxCallDims - table.strides.length) 0 :=
    toList_ofFn_getD 0 (by rw [maxParams, maxCallDims]; omega)
  obtain ⟨houter, hinner⟩ := tiled_le_extent hplanned
  refine ⟨fun p hp => ?_, fun p hp => ?_, fun p hge hp => ⟨?_, ?_⟩, ?_, ?_, ?_, ?_⟩
  · have hp' : p < table.rowOffsets.length := by omega
    refine ⟨table.rowOffsets[p], List.getElem?_eq_getElem hp', ?_⟩
    rw [hrows, List.getElem?_append_left hp', List.getElem?_eq_getElem hp']
  · have hrow : (ofTable table).stridesOf p = table.row p := by
      rw [stridesOf, hall, OffsetTable.row, hmaster, hfive, maxCallDims,
        List.drop_append_of_le_length (by omega), List.take_append_of_le_length]
      rw [List.length_drop]
      omega
    rw [hrow]
    exact OffsetTable.paramStrides_of_ofDomain hplanned hrank hparams h hp
  · rw [hrows, List.getElem?_append_right (by omega), List.getElem?_replicate, if_pos (by omega)]
  · rw [maxParams] at hp
    rw [stridesOf, hall, maxCallDims, maxParams, List.drop_append, List.drop_eq_nil_of_le (by omega),
      List.nil_append, List.drop_replicate, List.take_replicate, Nat.min_eq_left (by omega)]
  · simp only [ofTable, htiled]
    exact Checked.toOffset_of_lt (by omega)
  · simp only [ofTable, htiled]
    exact Checked.toOffset_of_lt (by omega)
  · simp only [ofTable]
  · simp only [ofTable]

end ArgumentBlock

end Pointwise
