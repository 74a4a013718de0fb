import Pointwise.Proofs.Offset.Fill
import Pointwise.Proofs.Strict.Basic

/-!
# Strict offset tables and argument blocks

The strict forms of computing the offset table of a domain and of filling the argument block of a dynamic
kernel. All sizes of a planned domain are at most its extent, and all offsets at most the bytes of it. If
these bytes can be numbered by offsets, no size changes its value when it is read as one.

## Main definitions

* `Strict.elements`, `Strict.ofShape` — the strict strides of a tensor.
* `Strict.inputRowOffset`, `Strict.outputRowOffset` — its strict row offset.
* `Strict.ofDomain` — the strict offset table.
* `Strict.ofTable` — the strict argument block, filled in parameter by parameter.

## Main results

* `Strict.ofDomain_eq` — a table is confirmed if the bytes of its domain can be numbered.
* `Strict.ofTable_eq` — an argument block of rank six is confirmed.
-/

set_option autoImplicit false

namespace Pointwise

/-- The sizes of a list from a position on replaced by others, as many as expected. -/
def Checked.overwrite {α : Type} (list : List α) (position width : Nat) (entries : List α) :
    Except Error (List α) := do
  require (position ≤ list.length ∧ width ≤ list.length - position) (.fault .outOfRange)
  require (entries.length = width) (.fault .outOfRange)
  return list.take position ++ entries ++ list.drop (position + width)

namespace Strict

/-! ## Strides -/

/-- The strict form of `Strides.elements`. -/
def elements (inner : Int) : List (Nat × Nat) → Except Error (List Int × Int)
  | [] => return ([], inner)
  | (dim, master) :: rest => do
    let (strides, behind) ← elements inner rest
    let stride := if dim = master ∧ master ≠ 1 then behind else 0
    Checked.keeps dim
    return (stride :: strides, ← Checked.mulOffset behind (Checked.toOffset dim))

/-- The strict form of `Strides.ofShape`. -/
def ofShape (shape master : Shape) (elemSize : Nat) : Except Error (List Int) := do
  let last ← Checked.sub master.length 1
  let inner ← Checked.get shape last
  Checked.keeps inner
  let (strides, _) ← elements (Checked.toOffset inner) ((shape.zip master).take last)
  Checked.keeps elemSize
  strides.mapM (Checked.mulOffset · (Checked.toOffset elemSize))

/-- The strict form of `Strides.inputRowOffset`. -/
def inputRowOffset (shape master : Shape) (strides : List Int) (elemSize : Nat) :
    Except Error Int := do
  Checked.keeps elemSize
  let elem := Checked.toOffset elemSize
  let stride ← Checked.getBack strides 1
  if elem < stride then return 0
  else if stride = elem then return stride
  else
    let outer ← Checked.getBack shape 2
    let rows ← Checked.get master (← Checked.sub shape.length 2)
    if outer = rows then return 0
    else
      let inner ← Checked.getBack shape 1
      if inner = 1 then return 0
      else
        let width ← Checked.get master (← Checked.sub shape.length 1)
        Checked.keeps width
        Checked.mulOffset (← Checked.negOffset (Checked.toOffset width)) elem

/-- The strict form of `Strides.outputRowOffset`. -/
def outputRowOffset (master : Shape) (strides : List Int) (elemSize : Nat) : Except Error Int := do
  let stride ← Checked.getBack strides 1
  let walked ← Checked.mul (← Checked.getBack master 1) elemSize
  Checked.keeps walked
  Checked.subOffset stride (Checked.toOffset walked)

section Strides

variable {shape master : Shape} {elemSize : Nat}

theorem elements_eq {inner : Int} {pairs : List (Nat × Nat)}
    (h : ∀ pair ∈ pairs, pair.1 < 0x8000000000000000) :
    elements inner pairs = Strides.elements inner pairs := by
  induction pairs with
  | nil => rfl
  | cons pair pairs ih =>
    rw [List.forall_mem_cons] at h
    rw [elements, Strides.elements, ih h.2]
    refine bind_congr fun rest => ?_
    dsimp only
    rw [Checked.keeps_eq_ok.2 h.1, Checked.ok_bind]

/-- The strides of a tensor whose sizes keep their values are confirmed. -/
theorem ofShape_eq (hshape : ∀ d ∈ shape, d < 0x8000000000000000)
    (helem : elemSize < 0x8000000000000000) :
    ofShape shape master elemSize = Strides.ofShape shape master elemSize := by
  rw [ofShape, Strides.ofShape]
  refine bind_congr fun last => ?_
  cases hinner : Checked.get shape last with
  | error cause => rfl
  | ok inner =>
    have hmem := List.mem_of_getElem? (Checked.get_eq_ok.1 hinner)
    rw [Checked.ok_bind, Checked.ok_bind, Checked.keeps_eq_ok.2 (hshape inner hmem), Checked.ok_bind,
      elements_eq fun pair hpair => hshape _ (List.of_mem_zip (List.mem_of_mem_take hpair)).1]
    refine bind_congr fun strides => ?_
    dsimp only
    rw [Checked.keeps_eq_ok.2 helem, Checked.ok_bind]

/-- The row offset of an input is confirmed if the sizes of the master keep their values. -/
theorem inputRowOffset_eq {strides : List Int} (hlen : 2 ≤ shape.length)
    (hmaster : ∀ m ∈ master, m < 0x8000000000000000) (helem : elemSize < 0x8000000000000000) :
    inputRowOffset shape master strides elemSize =
      Strides.inputRowOffset shape master strides elemSize := by
  have hrows : Checked.sub shape.length 2 = .ok (shape.length - 2) := Checked.sub_eq_ok.2 ⟨hlen, rfl⟩
  have hlast : Checked.sub shape.length 1 = .ok (shape.length - 1) :=
    Checked.sub_eq_ok.2 ⟨by omega, rfl⟩
  rw [inputRowOffset, Strides.inputRowOffset, Checked.keeps_eq_ok.2 helem, Checked.ok_bind]
  simp only [hrows, hlast, Checked.ok_bind]
  refine bind_congr fun stride => ?_
  split
  · rfl
  · split
    · rfl
    · refine bind_congr fun outer => bind_congr fun rows => ?_
      split
      · rfl
      · refine bind_congr fun inner => ?_
        split
        · rfl
        · cases hwidth : Checked.get master (shape.length - 1) with
          | error cause => rw [Checked.error_bind, Checked.error_bind]
          | ok width =>
            have hmem := List.mem_of_getElem? (Checked.get_eq_ok.1 hwidth)
            rw [Checked.ok_bind, Checked.ok_bind, Checked.keeps_eq_ok.2 (hmaster width hmem),
              Checked.ok_bind]

/-- The row offset of an output is confirmed if the bytes of a row keep their number. -/
theorem outputRowOffset_eq {strides : List Int}
    (hmaster : ∀ m ∈ master, m * elemSize < 0x8000000000000000) :
    outputRowOffset master strides elemSize = Strides.outputRowOffset master strides elemSize := by
  rw [outputRowOffset, Strides.outputRowOffset]
  refine bind_congr fun stride => ?_
  cases hwidth : Checked.getBack master 1 with
  | error cause => rfl
  | ok width =>
    have hbytes := hmaster width (List.mem_of_getElem? (Checked.getBack_eq_ok.1 hwidth).2)
    rw [Checked.ok_bind, Checked.ok_bind, Checked.mul_eq_ok.2 ⟨rfl, by omega⟩, Checked.ok_bind,
      Checked.ok_bind, Checked.keeps_eq_ok.2 hbytes, Checked.ok_bind]

end Strides

/-! ## Tables -/

/-- The strict form of `OffsetTable.param`. -/
def param (master : Shape) (tileRank : Nat) (shape : Shape)
    (rowOffset : List Int → Except Error Int) : Except Error (List Int × Int) := do
  let strides ← ofShape shape master elementSize
  let row ← if 1 < tileRank then rowOffset strides else pure 0
  return (strides, row)

/-- The strict form of `OffsetTable.ofDomain`. Room is made for all strides in advance, and the row offset of
an output has its place behind those of all inputs. -/
def ofDomain (domain : Domain) : Except Error OffsetTable := do
  let master := domain.master
  let params ← Checked.add domain.inputShapes.length domain.outputShapes.length
  let _ ← Checked.mul params (← Checked.sub master.length 1)
  let inputs ← domain.inputShapes.mapM fun shape =>
    param master domain.tileRank shape fun strides =>
      inputRowOffset shape master strides elementSize
  let outputs ← domain.outputShapes.mapM fun shape =>
    param master domain.tileRank shape fun strides => outputRowOffset master strides elementSize
  (List.range domain.outputShapes.length).forM fun i => do
    Checked.within (← Checked.add domain.inputShapes.length i) params
  let params := inputs ++ outputs
  return {
    master
    strides := params.flatMap (·.1)
    rowOffsets := params.map (·.2)
    tiled := domain.tiled
    tileRank := domain.tileRank
    inputs := domain.inputShapes.length
    outputs := domain.outputShapes.length }

section Table

variable {master shape : Shape} (hbytes : Shape.extent master * elementSize < 0x8000000000000000)
include hbytes

/-- A size of a tensor keeps its value as an offset, and so do the bytes of a row of that size. -/
theorem lt_of_fits (hfits : Shape.Fits master shape) :
    ∀ d ∈ shape, d < 0x8000000000000000 ∧ d * elementSize < 0x8000000000000000 := by
  intro d hd
  have hle := (Shape.le_extent hd).trans hfits.extent_le
  rw [elementSize] at hbytes ⊢
  omega

/-- The strides and the row offset of an input are confirmed. -/
theorem inputParam_eq (hfits : Shape.Fits master shape) (hrank : 2 ≤ master.length) (tileRank : Nat) :
    (param master tileRank shape fun strides => inputRowOffset shape master strides elementSize) =
      OffsetTable.param master tileRank shape fun strides =>
        Strides.inputRowOffset shape master strides elementSize := by
  have hshape := lt_of_fits hbytes hfits
  have hmaster := lt_of_fits hbytes (Shape.fits_self master)
  rw [param, OffsetTable.param, ofShape_eq (fun d hd => (hshape d hd).1) (by decide)]
  refine bind_congr fun strides => ?_
  rw [inputRowOffset_eq (hfits.length_eq ▸ hrank) (fun m hm => (hmaster m hm).1) (by decide)]

/-- The strides and the row offset of an output are confirmed. -/
theorem outputParam_eq (tileRank : Nat) :
    (param master tileRank master fun strides => outputRowOffset master strides elementSize) =
      OffsetTable.param master tileRank master fun strides =>
        Strides.outputRowOffset master strides elementSize := by
  have hmaster := lt_of_fits hbytes (Shape.fits_self master)
  rw [param, OffsetTable.param, ofShape_eq (fun m hm => (hmaster m hm).1) (by decide)]
  refine bind_congr fun strides => ?_
  rw [outputRowOffset_eq fun m hm => (hmaster m hm).2]

omit hbytes in
/-- **A table is confirmed** if the bytes of the domain's extent can be numbered by offsets and there is room
for its strides.

**Proof sketch.** Every size of an operand is at most the extent, and so are all offsets in bytes. -/
theorem ofDomain_eq {domain : Domain} {outputs : Nat} (hplanned : domain.Planned outputs)
    (hbytes : Shape.extent domain.master * elementSize < 0x8000000000000000)
    (hroom : domain.params.length * (domain.master.length - 1) < 0x10000000000000000) :
    ofDomain domain = OffsetTable.ofDomain domain := by
  have hrank := hplanned.rank
  rw [tensorRank] at hrank
  have hne : domain.master ≠ [] := List.ne_nil_of_length_pos (by omega)
  have hparams : domain.inputShapes.length + domain.outputShapes.length = domain.params.length := by
    rw [Domain.params, List.length_append]
  have hcount : domain.params.length ≤ domain.params.length * (domain.master.length - 1) :=
    Nat.le_mul_of_pos_right _ (by omega)
  have hinputs := Checked.mapM_congr fun shape hshape =>
    inputParam_eq hbytes (hplanned.fits shape hshape) (by omega) domain.tileRank
  have houtputs : ∀ shape ∈ domain.outputShapes,
      (param domain.master domain.tileRank shape fun strides =>
        outputRowOffset domain.master strides elementSize) =
      OffsetTable.param domain.master domain.tileRank shape fun strides =>
        Strides.outputRowOffset domain.master strides elementSize := by
    intro shape hshape
    rw [hplanned.outputShapes] at hshape
    rw [List.eq_of_mem_replicate hshape]
    exact outputParam_eq hbytes domain.tileRank
  have hplaces : ((List.range domain.outputShapes.length).forM fun i => do
      Checked.within (← Checked.add domain.inputShapes.length i) domain.params.length) = .ok () := by
    refine Checked.forM_eq_ok.2 fun i hi => ?_
    rw [List.mem_range] at hi
    rw [Checked.add_eq_ok.2 ⟨rfl, by omega⟩, Checked.ok_bind]
    exact Checked.within_eq_ok.2 (by omega)
  rw [ofDomain, OffsetTable.ofDomain]
  dsimp only
  rw [require_eq_ok.2 hne, hinputs, Checked.mapM_congr houtputs, Checked.add_eq_ok.2 ⟨hparams, by omega⟩,
    Checked.ok_bind, Checked.sub_eq_ok.2 ⟨by omega, rfl⟩, Checked.ok_bind,
    Checked.mul_eq_ok.2 ⟨rfl, hroom⟩, Checked.ok_bind, Checked.ok_bind, hplaces]
  rfl

end Table

/-! ## Argument blocks -/

/-- The strict form of filling in one parameter: its row offset, and its strides at their place. -/
def fillParam (table : OffsetTable) (width : Nat) (block : List Int × List Int) (param : Nat) :
    Except Error (List Int × List Int) := do
  let rowOffset ← Checked.get table.rowOffsets param
  let rowOffsets ← Checked.set block.1 param rowOffset
  let start ← Checked.mul param maxCallDims
  return (rowOffsets, ← Checked.overwrite block.2 start width (← table.paramStrides param))

/-- The strict form of `ArgumentBlock.ofTable`. -/
def ofTable (table : OffsetTable) (rank : Nat) : Except Error ArgumentBlock := do
  let width ← Checked.sub rank 1
  let (rowOffsets, strides) ← (List.range (← table.params)).foldlM (fillParam table width)
    (List.replicate maxParams 0, List.replicate (maxParams * maxCallDims) 0)
  Checked.keeps table.tiled.outer
  Checked.keeps table.tiled.inner
  return {
    ArgumentBlock.empty with
    rowOffsets := .ofFn fun i => rowOffsets.getD i 0
    strides := .ofFn fun i => strides.getD i 0
    outer := Checked.toOffset table.tiled.outer
    inner := Checked.toOffset table.tiled.inner }

section Block

variable {α : Type} {values : List α}

/-- One more entry filled in. -/
theorem set_take_append {k n : Nat} (a : α) (hk : k < values.length) (hn : k < n) :
    Checked.set (values.take k ++ List.replicate (n - k) a) k values[k] =
      .ok (values.take (k + 1) ++ List.replicate (n - (k + 1)) a) := by
  have hrest : List.replicate (n - k) a = a :: List.replicate (n - (k + 1)) a := by
    rw [← List.replicate_succ, Nat.sub_add_eq, Nat.sub_add_cancel (by omega)]
  have hlen : (values.take k).length = k := by
    rw [List.length_take]
    omega
  rw [Checked.set_eq_ok _ (by rw [List.length_append, hlen, List.length_replicate]; omega),
    List.set_append_right _ _ hlen.le, hlen, Nat.sub_self, hrest, List.set_cons_zero,
    List.take_succ_eq_append_getElem hk, List.append_assoc, List.singleton_append]

/-- One more row of entries filled in. -/
theorem overwrite_take_append {start width n : Nat} (a : α) (hstart : start + width ≤ values.length)
    (hn : start + width ≤ n) :
    Checked.overwrite (values.take start ++ List.replicate (n - start) a) start width
        ((values.drop start).take width) =
      .ok (values.take (start + width) ++ List.replicate (n - (start + width)) a) := by
  have hlen : (values.take start).length = start := by
    rw [List.length_take]
    omega
  have hrow : ((values.drop start).take width).length = width := by
    rw [List.length_take, List.length_drop]
    omega
  have hroom : start ≤ (values.take start ++ List.replicate (n - start) a).length ∧
      width ≤ (values.take start ++ List.replicate (n - start) a).length - start := by
    rw [List.length_append, hlen, List.length_replicate]
    omega
  rw [Checked.overwrite, require_eq_ok.2 hroom, Checked.ok_bind, require_eq_ok.2 hrow, Checked.ok_bind,
    List.take_left' hlen, ← List.take_add, ← List.drop_drop, List.drop_left' hlen, List.drop_replicate,
    Nat.sub_sub]
  rfl

/-- Defaults behind the entries of a list do not change what is found. -/
theorem getD_append_replicate (n i : Nat) (a : α) :
    (values ++ List.replicate n a).getD i a = values.getD i a := by
  rw [List.getD_eq_getElem?_getD, List.getD_eq_getElem?_getD]
  rcases Nat.lt_or_ge i values.length with hlt | hge
  · rw [List.getElem?_append_left hlt]
  · rw [List.getElem?_append_right hge, List.getElem?_eq_none hge, List.getElem?_replicate]
    split <;> rfl

variable {domain : Domain} {outputs : Nat} {table : OffsetTable}

/-- A table has the parameters of its domain. -/
theorem params_of_ofDomain (hparams : domain.params.length ≤ maxParams)
    (h : OffsetTable.ofDomain domain = .ok table) : table.params = .ok domain.params.length := by
  obtain ⟨-, h⟩ := Checked.require_bind_eq_ok.1 h
  obtain ⟨inputs, -, h⟩ := Checked.bind_eq_ok.1 h
  obtain ⟨targets, -, h⟩ := Checked.bind_eq_ok.1 h
  rw [Checked.pure_eq_ok] at h
  subst h
  rw [Domain.params, List.length_append] at hparams ⊢
  exact Checked.add_eq_ok.2 ⟨rfl, hparams.trans_lt (by decide)⟩

/-- The row offsets and the strides of some parameters, with zeros behind. -/
def filled (table : OffsetTable) (params : Nat) : List Int × List Int :=
  (table.rowOffsets.take params ++ List.replicate (maxParams - params) 0,
    table.strides.take (params * maxCallDims) ++
      List.replicate (maxParams * maxCallDims - params * maxCallDims) 0)

variable (hplanned : domain.Planned outputs) (hrank : domain.rank = tensorRank)
  (hparams : domain.params.length ≤ maxParams) (h : OffsetTable.ofDomain domain = .ok table)
include hplanned hrank hparams h

/-- One more parameter filled in. -/
theorem fillParam_filled {param : Nat} (hparam : param < domain.params.length) :
    fillParam table maxCallDims (filled table param) param = .ok (filled table (param + 1)) := by
  obtain ⟨hlength, hrows, -, -⟩ := OffsetTable.lengths_of_ofDomain hplanned h
  obtain ⟨hstrides, hfive⟩ := OffsetTable.paramStrides_of_ofDomain hplanned hrank hparams h hparam
  have hwidth : table.master.length - 1 = maxCallDims := by
    rw [OffsetTable.row, List.length_take, List.length_drop] at hfive
    obtain ⟨-, -, hmaster, -⟩ := OffsetTable.lengths_of_ofDomain hplanned h
    rw [hmaster, ← Domain.rank, hrank]
    rfl
  have hmaster : domain.master.length - 1 = maxCallDims := by
    rw [← Domain.rank, hrank]
    rfl
  rw [OffsetTable.row, hwidth] at hstrides
  rw [hmaster] at hlength
  have hsucc : param * maxCallDims + maxCallDims ≤ domain.params.length * maxCallDims := by
    rw [← Nat.succ_mul]
    exact Nat.mul_le_mul_right _ hparam
  have hroom : domain.params.length * maxCallDims ≤ maxParams * maxCallDims :=
    Nat.mul_le_mul_right _ hparams
  have hsize : maxParams * maxCallDims < 0x10000000000000000 := by decide
  rw [fillParam, filled,
    Checked.get_eq_ok.2 (List.getElem?_eq_getElem (by omega : param < table.rowOffsets.length)),
    Checked.ok_bind, set_take_append 0 (by omega) (by omega), Checked.ok_bind,
    Checked.mul_eq_ok.2 ⟨rfl, by omega⟩, Checked.ok_bind, hstrides, Checked.ok_bind,
    overwrite_take_append 0 (by omega) (by omega), Checked.ok_bind, filled, Nat.succ_mul]
  rfl

/-- The parameters filled in one after the other. -/
theorem foldlM_fillParam {params : Nat} (hle : params ≤ domain.params.length) :
    (List.range params).foldlM (fillParam table maxCallDims)
      (List.replicate maxParams 0, List.replicate (maxParams * maxCallDims) 0) =
        .ok (filled table params) := by
  induction params with
  | zero => simp [filled, pure, Except.pure]
  | succ params ih =>
    rw [List.range_succ, List.foldlM_append, ih (by omega), Checked.ok_bind, List.foldlM_cons,
      fillParam_filled hplanned hrank hparams h hle]
    rfl

/-- **An argument block of rank six is confirmed.**

**Proof sketch.** After some parameters, the block holds what the table has for them, and zeros behind. -/
theorem ofTable_eq (hsmall : Shape.extent domain.master < 0x8000000000000000) :
    ofTable table domain.rank = .ok (ArgumentBlock.ofTable table) := by
  obtain ⟨hlength, hrows, -, htiled⟩ := OffsetTable.lengths_of_ofDomain hplanned h
  obtain ⟨houter, hinner⟩ := ArgumentBlock.tiled_le_extent hplanned
  have hmaster : domain.master.length - 1 = maxCallDims := by
    rw [← Domain.rank, hrank]
    rfl
  have hwidth : Checked.sub domain.rank 1 = .ok maxCallDims := by
    rw [hrank]
    rfl
  rw [hmaster] at hlength
  rw [ofTable, hwidth, Checked.ok_bind, params_of_ofDomain hparams h, Checked.ok_bind,
    foldlM_fillParam hplanned hrank hparams h (Nat.le_refl _), Checked.ok_bind, filled,
    List.take_of_length_le hrows.le, List.take_of_length_le hlength.le]
  dsimp only
  rw [htiled, Checked.keeps_eq_ok.2 (by omega), Checked.ok_bind, Checked.keeps_eq_ok.2 (by omega),
    Checked.ok_bind, ArgumentBlock.ofTable, htiled]
  simp only [getD_append_replicate]
  rfl

end Block

end Strict

end Pointwise
