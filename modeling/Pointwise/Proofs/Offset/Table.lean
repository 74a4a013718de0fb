import Pointwise.Offset.Table
import Pointwise.Proofs.Domain.Plan
import Pointwise.Proofs.Offset.Strides

/-!
# Offset tables of planned domains

The table of a planned domain tells for each parameter where the rows of the master begin: the
strides lead to the first row of a kernel call, walking a row moves the pointer along, and the row
offset brings it to the next row of the same call.

## Main definitions

* `Domain.params` — the planned shapes of all parameters, inputs first.
* `Domain.rowDims` — the dimensions that number the rows of the master.
* `Domain.moves` — whether the pointer of a parameter moves along a row.
* `OffsetTable.Leads` — what the strides and the row offset of a parameter have to satisfy.
* `OffsetTable.Describes` — a table whose offsets lead along all parameters of a domain.

## Main results

* `Domain.Planned.unravel_callShape` — the index vectors of the calls in terms of rows.
* `OffsetTable.describes_of_ofDomain` — the table of a planned domain leads along all parameters.
-/

set_option autoImplicit false

namespace Pointwise

namespace Domain

/-- The planned shapes of all parameters, inputs first. -/
def params (domain : Domain) : List Shape := domain.inputShapes ++ domain.outputShapes

/-- The dimensions that number the rows of the master. -/
def rowDims (domain : Domain) : Shape := domain.master.dropLast

/-- Whether the pointer of a parameter moves along a row, given which inputs are broadcast along it.
Outputs always move. -/
def moves (flags : List Bool) (param : Nat) : Bool := flags[param]? ≠ some true

variable {domain : Domain} {outputs : Nat}

/-- The master is made of rows. -/
theorem Planned.master_eq (h : domain.Planned outputs) :
    domain.master = domain.rowDims ++ [domain.tiled.inner] := by
  obtain ⟨front, -, ⟨-, -, hmaster⟩ | ⟨-, hmaster⟩⟩ := h.split
  · rw [rowDims, hmaster, List.dropLast_concat]
  · have hassoc : domain.master = (front ++ [domain.tiled.outer]) ++ [domain.tiled.inner] := by
      simp [hmaster]
    rw [rowDims, hassoc, List.dropLast_concat]

/-- If there are elements, there are rows and columns. -/
theorem Planned.tiled_pos (h : domain.Planned outputs) (hpos : 0 < domain.elements) :
    0 < domain.tiled.outer ∧ 0 < domain.tiled.inner := by
  rw [h.elements, Shape.count_pos] at hpos
  obtain ⟨front, -, ⟨-, houter, hmaster⟩ | ⟨-, hmaster⟩⟩ := h.split
  · exact ⟨by omega, hpos _ (by simp [hmaster])⟩
  · exact ⟨hpos _ (by simp [hmaster]), hpos _ (by simp [hmaster])⟩

/-- A kernel is called for as many dimensions as number the rows. -/
theorem Planned.length_callShape (h : domain.Planned outputs) :
    domain.callShape.dropLast.length = domain.rowDims.length ∧
      domain.callShape.length = domain.master.length := by
  obtain ⟨front, hcall, ⟨htile, -, hmaster⟩ | ⟨htile, hmaster⟩⟩ := h.split
  · simp [rowDims, hcall, hmaster, htile]
  · simp [rowDims, hcall, hmaster, htile]

/-- **The index vectors of the calls.** Call number `call` begins with row `call * outer`. -/
theorem Planned.unravel_callShape (h : domain.Planned outputs) (hpos : 0 < domain.elements)
    (call : Nat) :
    Shape.unravel domain.callShape.dropLast call =
      Shape.unravel domain.rowDims (call * domain.tiled.outer) := by
  obtain ⟨houterpos, -⟩ := h.tiled_pos hpos
  obtain ⟨front, hcall, ⟨htile, houter, hmaster⟩ | ⟨htile, hmaster⟩⟩ := h.split
  · rw [rowDims, hcall, hmaster, htile, houter, Nat.mul_one, List.dropLast_concat,
      List.replicate_one, List.dropLast_concat]
  · have hassoc : domain.master = (front ++ [domain.tiled.outer]) ++ [domain.tiled.inner] := by
      simp [hmaster]
    have hcall' : domain.callShape = (front ++ [1]) ++ [1] := by
      simp [hcall, htile, List.replicate_succ]
    rw [rowDims, hassoc, hcall', List.dropLast_concat, List.dropLast_concat,
      Shape.unravel_append, Shape.unravel_append]
    simp [Shape.unravel, Nat.mod_one, Nat.mul_div_cancel _ houterpos]

/-- Where a call has one row after another, these are the rows of a tile with two dimensions. -/
theorem Planned.split_of_rows (h : domain.Planned outputs) (hpos : 0 < domain.elements) {row : Nat}
    (hrow : (row + 1) % domain.tiled.outer ≠ 0) :
    ∃ front, domain.tileRank = 2 ∧ 1 < domain.tiled.outer ∧
      domain.master = front ++ [domain.tiled.outer, domain.tiled.inner] ∧
      domain.rowDims = front ++ [domain.tiled.outer] := by
  have houter : 1 < domain.tiled.outer := by
    have houterpos := (h.tiled_pos hpos).1
    by_contra hle
    obtain hone : domain.tiled.outer = 1 := by omega
    rw [hone, Nat.mod_one] at hrow
    exact hrow rfl
  obtain ⟨front, -, ⟨-, hone, -⟩ | ⟨htile, hmaster⟩⟩ := h.split
  · omega
  · have hassoc : domain.master = (front ++ [domain.tiled.outer]) ++ [domain.tiled.inner] := by
      simp [hmaster]
    exact ⟨front, htile, houter, hmaster, by rw [rowDims, hassoc, List.dropLast_concat]⟩

/-- The calls share the elements among them. -/
theorem Planned.count_callShape (h : domain.Planned outputs) :
    Shape.count domain.callShape.dropLast * (domain.tiled.outer * domain.tiled.inner) =
      domain.elements := by
  rw [h.elements]
  obtain ⟨front, hcall, ⟨htile, houter, hmaster⟩ | ⟨htile, hmaster⟩⟩ := h.split
  · rw [hcall, htile, hmaster, houter]
    simp
  · have hcall' : domain.callShape = (front ++ [1]) ++ [1] := by
      simp [hcall, htile, List.replicate_succ]
    rw [hcall', hmaster, List.dropLast_concat]
    simp

end Domain

/-! ## Leading along a parameter -/

/-- What the strides and the row offset of a parameter of a given shape have to satisfy. -/
structure OffsetTable.Leads (domain : Domain) (shape : Shape) (moves : Bool) (strides : List Int)
    (rowOffset : Int) : Prop where
  length : strides.length = domain.rowDims.length
  /-- The strides lead to the beginning of each row. -/
  start : ∀ row, Strides.displacement strides (Shape.unravel domain.rowDims row) =
    elementSize * (Shape.sourcePosition domain.master shape (row * domain.tiled.inner) : Nat)
  /-- Along a row the pointer moves with the columns or stands still. -/
  column : ∀ row column, column < domain.tiled.inner →
    Shape.sourcePosition domain.master shape (row * domain.tiled.inner + column) =
      Shape.sourcePosition domain.master shape (row * domain.tiled.inner) +
        if moves then column else 0
  /-- The row offset leads from the end of a row to the next row of the same call. -/
  next : ∀ row, (row + 1) % domain.tiled.outer ≠ 0 →
    elementSize * (Shape.sourcePosition domain.master shape (row * domain.tiled.inner) : Nat) +
        Strides.rowAdvance moves domain.tiled.inner elementSize + rowOffset =
      elementSize * (Shape.sourcePosition domain.master shape ((row + 1) * domain.tiled.inner) : Nat)

namespace OffsetTable

variable {domain : Domain} {outputs : Nat}

/-- The rows of a parameter begin where its leading dimensions say. -/
theorem sourcePosition_row {front front' : Shape} {inner d : Nat}
    (hlen : front.length = front'.length) {column : Nat} (hcolumn : column < inner) (row : Nat) :
    Shape.sourcePosition (front ++ [inner]) (front' ++ [d]) (row * inner + column) =
      Shape.sourcePosition front front' row * d + if d = 1 then 0 else column := by
  have hpos : 0 < inner := by omega
  rw [Shape.sourcePosition_concat hlen, Nat.mul_comm row inner, Nat.mul_add_div hpos,
    Nat.div_eq_of_lt hcolumn, Nat.mul_add_mod, Nat.mod_eq_of_lt hcolumn, Nat.add_zero]

/-- The beginning of a row and of the next one, if they belong to the same index in front of the
last two dimensions. -/
theorem sourcePosition_succ_row {front front' : Shape} {outer d' : Nat}
    (hlen : front.length = front'.length) {row : Nat} (hrow : (row + 1) % outer ≠ 0) :
    Shape.sourcePosition (front ++ [outer]) (front' ++ [d']) (row + 1) =
      Shape.sourcePosition (front ++ [outer]) (front' ++ [d']) row + if d' = 1 then 0 else 1 := by
  have hdiv : (row + 1) / outer = row / outer := by
    rw [Nat.succ_div, if_neg fun hdvd => hrow (Nat.mod_eq_zero_of_dvd hdvd), Nat.add_zero]
  have hmod : (row + 1) % outer = row % outer + 1 := by
    have h₁ := Nat.div_add_mod row outer
    have h₂ := Nat.div_add_mod (row + 1) outer
    rw [hdiv] at h₂
    omega
  rw [Shape.sourcePosition_concat hlen, Shape.sourcePosition_concat hlen, hdiv, hmod]
  split <;> omega

/-- In elements, the next row is as far away as the stride along the rows says. -/
theorem sourcePosition_succ_row_mul {front front' : Shape} {outer d' : Nat}
    (hlen : front.length = front'.length) (hd' : d' = 1 ∨ d' = outer) (houter : 1 < outer)
    {row : Nat} (hrow : (row + 1) % outer ≠ 0) (d : Nat) :
    ((Shape.sourcePosition (front ++ [outer]) (front' ++ [d']) (row + 1) * d : Nat) : Int) =
      (Shape.sourcePosition (front ++ [outer]) (front' ++ [d']) row * d : Nat) +
        Strides.strideOf d' outer d := by
  rw [sourcePosition_succ_row hlen hrow, Strides.strideOf]
  push_cast
  by_cases hone : d' = 1
  · rw [if_pos hone, if_neg (by omega)]
    ring
  · rw [if_neg hone, if_pos ⟨hd'.resolve_left hone, by omega⟩]
    ring

/-- **Strides and row offset lead along a parameter.** The row offset only has to make up the stride
along the rows, where there is more than one row. -/
theorem leads_of_ofShape (hplanned : domain.Planned outputs) (hpos : 0 < domain.elements)
    (hsmall : domain.elements < 0x8000000000000000) {shape : Shape}
    (hfits : Shape.Fits domain.master shape) {moves : Bool}
    (hmoves : moves = (shape.getLast? ≠ some 1 : Bool) ∨ moves = true ∧ shape = domain.master)
    {strides : List Int} (hstrides : Strides.ofShape shape domain.master elementSize = .ok strides)
    {rowOffset : Int}
    (hrow : ∀ front front' m' d' m d, domain.master = front ++ [m', m] → shape = front' ++ [d', d] →
      domain.tileRank = 2 → 1 < m' →
      Strides.rowAdvance moves m elementSize + rowOffset =
        Strides.strideOf d' m' d * elementSize) :
    Leads domain shape moves strides rowOffset := by
  obtain ⟨-, hinnerpos⟩ := hplanned.tiled_pos hpos
  have hcolumns : ∀ d, shape.getLast? = some d → ∀ column < domain.tiled.inner,
      (if d = 1 then 0 else column) = if moves then column else 0 := by
    intro d hd column hcolumn
    rcases hmoves with rfl | ⟨rfl, rfl⟩
    · by_cases hone : d = 1 <;> simp [hd, hone]
    · rw [hplanned.master_eq, List.getLast?_concat, Option.some.injEq] at hd
      split <;> simp
      omega
  have hsmall' : ∀ d ∈ shape, d < 0x8000000000000000 := fun d hd =>
    (hfits.le_count (by rwa [← hplanned.elements]) d hd).trans_lt (hplanned.elements ▸ hsmall)
  have hsplit := hfits
  rw [hplanned.master_eq] at hsplit
  obtain ⟨front', back', rfl, hfront, hback⟩ := hsplit.of_append
  obtain ⟨d, rfl⟩ : ∃ d, back' = [d] := List.length_eq_one_iff.1 hback.length_eq.symm
  have hlen := hfront.length_eq
  have hcolumn := hcolumns d (by simp)
  have hat : ∀ row, Shape.sourcePosition domain.master (front' ++ [d]) (row * domain.tiled.inner) =
      Shape.sourcePosition domain.rowDims front' row * d := by
    intro row
    have hzero := sourcePosition_row (d := d) hlen hinnerpos row
    rw [← hplanned.master_eq] at hzero
    simpa using hzero
  have hdisplacement := Strides.displacement_of_ofShape (hplanned.master_eq ▸ hfits) hlen hsmall'
    (by decide) (hplanned.master_eq ▸ hstrides)
  refine ⟨hdisplacement.1, fun row => ?_, fun row column hlt => ?_, fun row hsame => ?_⟩
  · rw [hdisplacement.2, hat, Nat.mul_comm d]
  · rw [hat, ← hcolumn column hlt]
    conv_lhs => rw [hplanned.master_eq]
    exact sourcePosition_row hlen hlt row
  · obtain ⟨front, htile, houter, hmaster, hrows⟩ := hplanned.split_of_rows hpos hsame
    obtain ⟨init, last, rfl, hinit, hlast⟩ := (hrows ▸ hfront).of_append
    obtain ⟨d', rfl⟩ : ∃ d', last = [d'] := List.length_eq_one_iff.1 hlast.length_eq.symm
    have hd' : d' = 1 ∨ d' = domain.tiled.outer := by
      cases hlast with
      | cons h _ => exact h
    have hstep := hrow front init domain.tiled.outer d' domain.tiled.inner d hmaster (by simp)
      htile houter
    rw [add_assoc, hstep, hat, hat, hrows,
      sourcePosition_succ_row_mul hinit.length_eq hd' houter hsame, mul_add,
      mul_comm (Strides.strideOf _ _ _)]

/-! ## The table of a planned domain -/

/-- The strides of one parameter in a table. -/
def row (table : OffsetTable) (param : Nat) : List Int :=
  (table.strides.drop (param * (table.master.length - 1))).take (table.master.length - 1)

/-- A look-up of strides reads a row of the table. -/
theorem eq_row_of_paramStrides {table : OffsetTable} {param : Nat} {strides : List Int}
    (h : table.paramStrides param = .ok strides) : strides = table.row param := by
  obtain ⟨width, hwidth, h⟩ := Checked.bind_eq_ok.1 h
  obtain ⟨start, hstart, h⟩ := Checked.bind_eq_ok.1 h
  obtain ⟨next, hnext, h⟩ := Checked.bind_eq_ok.1 h
  obtain ⟨stop, hstop, h⟩ := Checked.bind_eq_ok.1 h
  obtain ⟨-, h⟩ := Checked.require_bind_eq_ok.1 h
  rw [Checked.pure_eq_ok] at h
  obtain ⟨-, rfl⟩ := Checked.sub_eq_ok.1 hwidth
  obtain ⟨rfl, -⟩ := Checked.mul_eq_ok.1 hstart
  obtain ⟨rfl, -⟩ := Checked.add_eq_ok.1 hnext
  obtain ⟨rfl, -⟩ := Checked.mul_eq_ok.1 hstop
  rw [← h, row, Nat.add_mul, Nat.one_mul, Nat.add_sub_cancel_left]

/-- An entry among rows of equal length that stand one after the other. -/
theorem take_drop_flatMap {α β : Type} {f : α → List β} {width : Nat} {list : List α} {param : Nat}
    {a : α} (hwidth : ∀ a ∈ list, (f a).length = width) (h : list[param]? = some a) :
    ((list.flatMap f).drop (param * width)).take width = f a := by
  induction list generalizing param with
  | nil => simp at h
  | cons b list ih =>
    have hb := hwidth b (by simp)
    rw [List.flatMap_cons]
    cases param with
    | zero =>
      simp only [List.getElem?_cons_zero, Option.some.injEq] at h
      rw [h] at hb
      simp [h, ← hb]
    | succ param =>
      have hdrop : (param + 1) * width = (f b).length + param * width := by
        rw [hb]
        ring
      rw [hdrop, List.drop_length_add_append]
      exact ih (fun a ha => hwidth a (by simp [ha])) (by simpa using h)

/-- **A table describes a domain** whose inputs are broadcast along the rows as the flags say. -/
structure Describes (table : OffsetTable) (domain : Domain) (flags : List Bool) : Prop where
  master : table.master = domain.master
  tiled : table.tiled = domain.tiled
  tileRank : table.tileRank = domain.tileRank
  inputs : table.inputs = domain.inputShapes.length
  outputs : table.outputs = domain.outputShapes.length
  rowOffsets : table.rowOffsets.length = domain.params.length
  leads : ∀ (param : Nat) (shape : Shape) (rowOffset : Int), domain.params[param]? = some shape →
    table.rowOffsets[param]? = some rowOffset →
    Leads domain shape (Domain.moves flags param) (table.row param) rowOffset

/-- The offsets of a parameter. -/
theorem param_eq_ok {master shape : Shape} {tileRank : Nat}
    {rowOffset : List Int → Except Error Int} {entry : List Int × Int} :
    param master tileRank shape rowOffset = .ok entry ↔
      Strides.ofShape shape master elementSize = .ok entry.1 ∧
        (if 1 < tileRank then rowOffset entry.1 else pure 0) = .ok entry.2 := by
  obtain ⟨strides, offset⟩ := entry
  by_cases htile : 1 < tileRank
  · simp only [param, if_pos htile, Checked.bind_eq_ok, Checked.pure_eq_ok, Prod.mk.injEq]
    constructor
    · rintro ⟨_, hstrides, _, hoffset, rfl, rfl⟩
      exact ⟨hstrides, hoffset⟩
    · rintro ⟨hstrides, hoffset⟩
      exact ⟨_, hstrides, _, hoffset, rfl, rfl⟩
  · simp only [param, if_neg htile, Checked.bind_eq_ok, Checked.pure_eq_ok, Prod.mk.injEq,
      exists_eq_left']
    constructor
    · rintro ⟨_, hstrides, rfl, rfl⟩
      exact ⟨hstrides, rfl⟩
    · rintro ⟨hstrides, rfl⟩
      exact ⟨_, hstrides, rfl, rfl⟩

/-- The flags tell whether the last dimension of an input is one. -/
theorem moves_of_broadcastFlags {flags : List Bool} (hflags : domain.broadcastFlags = .ok flags)
    {param : Nat} {shape : Shape} (h : domain.inputShapes[param]? = some shape) :
    Domain.moves flags param = (shape.getLast? ≠ some 1 : Bool) := by
  obtain ⟨dims, hdims, hflags⟩ := Checked.bind_eq_ok.1 hflags
  rw [Checked.pure_eq_ok] at hflags
  obtain ⟨hlt, rfl⟩ := List.getElem?_eq_some_iff.1 h
  have hlen := Checked.length_of_mapM hdims
  have hdim := Checked.getElem_of_mapM hdims hlt (by omega)
  obtain ⟨-, hlast⟩ := Checked.getBack_eq_ok.1 hdim
  rw [Domain.moves, ← hflags, List.getElem?_map, List.getElem?_eq_getElem (by omega),
    List.getLast?_eq_getElem?, hlast]
  simp

/-- Outputs move along the rows. -/
theorem moves_of_le {flags : List Bool} {param : Nat} (h : flags.length ≤ param) :
    Domain.moves flags param = true := by
  simp [Domain.moves, List.getElem?_eq_none h]

/-- As many flags as inputs. -/
theorem length_of_broadcastFlags {flags : List Bool} (hflags : domain.broadcastFlags = .ok flags) :
    flags.length = domain.inputShapes.length := by
  obtain ⟨dims, hdims, hflags⟩ := Checked.bind_eq_ok.1 hflags
  rw [Checked.pure_eq_ok] at hflags
  rw [← hflags, List.length_map, Checked.length_of_mapM hdims]

/-- The offsets of an input lead along it. -/
theorem leads_of_input (hplanned : domain.Planned outputs) (hpos : 0 < domain.elements)
    (hsmall : domain.elements < 0x8000000000000000) {flags : List Bool}
    (hflags : domain.broadcastFlags = .ok flags) {p : Nat} {shape : Shape}
    (hshape : domain.inputShapes[p]? = some shape) {entry : List Int × Int}
    (h : param domain.master domain.tileRank shape (fun strides =>
      Strides.inputRowOffset shape domain.master strides elementSize) = .ok entry) :
    Leads domain shape (Domain.moves flags p) entry.1 entry.2 := by
  obtain ⟨hstrides, hoffset⟩ := param_eq_ok.1 h
  have hfits := hplanned.fits shape (List.mem_of_getElem? hshape)
  have hmoves := moves_of_broadcastFlags hflags hshape
  refine leads_of_ofShape hplanned hpos hsmall hfits (.inl hmoves) hstrides ?_
  rintro front front' m' d' m d hmaster rfl htile hrows
  rw [htile, if_pos (by decide)] at hoffset
  rw [hmaster] at hfits hstrides hoffset
  obtain ⟨front'', p', q', heq, hfront, hp, hq⟩ := hfits.of_append_pair
  obtain ⟨rfl, rfl, rfl⟩ := Shape.append_pair_inj heq
  have hcount := hmaster ▸ hplanned.elements
  have hposm := (hcount ▸ hpos)
  rw [Shape.count_pos] at hposm
  have hd : 0 < d := by
    have := hposm m (by simp)
    omega
  have hle := (Shape.fits_self (front ++ [m', m])).le_count (hcount ▸ hpos) m (by simp)
  have hm : m < 0x8000000000000000 := by omega
  have hd' : d < 0x8000000000000000 := by omega
  rw [hmoves]
  simpa using Strides.rowAdvance_add_inputRowOffset hfront.length_eq hp hq hrows hd (fun _ => hm)
    (by decide) (by decide)
    (Strides.last_of_ofShape hfront.length_eq hd' (by decide) hstrides) hoffset

/-- The offsets of an output lead along it. -/
theorem leads_of_output (hplanned : domain.Planned outputs) (hpos : 0 < domain.elements)
    (hsmall : domain.elements < 0x8000000000000000) {entry : List Int × Int}
    (h : param domain.master domain.tileRank domain.master (fun strides =>
      Strides.outputRowOffset domain.master strides elementSize) = .ok entry) :
    Leads domain domain.master true entry.1 entry.2 := by
  obtain ⟨hstrides, hoffset⟩ := param_eq_ok.1 h
  refine leads_of_ofShape hplanned hpos hsmall (Shape.fits_self _) (.inr ⟨rfl, rfl⟩) hstrides ?_
  rintro front front' m' d' m d hmaster hshape htile hrows
  rw [htile, if_pos (by decide), hmaster] at hoffset
  obtain ⟨rfl, rfl, rfl⟩ := Shape.append_pair_inj (hmaster.symm.trans hshape)
  have hcount := hmaster ▸ hplanned.elements
  have hle := (Shape.fits_self (front ++ [m', m])).le_count (hcount ▸ hpos) m (by simp)
  rw [hmaster] at hstrides
  have hlast := Strides.last_of_ofShape rfl (by omega) (by decide) hstrides
  have hstride : Strides.strideOf m' m' m = m := if_pos ⟨rfl, by omega⟩
  -- the stride along the rows is an offset, and as large as a row
  have hwidth : m * elementSize < 0x8000000000000000 := by
    have hmem : Strides.strideOf m' m' m * (elementSize : Int) ∈ entry.1 := by
      obtain ⟨-, hget⟩ := Checked.getBack_eq_ok.1 hlast
      exact List.mem_of_getElem? hget
    have hlt := Strides.lt_of_ofShape hstrides _ hmem
    rw [hstride] at hlt
    exact_mod_cast hlt
  exact Strides.rowAdvance_add_outputRowOffset hwidth hlast hoffset

/-- **The strides of a parameter** in the table of a planned domain are those of its shape. -/
theorem ofShape_row (hplanned : domain.Planned outputs) {table : OffsetTable}
    (h : ofDomain domain = .ok table) {p : Nat} {shape : Shape} (hshape : domain.params[p]? = some shape) :
    Strides.ofShape shape domain.master elementSize = .ok (table.row p) := by
  obtain ⟨-, h⟩ := Checked.require_bind_eq_ok.1 h
  obtain ⟨inputs, hinputs, h⟩ := Checked.bind_eq_ok.1 h
  obtain ⟨targets, htargets, h⟩ := Checked.bind_eq_ok.1 h
  rw [Checked.pure_eq_ok] at h
  subst h
  have hentries : List.Forall₂ (fun shape (entry : List Int × Int) =>
      Strides.ofShape shape domain.master elementSize = .ok entry.1) domain.params (inputs ++ targets) :=
    List.rel_append ((Checked.mapM_eq_ok.1 hinputs).imp fun _ _ hparam => (param_eq_ok.1 hparam).1)
      ((Checked.mapM_eq_ok.1 htargets).imp fun _ _ hparam => (param_eq_ok.1 hparam).1)
  have hrank : ∀ shape ∈ domain.params, shape.length = domain.master.length := by
    intro shape hmem
    rcases List.mem_append.1 hmem with hmem | hmem
    · exact (hplanned.fits shape hmem).length_eq.symm
    · rw [hplanned.outputShapes] at hmem
      rw [List.eq_of_mem_replicate hmem]
  have hwidth : ∀ entry ∈ inputs ++ targets, entry.1.length = domain.master.length - 1 := by
    intro entry hentry
    obtain ⟨i, hi, rfl⟩ := List.getElem_of_mem hentry
    have hi' : i < domain.params.length := hentries.length_eq ▸ hi
    exact (Strides.ofShape_of_one (hrank _ (List.getElem_mem hi')) (hentries.get hi' hi)).1
  obtain ⟨hp, rfl⟩ := List.getElem?_eq_some_iff.1 hshape
  have hp' : p < (inputs ++ targets).length := hentries.length_eq ▸ hp
  rw [row, take_drop_flatMap hwidth (List.getElem?_eq_getElem hp')]
  exact hentries.get hp hp'

/-- Along a dimension of size one no parameter of a planned domain has a stride. -/
theorem row_getD_of_one (hplanned : domain.Planned outputs) {table : OffsetTable}
    (h : ofDomain domain = .ok table) {p d : Nat} (hp : p < domain.params.length)
    (hd : table.master[d]? = some 1) : (table.row p).getD d 0 = 0 := by
  have hmaster : table.master = domain.master := by
    obtain ⟨-, h⟩ := Checked.require_bind_eq_ok.1 h
    obtain ⟨inputs, -, h⟩ := Checked.bind_eq_ok.1 h
    obtain ⟨targets, -, h⟩ := Checked.bind_eq_ok.1 h
    rw [← Checked.pure_eq_ok.1 h]
  have hrank : domain.params[p].length = domain.master.length := by
    rcases List.mem_append.1 (List.getElem_mem hp) with hmem | hmem
    · exact (hplanned.fits _ hmem).length_eq.symm
    · rw [hplanned.outputShapes] at hmem
      rw [List.eq_of_mem_replicate hmem]
  exact (Strides.ofShape_of_one hrank (ofShape_row hplanned h (List.getElem?_eq_getElem hp))).2 d
    (hmaster ▸ hd)

/-- **The table of a planned domain describes it.** -/
theorem describes_of_ofDomain (hplanned : domain.Planned outputs) (hpos : 0 < domain.elements)
    (hsmall : domain.elements < 0x8000000000000000) {flags : List Bool}
    (hflags : domain.broadcastFlags = .ok flags) {table : OffsetTable}
    (h : ofDomain domain = .ok table) : table.Describes domain flags := by
  obtain ⟨-, h⟩ := Checked.require_bind_eq_ok.1 h
  obtain ⟨inputs, hinputs, h⟩ := Checked.bind_eq_ok.1 h
  obtain ⟨targets, htargets, h⟩ := Checked.bind_eq_ok.1 h
  rw [Checked.pure_eq_ok] at h
  subst h
  have hlen := Checked.length_of_mapM hinputs
  have hlen' := Checked.length_of_mapM htargets
  have hleads : ∀ (p : Nat) (shape : Shape) (entry : List Int × Int),
      domain.params[p]? = some shape → (inputs ++ targets)[p]? = some entry →
      Leads domain shape (Domain.moves flags p) entry.1 entry.2 := by
    intro p shape entry hshape hentry
    rcases Nat.lt_or_ge p domain.inputShapes.length with hlt | hge
    · rw [Domain.params, List.getElem?_append_left hlt] at hshape
      rw [List.getElem?_append_left (by omega)] at hentry
      have hparam := Checked.getElem_of_mapM hinputs hlt (by omega)
      obtain ⟨_, rfl⟩ := List.getElem?_eq_some_iff.1 hshape
      obtain ⟨_, rfl⟩ := List.getElem?_eq_some_iff.1 hentry
      exact leads_of_input hplanned hpos hsmall hflags (List.getElem?_eq_getElem hlt) hparam
    · rw [Domain.params, List.getElem?_append_right hge] at hshape
      rw [List.getElem?_append_right (by omega), hlen] at hentry
      obtain ⟨hlt, hget⟩ := List.getElem?_eq_some_iff.1 hshape
      obtain ⟨_, hget'⟩ := List.getElem?_eq_some_iff.1 hentry
      have hparam := Checked.getElem_of_mapM htargets hlt (by omega)
      have hmaster : shape = domain.master := by
        rw [hplanned.outputShapes] at hshape
        exact List.eq_of_mem_replicate (List.mem_of_getElem? hshape)
      rw [hget, hget', hmaster] at hparam
      rw [hmaster, moves_of_le (by rw [length_of_broadcastFlags hflags]; exact hge)]
      exact leads_of_output hplanned hpos hsmall hparam
  have hwidth : ∀ entry ∈ inputs ++ targets, entry.1.length = domain.master.length - 1 := by
    intro entry hentry
    obtain ⟨p, hp, rfl⟩ := List.getElem_of_mem hentry
    have hp' : p < domain.params.length := by
      rw [Domain.params, List.length_append, ← hlen, ← hlen', ← List.length_append]
      exact hp
    have hlength := (hleads p _ _ (List.getElem?_eq_getElem hp')
      (List.getElem?_eq_getElem hp)).length
    rwa [Domain.rowDims, List.length_dropLast] at hlength
  refine ⟨rfl, rfl, rfl, rfl, rfl, by simp [Domain.params, hlen, hlen'],
    fun p shape offset hshape hrow => ?_⟩
  rw [List.getElem?_map, Option.map_eq_some_iff] at hrow
  obtain ⟨entry, hentry, rfl⟩ := hrow
  rw [row, take_drop_flatMap hwidth hentry]
  exact hleads p shape entry hshape hentry

end OffsetTable

end Pointwise
