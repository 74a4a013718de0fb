import Mathlib.Tactic.Linarith
import Pointwise.Offset.Strides
import Pointwise.Proofs.Domain.Collapse

/-!
# Strides lead to the elements that a broadcast reads

The sum of strides times indices is the byte offset of the element that the broadcast reads at the
start of a row, and the row offset closes the gap between the end of a row, as a kernel walks it,
and the start of the next one.

## Main definitions

* `Strides.displacement` — the sum of strides times indices.
* `Strides.rowAdvance` — the bytes by which a pointer moves while a row is walked.

## Main results

* `Strides.displacement_select_of_ofShape`, `Strides.displacement_of_ofShape` — the displacement of an
  index vector and of a row's indices.
* `Strides.last_of_ofShape` — the stride along the rows.
* `Strides.rowAdvance_add_inputRowOffset`, `Strides.rowAdvance_add_outputRowOffset` — a row's
  advance and the row offset make up the stride along the rows.
-/

set_option autoImplicit false

namespace Pointwise.Strides

/-- The sum of strides times indices. -/
def displacement : (strides : List Int) → (index : List Nat) → Int
  | stride :: strides, i :: index => stride * i + displacement strides index
  | _, _ => 0

@[simp] theorem displacement_nil (index : List Nat) : displacement [] index = 0 := rfl

@[simp] theorem displacement_cons (stride : Int) (strides : List Int) (i : Nat)
    (index : List Nat) :
    displacement (stride :: strides) (i :: index) = stride * i + displacement strides index :=
  rfl

/-- Scaled strides displace by the scaled amount. -/
theorem displacement_map_mul (strides : List Int) (index : List Nat) (factor : Int) :
    displacement (strides.map (· * factor)) index = displacement strides index * factor := by
  induction strides generalizing index with
  | nil => simp
  | cons stride strides ih =>
    cases index with
    | nil => simp [displacement]
    | cons i index =>
      rw [List.map_cons, displacement_cons, displacement_cons, ih]
      ring

/-! ## Strides of the leading dimensions -/

/-- The stride of a dimension, given the number of elements behind it: none if the tensor is
broadcast along the dimension or there is only one index. -/
def strideOf (dim master : Nat) (behind : Int) : Int :=
  if dim = master ∧ master ≠ 1 then behind else 0

/-- One more dimension in front. -/
theorem elements_cons_eq_ok {inner : Int} {dim master : Nat} {pairs : List (Nat × Nat)}
    {strides : List Int} {behind : Int} :
    elements inner ((dim, master) :: pairs) = .ok (strides, behind) ↔
      ∃ rest behind', elements inner pairs = .ok (rest, behind') ∧
        strides = strideOf dim master behind' :: rest ∧
        Checked.mulOffset behind' (Checked.toOffset dim) = .ok behind := by
  simp only [elements, Checked.bind_eq_ok, Checked.pure_eq_ok, Prod.mk.injEq, Prod.exists]
  constructor
  · rintro ⟨rest, behind', hrest, _, hmul, rfl, rfl⟩
    exact ⟨rest, behind', hrest, rfl, hmul⟩
  · rintro ⟨rest, behind', hrest, rfl, hmul⟩
    exact ⟨rest, behind', hrest, _, hmul, rfl, rfl⟩

/-- **Strides lead to the element that is selected.** The dimensions of an operand are walked with
strides in units of `inner` elements.

**Proof sketch.** Induction on the dimensions. Along a dimension of size one the stride is zero and
the operand is read at zero; along the others the stride is the number of elements behind. -/
theorem displacement_select {inner : Int} {master shape : Shape} {strides : List Int}
    {behind : Int} (hfits : Shape.Fits master shape) (hsmall : ∀ d ∈ shape, d < 0x8000000000000000)
    (h : elements inner (shape.zip master) = .ok (strides, behind)) :
    behind = inner * Shape.count shape ∧ strides.length = master.length ∧
      ∀ index : List Nat, index.length = master.length →
        displacement strides index = inner * Shape.flatten shape (Shape.select shape index) := by
  induction hfits generalizing strides behind with
  | nil =>
    simp only [elements, List.zip_nil_left, Checked.pure_eq_ok, Prod.mk.injEq] at h
    obtain ⟨rfl, rfl⟩ := h
    simp [Shape.flatten]
  | @cons m d master shape hd hrest ih =>
    rw [List.zip_cons_cons, elements_cons_eq_ok] at h
    obtain ⟨rest, behind', hrec, rfl, hmul⟩ := h
    rw [List.forall_mem_cons] at hsmall
    obtain ⟨hbehind, hlen, hdisplacement⟩ := ih hsmall.2 hrec
    rw [Checked.mulOffset, Checked.offset_eq_ok, Checked.toOffset_of_lt hsmall.1] at hmul
    refine ⟨?_, by simp [hlen], fun index hindex => ?_⟩
    · rw [← hmul.1, hbehind, Shape.count_cons]
      push_cast
      ring
    · obtain ⟨i, index, rfl⟩ : ∃ i rest, index = i :: rest :=
        List.exists_cons_of_length_pos (by rw [hindex]; exact Nat.succ_pos _)
      rw [displacement_cons, hdisplacement index (by simpa using hindex), hbehind, strideOf]
      simp only [Shape.select, List.zipWith_cons_cons, Shape.flatten]
      by_cases hone : d = 1
      · rw [if_neg (by omega), if_pos hone]
        simp
      · obtain rfl : d = m := hd.resolve_left hone
        rw [if_pos ⟨rfl, hone⟩, if_neg hone]
        push_cast
        ring

/-- The last stride is that of a dimension with `inner` elements behind it. -/
theorem getLast?_of_elements {inner : Int} {pairs : List (Nat × Nat)} {dim master : Nat}
    {strides : List Int} {behind : Int}
    (h : elements inner (pairs ++ [(dim, master)]) = .ok (strides, behind)) :
    strides.getLast? = some (strideOf dim master inner) := by
  induction pairs generalizing strides behind with
  | nil =>
    obtain ⟨rest, behind', hrest, rfl, -⟩ := elements_cons_eq_ok.1 h
    simp only [elements, Checked.pure_eq_ok, Prod.mk.injEq] at hrest
    obtain ⟨rfl, rfl⟩ := hrest
    rfl
  | cons pair pairs ih =>
    obtain ⟨rest, behind', hrest, rfl, -⟩ := elements_cons_eq_ok.1 h
    rw [List.getLast?_cons, ih hrest]
    rfl

/-- There is a stride for each dimension, and it is zero where the master has size one. -/
theorem elements_of_one {inner : Int} {pairs : List (Nat × Nat)} {strides : List Int} {behind : Int}
    (h : elements inner pairs = .ok (strides, behind)) :
    strides.length = pairs.length ∧
      ∀ d dim : Nat, pairs[d]? = some (dim, 1) → strides[d]? = some 0 := by
  induction pairs generalizing strides behind with
  | nil =>
    simp only [elements, Checked.pure_eq_ok, Prod.mk.injEq] at h
    simp [← h.1]
  | cons pair pairs ih =>
    obtain ⟨rest, behind', hrest, rfl, -⟩ := elements_cons_eq_ok.1 h
    obtain ⟨hlen, hzero⟩ := ih hrest
    refine ⟨by simp [hlen], fun d dim hd => ?_⟩
    cases d with
    | zero =>
      obtain rfl : pair = (dim, 1) := by simpa using hd
      simp [strideOf]
    | succ d => exact hzero d dim (by simpa using hd)

/-! ## Strides of a shape -/

section Shape

variable {front front' : Shape} {m d elemSize : Nat} {strides : List Int}

/-- The strides of a shape are those of its leading dimensions, in bytes. -/
theorem ofShape_concat_eq_ok (hlen : front.length = front'.length) :
    ofShape (front' ++ [d]) (front ++ [m]) elemSize = .ok strides ↔
      ∃ rest behind, elements (Checked.toOffset d) (front'.zip front) = .ok (rest, behind) ∧
        rest.mapM (Checked.mulOffset · (Checked.toOffset elemSize)) = .ok strides := by
  have hzip : ((front' ++ [d]).zip (front ++ [m])).take front.length = front'.zip front := by
    rw [List.zip_append hlen.symm]
    exact List.take_left' (by simp [hlen])
  have hget : Checked.get (front' ++ [d]) front.length = .ok d := by
    simp [hlen]
  simp only [ofShape, List.length_append, List.length_singleton, Checked.bind_eq_ok,
    Checked.sub_eq_ok, Nat.add_sub_cancel, Prod.exists]
  constructor
  · rintro ⟨-, ⟨-, rfl⟩, inner, hinner, rest, behind, hrest, h⟩
    rw [hget, Except.ok.injEq] at hinner
    subst hinner
    rw [hzip] at hrest
    exact ⟨rest, behind, hrest, h⟩
  · rintro ⟨rest, behind, hrest, h⟩
    exact ⟨_, ⟨by omega, rfl⟩, d, hget, rest, behind, by rwa [hzip], h⟩

/-- Strides in bytes are those in elements times the size of an element. -/
theorem map_of_mapM_mulOffset {rest : List Int} (hsmall : elemSize < 0x8000000000000000)
    (h : rest.mapM (Checked.mulOffset · (Checked.toOffset elemSize)) = .ok strides) :
    strides = rest.map (· * (elemSize : Int)) := by
  rw [Checked.mapM_eq_ok] at h
  induction h with
  | nil => rfl
  | cons hx _ ih =>
    rw [Checked.mulOffset, Checked.offset_eq_ok, Checked.toOffset_of_lt hsmall] at hx
    rw [List.map_cons, ← ih, hx.1]

/-- **The displacement of an index vector** without its last entry. It is the byte offset of the
element that is selected at the start of the row. -/
theorem displacement_select_of_ofShape (hfits : Shape.Fits (front ++ [m]) (front' ++ [d]))
    (hlen : front.length = front'.length) (hsmall : ∀ x ∈ front' ++ [d], x < 0x8000000000000000)
    (helem : elemSize < 0x8000000000000000)
    (h : ofShape (front' ++ [d]) (front ++ [m]) elemSize = .ok strides) :
    strides.length = front.length ∧ ∀ index : List Nat, index.length = front.length →
      displacement strides index =
        elemSize * (d * Shape.flatten front' (Shape.select front' index) : Nat) := by
  obtain ⟨rest, behind, hrest, hmul⟩ := (ofShape_concat_eq_ok hlen).1 h
  obtain ⟨-, hlength, hdisplacement⟩ := displacement_select hfits.front
    (fun x hx => hsmall x (by simp [hx])) hrest
  rw [map_of_mapM_mulOffset helem hmul]
  refine ⟨by simp [hlength], fun index hindex => ?_⟩
  rw [displacement_map_mul, hdisplacement index hindex, Checked.toOffset_of_lt (hsmall d (by simp))]
  push_cast
  ring

/-- **The displacement of a row's indices.** It is the byte offset of the element that is read at the
start of the row. -/
theorem displacement_of_ofShape (hfits : Shape.Fits (front ++ [m]) (front' ++ [d]))
    (hlen : front.length = front'.length) (hsmall : ∀ x ∈ front' ++ [d], x < 0x8000000000000000)
    (helem : elemSize < 0x8000000000000000)
    (h : ofShape (front' ++ [d]) (front ++ [m]) elemSize = .ok strides) :
    strides.length = front.length ∧ ∀ row, displacement strides (Shape.unravel front row) =
      elemSize * (d * Shape.sourcePosition front front' row : Nat) := by
  obtain ⟨hlength, hdisplacement⟩ := displacement_select_of_ofShape hfits hlen hsmall helem h
  refine ⟨hlength, fun row => ?_⟩
  rw [hdisplacement _ (Shape.length_unravel front row), Shape.sourcePosition_eq hlen]

/-- The stride along the rows. -/
theorem last_of_ofShape {m' d' : Nat} (hlen : front.length = front'.length)
    (hsmall : d < 0x8000000000000000) (helem : elemSize < 0x8000000000000000)
    (h : ofShape (front' ++ [d', d]) (front ++ [m', m]) elemSize = .ok strides) :
    Checked.getBack strides 1 = .ok (strideOf d' m' d * elemSize) := by
  have hsplit : ∀ (list : Shape) (a b : Nat), list ++ [a, b] = (list ++ [a]) ++ [b] := by simp
  rw [hsplit, hsplit front, ofShape_concat_eq_ok (by simp [hlen])] at h
  obtain ⟨rest, behind, hrest, hmul⟩ := h
  rw [List.zip_append hlen.symm, List.zip_cons_cons, List.zip_nil_left] at hrest
  have hlast := getLast?_of_elements hrest
  rw [map_of_mapM_mulOffset helem hmul]
  obtain ⟨init, rfl⟩ := List.getLast?_eq_some_iff.1 hlast
  rw [List.map_append, List.map_singleton, Checked.getBack_concat_one,
    Checked.toOffset_of_lt hsmall]

/-- **There is no stride along a dimension of size one**: the strides of a shape are one less than the
dimensions of the master, and zero where that has size one. -/
theorem ofShape_of_one {shape master : Shape} (hlen : shape.length = master.length)
    (h : ofShape shape master elemSize = .ok strides) :
    strides.length = master.length - 1 ∧ ∀ d, master[d]? = some 1 → strides.getD d 0 = 0 := by
  obtain ⟨last, hlast, hrest⟩ := Checked.bind_eq_ok.1 h
  obtain ⟨-, rfl⟩ := Checked.sub_eq_ok.1 hlast
  obtain ⟨inner, -, hrest⟩ := Checked.bind_eq_ok.1 hrest
  obtain ⟨⟨units, behind⟩, hunits, hbytes⟩ := Checked.bind_eq_ok.1 hrest
  dsimp only at hbytes
  obtain ⟨hcount, hzero⟩ := elements_of_one hunits
  have hlength : strides.length = master.length - 1 := by
    rw [Checked.length_of_mapM hbytes, hcount, List.length_take, List.length_zip]
    omega
  refine ⟨hlength, fun d hd => ?_⟩
  rcases Nat.lt_or_ge d strides.length with hlt | hge
  · obtain ⟨hmaster, hone⟩ := List.getElem?_eq_some_iff.1 hd
    have hunit : units[d]? = some 0 := by
      refine hzero d (shape.get ⟨d, by omega⟩) ?_
      rw [List.getElem?_take_of_lt (by omega), List.getElem?_eq_getElem (by simp; omega),
        List.getElem_zip, hone, List.get_eq_getElem]
    have hmul := Checked.getElem_of_mapM hbytes (i := d)
      (by rwa [Checked.length_of_mapM hbytes] at hlt) hlt
    rw [(List.getElem?_eq_some_iff.1 hunit).2, Checked.mulOffset, Checked.offset_eq_ok, zero_mul] at hmul
    rw [List.getD_eq_getElem?_getD, List.getElem?_eq_getElem hlt, Option.getD_some, ← hmul.1]
  · rw [List.getD_eq_getElem?_getD, List.getElem?_eq_none hge, Option.getD_none]

/-- Strides are offsets of 64 bits. -/
theorem lt_of_ofShape {shape master : Shape} (h : ofShape shape master elemSize = .ok strides) :
    ∀ stride ∈ strides, stride < 0x8000000000000000 := by
  obtain ⟨_, -, h⟩ := Checked.bind_eq_ok.1 h
  obtain ⟨_, -, h⟩ := Checked.bind_eq_ok.1 h
  obtain ⟨_, -, h⟩ := Checked.bind_eq_ok.1 h
  intro stride hstride
  obtain ⟨i, hi, rfl⟩ := List.getElem_of_mem hstride
  have hmul := Checked.getElem_of_mapM h (i := i) (by rwa [Checked.length_of_mapM h] at hi) hi
  rw [Checked.mulOffset, Checked.offset_eq_ok] at hmul
  omega

end Shape

/-! ## From row to row -/

/-- The bytes by which the pointer to a tensor moves while a row of `width` elements is walked. -/
def rowAdvance (moves : Bool) (width elemSize : Nat) : Int :=
  if moves then (width * elemSize : Nat) else 0

section Rows

variable {front front' : Shape} {m m' d d' elemSize : Nat} {strides : List Int} {offset : Int}

/-- The row offset of an input that has a row for each row of the master: one element, if its rows
are no longer than that. -/
theorem inputRowOffset_of_stride {shape master : Shape} (hd : 0 < d) (helem : 0 < elemSize)
    (helem' : elemSize < 0x8000000000000000) (hstride : Checked.getBack strides 1 = .ok (d * elemSize))
    (h : inputRowOffset shape master strides elemSize = .ok offset) :
    offset = if d = 1 then (elemSize : Int) else 0 := by
  have hpos : (0 : Int) < elemSize := by exact_mod_cast helem
  rw [inputRowOffset, hstride, Checked.ok_bind, Checked.toOffset_of_lt helem'] at h
  rcases eq_or_ne d 1 with rfl | hne
  · rw [Nat.cast_one, one_mul, if_neg (lt_irrefl _), if_pos rfl, Checked.pure_eq_ok] at h
    rw [if_pos rfl, h]
  · have hlt : (elemSize : Int) < d * elemSize :=
      lt_mul_of_one_lt_left hpos (by exact_mod_cast (by omega : 1 < d))
    rw [if_pos hlt, Checked.pure_eq_ok] at h
    rw [if_neg hne, h]

/-- The row offset of an input with a single row takes the pointer back over the row. -/
theorem rowAdvance_add_inputRowOffset_of_single_row (hlen : front.length = front'.length)
    (hrows : 1 < m') (hm : d ≠ 1 → m < 0x8000000000000000) (helem : 0 < elemSize)
    (helem' : elemSize < 0x8000000000000000) (hstride : Checked.getBack strides 1 = .ok 0)
    (h : inputRowOffset (front' ++ [1, d]) (front ++ [m', m]) strides elemSize = .ok offset) :
    rowAdvance (d ≠ 1) m elemSize + offset = 0 := by
  have hrow : Checked.get (front ++ [m', m]) ((front' ++ [1, d]).length - 2) = .ok m' := by
    simp [hlen]
  have hwidth : Checked.get (front ++ [m', m]) ((front' ++ [1, d]).length - 1) = .ok m := by
    simp [hlen]
  rw [inputRowOffset, hstride, Checked.ok_bind, Checked.toOffset_of_lt helem',
    if_neg (by omega), if_neg (by omega), Checked.getBack_concat_two, Checked.ok_bind, hrow,
    Checked.ok_bind, if_neg (by omega), Checked.getBack_pair_one, Checked.ok_bind] at h
  split at h
  · rename_i hone
    rw [Checked.pure_eq_ok] at h
    rw [← h, hone, rowAdvance, if_neg (by simp)]
    rfl
  · rename_i hne
    rw [hwidth, Checked.ok_bind] at h
    obtain ⟨back, hback, hoffset⟩ := Checked.bind_eq_ok.1 h
    rw [Checked.negOffset, Checked.offset_eq_ok, Checked.toOffset_of_lt (hm hne)] at hback
    rw [Checked.mulOffset, Checked.offset_eq_ok, ← hback.1] at hoffset
    rw [← hoffset.1, rowAdvance, if_pos (by simpa using hne)]
    push_cast
    ring

/-- **An input's advance and row offset make up its stride along the rows**, if there is more than
one row.

**Proof sketch.** An input that has a row of its own for each row of the master moves along the row,
or has one element per row. Otherwise it has a single row, which is walked again and again. -/
theorem rowAdvance_add_inputRowOffset (hlen : front.length = front'.length)
    (houter : d' = 1 ∨ d' = m') (hinner : d = 1 ∨ d = m) (hrows : 1 < m') (hd : 0 < d)
    (hm : d ≠ 1 → m < 0x8000000000000000) (helem : 0 < elemSize)
    (helem' : elemSize < 0x8000000000000000)
    (hstride : Checked.getBack strides 1 = .ok (strideOf d' m' d * elemSize))
    (h : inputRowOffset (front' ++ [d', d]) (front ++ [m', m]) strides elemSize = .ok offset) :
    rowAdvance (d ≠ 1) m elemSize + offset = strideOf d' m' d * elemSize := by
  rcases eq_or_ne d' m' with heq | hne
  · rw [strideOf, if_pos ⟨heq, by omega⟩] at hstride ⊢
    rw [inputRowOffset_of_stride hd helem helem' hstride h]
    rcases eq_or_ne d 1 with rfl | hd1
    · simp [rowAdvance]
    · obtain rfl := hinner.resolve_left hd1
      simp [rowAdvance, hd1]
  · obtain rfl := houter.resolve_right hne
    rw [strideOf, if_neg fun hcase => hne hcase.1, zero_mul] at hstride ⊢
    exact rowAdvance_add_inputRowOffset_of_single_row hlen hrows hm helem helem' hstride h

/-- **An output's advance and row offset make up its stride along the rows.** -/
theorem rowAdvance_add_outputRowOffset (hwidth : m * elemSize < 0x8000000000000000)
    {stride : Int} (hstride : Checked.getBack strides 1 = .ok stride)
    (h : outputRowOffset (front ++ [m', m]) strides elemSize = .ok offset) :
    rowAdvance true m elemSize + offset = stride := by
  obtain ⟨stride', hstride', walked, hwalked, h⟩ : ∃ stride', Checked.getBack strides 1 = .ok stride' ∧
      ∃ walked, Checked.mul m elemSize = .ok walked ∧
        Checked.subOffset stride' (Checked.toOffset walked) = .ok offset := by
    simpa only [outputRowOffset, Checked.bind_eq_ok, Checked.getBack_pair_one, Checked.ok_bind,
      exists_eq_left', Except.ok.injEq] using h
  rw [hstride, Except.ok.injEq] at hstride'
  subst hstride'
  obtain ⟨rfl, -⟩ := Checked.mul_eq_ok.1 hwalked
  rw [Checked.subOffset, Checked.offset_eq_ok, Checked.toOffset_of_lt hwidth] at h
  rw [rowAdvance, if_pos rfl, ← h.1]
  ring

end Rows

end Pointwise.Strides
