import Pointwise.Proofs.Offset.Total
import Pointwise.Region.Basic

/-!
# Addresses of broadcast elements

The byte offsets of a tensor number the elements that a broadcast reads from it: the strides times the
leading indices, and the last index in units of an element, make up the position of the element in the
tensor, in bytes. A tile that walks a row leaves its pointers behind what it has walked, and the row
offset takes them from there to the next row.

Both are statements about exact integers. They are what is computed as long as the intermediate results
are offsets, which is what `Strides.InRange` says of a shape.

## Main results

* `Strides.displacement_add_last` — the strides lead to the element that a broadcast reads.
* `Tile.walked_add_rowOffset` — the row offset closes the gap to the next row.
-/

set_option autoImplicit false

namespace Pointwise

namespace Strides

variable {front front' : Shape} {m d elemSize : Nat}

/-! ## The element that is read -/

/-- The position that is selected, by the last dimension and the others. -/
theorem flatten_select_concat {index : List Nat} {i : Nat} (hlen : front'.length = index.length) :
    Shape.flatten (front' ++ [d]) (Shape.select (front' ++ [d]) (index ++ [i])) =
      d * Shape.flatten front' (Shape.select front' index) + if d = 1 then 0 else i := by
  have hselect : Shape.select (front' ++ [d]) (index ++ [i]) =
      Shape.select front' index ++ [if d = 1 then 0 else i] := List.zipWith_append hlen
  rw [hselect, Shape.flatten_append (by simp [Shape.select, hlen])]
  simp [Shape.flatten, Nat.mul_comm]

/-- **The strides lead to the element that a broadcast reads.** The strides times the leading indices
and, unless the last dimension is one, the last index times the size of an element are together the bytes
in front of the element that is selected in the tensor.

**Proof sketch.** The strides are those of the leading dimensions, in units of a row of the tensor; by
induction from the last of them they lead to the start of the row. The last index is added within it. -/
theorem displacement_add_last (hfits : Shape.Fits (front ++ [m]) (front' ++ [d]))
    (hrange : InRange elemSize (front' ++ [d])) {index : List Nat} {i : Nat}
    (hindex : List.Forall₂ (· < ·) (index ++ [i]) (front ++ [m])) :
    ∃ strides, ofShape (front' ++ [d]) (front ++ [m]) elemSize = .ok strides ∧
      strides.length = front.length ∧
      displacement strides index + (if d = 1 then 0 else i * elemSize : Nat) =
        (elemSize * Shape.flatten (front' ++ [d])
          (Shape.select (front' ++ [d]) (index ++ [i])) : Nat) := by
  have hlen : front.length = front'.length := by simpa using hfits.length_eq
  have hlength : index.length = front.length := by simpa using hindex.length_eq
  -- an index below each size of the master leaves no room for empty dimensions
  have hmaster : 0 < Shape.count (front ++ [m]) := by
    refine Shape.count_pos.2 fun x hx => ?_
    obtain ⟨j, hj, rfl⟩ := List.getElem_of_mem hx
    exact Nat.zero_lt_of_lt (hindex.get (hindex.length_eq ▸ hj) hj)
  have hsmall := hrange.dim_lt (hfits.count_pos hmaster)
  obtain ⟨strides, hstrides⟩ := exists_ofShape_of_inRange (m := m) hlen hrange
  obtain ⟨hcount, hdisplacement⟩ :=
    displacement_select_of_ofShape hfits hlen hsmall hrange.elemSize_lt hstrides
  refine ⟨strides, hstrides, hcount, ?_⟩
  rw [hdisplacement index hlength, flatten_select_concat (hlen ▸ hlength.symm)]
  split <;>
  · push_cast
    ring

/-- The last element of a matrix that is the same for all planes of a master. -/
theorem displacement_add_last_of_plane :
    Shape.Fits ([2, 3] ++ [4]) ([1, 3] ++ [4]) ∧ InRange 4 ([1, 3] ++ [4]) ∧
      List.Forall₂ (· < ·) ([1, 2] ++ [3]) ([2, 3] ++ [4]) ∧
      ∃ strides, ofShape ([1, 3] ++ [4]) ([2, 3] ++ [4]) 4 = .ok strides ∧
        strides.length = [2, 3].length ∧
        displacement strides [1, 2] + (if 4 = 1 then 0 else 3 * 4 : Nat) =
          (4 * Shape.flatten ([1, 3] ++ [4]) (Shape.select ([1, 3] ++ [4]) ([1, 2] ++ [3])) : Nat) := by
  have hfits : Shape.Fits ([2, 3] ++ [4]) ([1, 3] ++ [4]) :=
    .cons (.inl rfl) (.cons (.inr rfl) (.cons (.inr rfl) .nil))
  have hindex : List.Forall₂ (· < ·) ([1, 2] ++ [3]) ([2, 3] ++ [4]) :=
    .cons (by decide) (.cons (by decide) (.cons (by decide) .nil))
  exact ⟨hfits, by decide, hindex, displacement_add_last hfits (by decide) hindex⟩

/-! ## The stride along the rows -/

/-- The last of the strides is that of the dimension in front of the last. -/
theorem exists_ofShape_of_pair {m' d' : Nat} (hfits : Shape.Fits (front ++ [m', m]) (front' ++ [d', d]))
    (hpos : 0 < Shape.count (front ++ [m', m])) (hrange : InRange elemSize (front' ++ [d', d])) :
    ∃ strides, ofShape (front' ++ [d', d]) (front ++ [m', m]) elemSize = .ok strides ∧
      Checked.getBack strides 1 = .ok (strideOf d' m' d * elemSize) ∧
      strides[front.length]? = some (strideOf d' m' d * elemSize) := by
  have hsplit : ∀ (list : Shape) (a b : Nat), list ++ [a, b] = (list ++ [a]) ++ [b] := by simp
  have hlen : front.length = front'.length := by simpa using hfits.length_eq
  have hsmall := hrange.dim_lt (hfits.count_pos hpos)
  obtain ⟨strides, hstrides⟩ :
      ∃ strides, ofShape (front' ++ [d', d]) (front ++ [m', m]) elemSize = .ok strides := by
    rw [hsplit front', hsplit front]
    exact exists_ofShape_of_inRange (by simp [hlen]) (hsplit front' d' d ▸ hrange)
  have hlast := last_of_ofShape hlen (hsmall d (by simp)) hrange.elemSize_lt hstrides
  refine ⟨strides, hstrides, hlast, ?_⟩
  rw [hsplit front', hsplit front] at hstrides hfits
  obtain ⟨hlength, -⟩ := displacement_select_of_ofShape hfits (by simp [hlen])
    (hsplit front' d' d ▸ hsmall) hrange.elemSize_lt hstrides
  obtain ⟨-, hget⟩ := Checked.getBack_eq_ok.1 hlast
  rwa [hlength, List.length_append, List.length_singleton, Nat.add_sub_cancel] at hget

end Strides

/-! ## The gap between two rows -/

namespace Tile

open Strides

section Advances

variable {tile : Tile} {param : Nat}

/-- An input moves with the tile unless its last dimension is one. -/
theorem advances_input {d : Nat} (hparam : param < tile.inputs) (hdim : tile.dims[param]? = some d) :
    tile.advances param = decide (d ≠ 1) := by
  rw [advances, hdim, decide_eq_false (by omega), Bool.false_or]
  by_cases hone : d = 1 <;> simp [hone]

/-- An output moves with the tile. -/
theorem advances_output (hparam : param ≥ tile.inputs) : tile.advances param = true := by
  simp [advances, hparam]

end Advances

/-- **The row offset closes the gap to the next row.** Behind a row a tile has moved an input by the row's
width unless its last dimension is one, and an output by the row's width in any case. Together with the
row offset this is the stride along the rows, the last of the strides.

**Proof sketch.** The row offset is found by comparing that stride with the size of an element. It is larger
for an input with rows of its own of several elements, which the tile has walked; the same for one with an
element per row, which the tile leaves in place; and zero for one whose single row the tile has walked, or
whose single element it has left in place. -/
theorem walked_add_rowOffset {front front' : Shape} {m' m d' d elemSize : Nat} (tile : Tile)
    (hfits : Shape.Fits (front ++ [m', m]) (front' ++ [d', d])) (hpos : ∀ x ∈ front ++ [m', m], 0 < x)
    (hrows : 2 ≤ m') (helem : 0 < elemSize) :
    (∀ param < tile.inputs, tile.dims[param]? = some d → InRange elemSize (front' ++ [d', d]) →
      rowAdvance (tile.advances param) m elemSize ≤ 0x8000000000000000 →
      ∃ strides offset, ofShape (front' ++ [d', d]) (front ++ [m', m]) elemSize = .ok strides ∧
        inputRowOffset (front' ++ [d', d]) (front ++ [m', m]) strides elemSize = .ok offset ∧
        strides[front.length]? = some (rowAdvance (tile.advances param) m elemSize + offset) ∧
        rowAdvance (tile.advances param) m elemSize + offset =
          (if d' = 1 then 0 else d * elemSize : Nat)) ∧
    (∀ param ≥ tile.inputs, InRange elemSize (front ++ [m', m]) →
      ∃ strides offset, ofShape (front ++ [m', m]) (front ++ [m', m]) elemSize = .ok strides ∧
        outputRowOffset (front ++ [m', m]) strides elemSize = .ok offset ∧
        strides[front.length]? = some (rowAdvance (tile.advances param) m elemSize + offset) ∧
        rowAdvance (tile.advances param) m elemSize + offset = (m * elemSize : Nat)) := by
  have hlen : front.length = front'.length := by simpa using hfits.length_eq
  have hcount := Shape.count_pos.2 hpos
  have hstrideOf : ∀ e, strideOf m' m' e = e := fun e => if_pos ⟨rfl, by omega⟩
  constructor
  · intro param hparam hdim hrange hwalked
    rw [advances_input hparam hdim] at hwalked ⊢
    have hsmall := hrange.dim_lt (hfits.count_pos hcount)
    have hd := Shape.count_pos.1 (hfits.count_pos hcount) d (by simp)
    obtain ⟨_, _, _, heq, -, houter, hinner⟩ := hfits.of_append_pair
    obtain ⟨-, rfl, rfl⟩ := Shape.append_pair_inj heq
    obtain ⟨strides, hstrides, hlast, hget⟩ := exists_ofShape_of_pair hfits hcount hrange
    have hwidth : d ≠ 1 → m < 0x8000000000000000 ∧ m * elemSize ≤ 0x8000000000000000 := by
      intro hne
      obtain rfl := hinner.resolve_left hne
      rw [rowAdvance, if_pos (by simpa using hne)] at hwalked
      exact ⟨hsmall d (by simp), by exact_mod_cast hwalked⟩
    obtain ⟨offset, hoffset⟩ := exists_inputRowOffset hlen hwidth hrange.elemSize_lt hlast
    have hsum := rowAdvance_add_inputRowOffset hlen houter hinner (by omega) hd
      (fun hne => (hwidth hne).1) helem hrange.elemSize_lt hlast hoffset
    refine ⟨strides, offset, hstrides, hoffset, by rw [hget, hsum], hsum.trans ?_⟩
    split
    · rename_i hone
      rw [strideOf, if_neg (by omega), zero_mul, Nat.cast_zero]
    · rename_i hne
      rw [houter.resolve_left hne, hstrideOf, Nat.cast_mul]
  · intro param hparam hrange
    rw [advances_output hparam]
    obtain ⟨strides, hstrides, hlast, hget⟩ :=
      exists_ofShape_of_pair (Shape.fits_self _) hcount hrange
    rw [hstrideOf] at hlast hget
    have hwidth : m * elemSize < 0x8000000000000000 := by
      simpa using hrange.of_append.2.1 (by omega)
    obtain ⟨offset, hoffset⟩ :
        ∃ offset, outputRowOffset (front ++ [m', m]) strides elemSize = .ok offset :=
      exists_outputRowOffset hwidth hlast ⟨by positivity, by exact_mod_cast hwidth⟩
    have hsum := rowAdvance_add_outputRowOffset hwidth hlast hoffset
    exact ⟨strides, offset, hstrides, hoffset, by rw [hget, hsum],
      by rw [hsum, Nat.cast_mul]⟩

/-- A row that is read again for each row of the master, and a row of the master. -/
theorem walked_add_rowOffset_of_row :
    Shape.Fits ([3] ++ [2, 8]) ([3] ++ [1, 8]) ∧ (∀ x ∈ [3] ++ [2, 8], 0 < x) ∧
      InRange 4 ([3] ++ [1, 8]) ∧ InRange 4 ([3] ++ [2, 8]) ∧
      (∃ strides offset, ofShape ([3] ++ [1, 8]) ([3] ++ [2, 8]) 4 = .ok strides ∧
        inputRowOffset ([3] ++ [1, 8]) ([3] ++ [2, 8]) strides 4 = .ok offset ∧
        strides[1]? = some (rowAdvance (Tile.advances ⟨8, 1, [8, 8], 4⟩ 0) 8 4 + offset) ∧
        rowAdvance (Tile.advances ⟨8, 1, [8, 8], 4⟩ 0) 8 4 + offset =
          (if 1 = 1 then 0 else 8 * 4 : Nat)) ∧
      ∃ strides offset, ofShape ([3] ++ [2, 8]) ([3] ++ [2, 8]) 4 = .ok strides ∧
        outputRowOffset ([3] ++ [2, 8]) strides 4 = .ok offset ∧
        strides[1]? = some (rowAdvance (Tile.advances ⟨8, 1, [8, 8], 4⟩ 1) 8 4 + offset) ∧
        rowAdvance (Tile.advances ⟨8, 1, [8, 8], 4⟩ 1) 8 4 + offset = (8 * 4 : Nat) := by
  have hfits : Shape.Fits ([3] ++ [2, 8]) ([3] ++ [1, 8]) :=
    .cons (.inr rfl) (.cons (.inl rfl) (.cons (.inr rfl) .nil))
  have hsum := walked_add_rowOffset ⟨8, 1, [8, 8], 4⟩ hfits (by decide) (by decide)
    (by decide : 0 < 4)
  exact ⟨hfits, by decide, by decide, by decide,
    hsum.1 0 (by decide) rfl (by decide) (by decide), hsum.2 1 (by decide) (by decide)⟩

end Tile

end Pointwise
