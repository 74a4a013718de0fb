import Pointwise.Proofs.Limited
import Pointwise.Proofs.Offset.Table

/-!
# Offset tables in range

If the bytes of a planned domain's extent can be numbered by offsets, all offsets of its table can be
computed: every intermediate result is at most the number of these bytes. With elements, these are the
bytes of an output.

## Main definitions

* `Strides.InRange` — the numbers that the strides of a shape are computed from are offsets.

## Main results

* `Strides.exists_ofShape_of_inRange` — a shape in range has strides.
* `OffsetTable.exists_ofDomain_of_extent` — a planned domain has a table.
-/

set_option autoImplicit false

namespace Pointwise

namespace Strides

/-- The numbers that the strides of a shape are computed from are offsets: the elements of each part of
the shape, the bytes of the strides that are not zero, and the size of an element. -/
def InRange (elemSize : Nat) : Shape → Prop
  | [] => elemSize < 0x8000000000000000
  | d :: dims => d * Shape.count dims < 0x8000000000000000 ∧
      (d ≠ 1 → Shape.count dims * elemSize < 0x8000000000000000) ∧ InRange elemSize dims

instance InRange.decidable (elemSize : Nat) : (shape : Shape) → Decidable (InRange elemSize shape)
  | [] => inferInstanceAs (Decidable (_ < _))
  | d :: dims =>
    have := InRange.decidable elemSize dims
    inferInstanceAs (Decidable (d * Shape.count dims < 0x8000000000000000 ∧ (d ≠ 1 → _ < _) ∧ _))

variable {front front' : Shape} {m d elemSize : Nat}

theorem InRange.elemSize_lt {shape : Shape} (h : InRange elemSize shape) :
    elemSize < 0x8000000000000000 := by
  induction shape with
  | nil => exact h
  | cons d dims ih => exact ih h.2.2

/-- The trailing dimensions of a shape in range. -/
theorem InRange.of_append {shape : Shape} (h : InRange elemSize (front ++ shape)) :
    InRange elemSize shape := by
  induction front with
  | nil => exact h
  | cons d dims ih => exact ih h.2.2

/-- The dimensions of a shape in range are offsets, if it has elements. -/
theorem InRange.dim_lt {shape : Shape} (h : InRange elemSize shape) (hpos : 0 < Shape.count shape) :
    ∀ d ∈ shape, d < 0x8000000000000000 := by
  induction shape with
  | nil => simp
  | cons d dims ih =>
    rw [Shape.count_cons_pos] at hpos
    rw [List.forall_mem_cons]
    exact ⟨(Nat.le_mul_of_pos_right d hpos.2).trans_lt h.1, ih h.2.2 hpos.2⟩

/-- A shape is in range if the bytes of its extent are offsets. -/
theorem inRange_of_extent {shape : Shape} (helem : 0 < elemSize)
    (h : Shape.extent shape * elemSize < 0x8000000000000000) : InRange elemSize shape := by
  induction shape with
  | nil => simpa [InRange] using h
  | cons d dims ih =>
    have hcount : d * Shape.count dims ≤ Shape.extent (d :: dims) :=
      Shape.count_le_extent (d :: dims)
    have hextent : Shape.extent dims ≤ Shape.extent (d :: dims) := by
      rw [Shape.extent_cons]
      exact Nat.le_mul_of_pos_left _ (by omega)
    have hbytes : Shape.extent (d :: dims) ≤ Shape.extent (d :: dims) * elemSize :=
      Nat.le_mul_of_pos_right _ helem
    have hrest : Shape.extent dims * elemSize ≤ Shape.extent (d :: dims) * elemSize :=
      Nat.mul_le_mul_right _ hextent
    have hstride : Shape.count dims * elemSize ≤ Shape.extent dims * elemSize :=
      Nat.mul_le_mul_right _ (Shape.count_le_extent dims)
    exact ⟨by omega, fun _ => by omega, ih (by omega)⟩

/-- **Strides in elements of a shape in range**: the bytes of each of them are an offset. -/
theorem exists_elements {shape master : Shape} (hlen : shape.length = master.length)
    (h : InRange elemSize (shape ++ [d])) :
    ∃ strides, elements (Checked.toOffset d) (shape.zip master) =
        .ok (strides, (Shape.count (shape ++ [d]) : Nat)) ∧
      ∀ stride ∈ strides, ∃ n : Nat, stride = n ∧ n * elemSize < 0x8000000000000000 := by
  induction shape generalizing master with
  | nil =>
    obtain rfl : master = [] := List.length_eq_zero_iff.1 hlen.symm
    obtain ⟨hd, -⟩ : InRange elemSize [d] := h
    refine ⟨[], ?_, by simp⟩
    rw [Shape.count, Nat.mul_one] at hd
    simp [elements, pure, Except.pure, Checked.toOffset_of_lt hd]
  | cons e shape ih =>
    cases master with
    | nil => simp at hlen
    | cons n master =>
      obtain ⟨hcount, hbytes, hrest⟩ := h
      obtain ⟨strides, hstrides, hall⟩ := ih (by simpa using hlen) hrest
      have hmul : Checked.mulOffset (Shape.count (shape ++ [d]) : Nat) (Checked.toOffset e) =
          .ok (Shape.count (e :: (shape ++ [d])) : Nat) := by
        rw [Checked.mulOffset, Checked.offset_eq_ok, Shape.count_cons]
        rcases Nat.eq_zero_or_pos (Shape.count (shape ++ [d])) with hzero | hpos
        · simp [hzero]
        · have he : e < 0x8000000000000000 :=
            (Nat.le_mul_of_pos_right e hpos).trans_lt hcount
          have heq : (Shape.count (shape ++ [d]) : Int) * e =
              (e * Shape.count (shape ++ [d]) : Nat) := by
            push_cast
            ring
          rw [Checked.toOffset_of_lt he, heq]
          exact ⟨rfl, by omega, by exact_mod_cast hcount⟩
      refine ⟨_, elements_cons_eq_ok.2 ⟨strides, _, hstrides, rfl, hmul⟩, ?_⟩
      rw [List.forall_mem_cons]
      refine ⟨?_, hall⟩
      unfold strideOf
      split
      · rename_i hsame
        exact ⟨_, rfl, hbytes (by omega)⟩
      · exact ⟨0, rfl, by omega⟩

/-- **A shape in range has strides.** -/
theorem exists_ofShape_of_inRange (hlen : front.length = front'.length)
    (h : InRange elemSize (front' ++ [d])) :
    ∃ strides, ofShape (front' ++ [d]) (front ++ [m]) elemSize = .ok strides := by
  obtain ⟨strides, hstrides, hall⟩ := exists_elements hlen.symm h
  have hbytes : ∀ stride ∈ strides, ∃ bytes,
      Checked.mulOffset stride (Checked.toOffset elemSize) = .ok bytes := by
    intro stride hstride
    obtain ⟨n, rfl, hn⟩ := hall stride hstride
    have hnonneg : (0 : Int) ≤ n * elemSize := by positivity
    rw [Checked.toOffset_of_lt h.elemSize_lt]
    exact ⟨_, Checked.offset_eq_ok.2 ⟨rfl, by omega, by exact_mod_cast hn⟩⟩
  obtain ⟨bytes, hmapM⟩ := Checked.exists_mapM hbytes
  exact ⟨bytes, (ofShape_concat_eq_ok hlen).2 ⟨strides, _, hstrides, hmapM⟩⟩

/-- The strides of an operand are in range if the bytes of its extent are. -/
theorem exists_ofShape (hlen : front.length = front'.length) (helem : 0 < elemSize)
    (hlt : Shape.extent (front' ++ [d]) * elemSize < 0x8000000000000000) :
    ∃ strides, ofShape (front' ++ [d]) (front ++ [m]) elemSize = .ok strides :=
  exists_ofShape_of_inRange hlen (inRange_of_extent helem hlt)

variable {m' d' : Nat} {strides : List Int} {stride : Int}

/-- The row offset of an input is in range. -/
theorem exists_inputRowOffset (hlen : front.length = front'.length)
    (hm : d ≠ 1 → m < 0x8000000000000000 ∧ m * elemSize ≤ 0x8000000000000000)
    (helem : elemSize < 0x8000000000000000) (hstride : Checked.getBack strides 1 = .ok stride) :
    ∃ offset, inputRowOffset (front' ++ [d', d]) (front ++ [m', m]) strides elemSize = .ok offset := by
  have hrow : Checked.get (front ++ [m', m]) ((front' ++ [d', d]).length - 2) = .ok m' := by
    simp [hlen]
  have hwidth : Checked.get (front ++ [m', m]) ((front' ++ [d', d]).length - 1) = .ok m := by
    simp [hlen]
  rw [inputRowOffset, hstride, Checked.ok_bind]
  split
  · exact ⟨0, rfl⟩
  · split
    · exact ⟨_, rfl⟩
    · rw [Checked.getBack_concat_two, Checked.ok_bind, hrow, Checked.ok_bind]
      split
      · exact ⟨0, rfl⟩
      · rw [Checked.getBack_pair_one, Checked.ok_bind]
        split
        · exact ⟨0, rfl⟩
        · rename_i hne
          obtain ⟨hm, hbytes⟩ := hm hne
          have hneg : (-m : Int) * elemSize = -(m * elemSize : Nat) := by
            push_cast
            ring
          rw [hwidth, Checked.ok_bind, Checked.toOffset_of_lt hm, Checked.negOffset,
            Checked.offset_eq_ok.2 ⟨rfl, by omega, by omega⟩, Checked.ok_bind,
            Checked.toOffset_of_lt helem]
          exact ⟨_, Checked.offset_eq_ok.2 ⟨rfl, by omega, by omega⟩⟩

/-- The row offset of an output is in range. -/
theorem exists_outputRowOffset (hm : m * elemSize < 0x8000000000000000)
    (hstride : Checked.getBack strides 1 = .ok stride)
    (hrange : 0 ≤ stride ∧ stride < 0x8000000000000000) :
    ∃ offset, outputRowOffset (front ++ [m', m]) strides elemSize = .ok offset := by
  rw [outputRowOffset, hstride, Checked.ok_bind, Checked.getBack_pair_one, Checked.ok_bind,
    Checked.mul_eq_ok.2 ⟨rfl, by omega⟩, Checked.ok_bind, Checked.toOffset_of_lt hm]
  exact ⟨_, Checked.offset_eq_ok.2 ⟨rfl, by omega, by omega⟩⟩

end Strides

/-! ## The table of a planned domain -/

namespace OffsetTable

variable {domain : Domain} {outputs : Nat}

/-- The offsets of an operand are in range if its row offset is. -/
theorem exists_param (hplanned : domain.Planned outputs)
    (hbytes : Shape.extent domain.master * elementSize < 0x8000000000000000) {shape : Shape}
    (hfits : Shape.Fits domain.master shape) {rowOffset : List Int → Except Error Int}
    (hrow : ∀ front front' m' d' m d, domain.master = front ++ [m', m] → shape = front' ++ [d', d] →
      front.length = front'.length → m * elementSize < 0x8000000000000000 →
      ∀ strides stride, Checked.getBack strides 1 = .ok stride → 0 ≤ stride →
        stride < 0x8000000000000000 → ∃ offset, rowOffset strides = .ok offset) :
    ∃ entry, param domain.master domain.tileRank shape rowOffset = .ok entry := by
  have hrank := hplanned.rank
  rw [tensorRank] at hrank
  obtain ⟨front, m', m, hmaster⟩ : ∃ front m' m, domain.master = front ++ [m', m] :=
    Shape.exists_eq_append_pair (by omega)
  have hle := hfits.extent_le
  rw [hmaster] at hfits
  obtain ⟨front', d', d, rfl, hfront, -, hd⟩ := hfits.of_append_pair
  have hlen := hfront.length_eq
  have hsplit : ∀ (list : Shape) (a b : Nat), list ++ [a, b] = (list ++ [a]) ++ [b] := by simp
  have hsize : Shape.extent (front' ++ [d', d]) * elementSize < 0x8000000000000000 :=
    (Nat.mul_le_mul_right _ hle).trans_lt hbytes
  have hdle : d ≤ Shape.extent (front' ++ [d', d]) := Shape.le_extent (by simp)
  have hmle : m ≤ Shape.extent domain.master := Shape.le_extent (by simp [hmaster])
  rw [elementSize] at hsize hbytes
  obtain ⟨strides, hstrides⟩ : ∃ strides,
      Strides.ofShape (front' ++ [d', d]) domain.master elementSize = .ok strides := by
    rw [hmaster, hsplit, hsplit]
    rw [hsplit] at hsize
    exact Strides.exists_ofShape (by simp [hlen]) (by decide) hsize
  have hlast := Strides.last_of_ofShape hlen (by omega) (by decide) (hmaster ▸ hstrides)
  have hmem := List.mem_of_getElem? (Checked.getBack_eq_ok.1 hlast).2
  have hnonneg : 0 ≤ Strides.strideOf d' m' d * (elementSize : Int) := by
    unfold Strides.strideOf
    split <;> positivity
  obtain ⟨offset, hoffset⟩ := hrow front front' m' d' m d hmaster rfl hlen
    (by rw [elementSize]; omega) strides _ hlast hnonneg (Strides.lt_of_ofShape hstrides _ hmem)
  by_cases htile : 1 < domain.tileRank
  · exact ⟨(strides, offset), param_eq_ok.2 ⟨hstrides, by rw [if_pos htile]; exact hoffset⟩⟩
  · exact ⟨(strides, 0), param_eq_ok.2 ⟨hstrides, by rw [if_neg htile]; rfl⟩⟩

/-- **A planned domain has a table**, if the bytes of its extent can be numbered by offsets. -/
theorem exists_ofDomain_of_extent (hplanned : domain.Planned outputs)
    (hbytes : Shape.extent domain.master * elementSize < 0x8000000000000000) :
    ∃ table, ofDomain domain = .ok table := by
  have hmaster : domain.master ≠ [] := by
    have hrank := hplanned.rank
    rw [tensorRank] at hrank
    exact List.ne_nil_of_length_pos (by omega)
  obtain ⟨inputs, hinputs⟩ : ∃ inputs, (domain.inputShapes.mapM fun shape =>
      param domain.master domain.tileRank shape fun strides =>
        Strides.inputRowOffset shape domain.master strides elementSize) = .ok inputs := by
    refine Checked.exists_mapM fun shape hshape => ?_
    refine exists_param hplanned hbytes (hplanned.fits shape hshape) ?_
    rintro front front' m' d' m d hmaster rfl hlen hm strides stride hstride - -
    rw [hmaster]
    have hm' : m < 0x8000000000000000 := (Nat.le_mul_of_pos_right m (by decide)).trans_lt hm
    exact Strides.exists_inputRowOffset hlen (fun _ => ⟨hm', hm.le⟩) (by decide) hstride
  obtain ⟨targets, htargets⟩ : ∃ targets, (domain.outputShapes.mapM fun shape =>
      param domain.master domain.tileRank shape fun strides =>
        Strides.outputRowOffset domain.master strides elementSize) = .ok targets := by
    refine Checked.exists_mapM fun shape hshape => ?_
    rw [hplanned.outputShapes] at hshape
    rw [List.eq_of_mem_replicate hshape]
    refine exists_param hplanned hbytes (Shape.fits_self _) ?_
    rintro front front' m' d' m d hmaster - - hm strides stride hstride hnonneg hlt
    rw [hmaster]
    exact Strides.exists_outputRowOffset hm hstride ⟨hnonneg, hlt⟩
  rw [ofDomain, require_eq_ok.2 hmaster, Checked.ok_bind, hinputs, Checked.ok_bind, htargets]
  exact ⟨_, rfl⟩

/-- A planned domain with elements has a table, if the bytes of its outputs can be numbered by
offsets. -/
theorem exists_ofDomain (hplanned : domain.Planned outputs) (hpos : 0 < domain.elements)
    (hbytes : domain.elements * elementSize < 0x8000000000000000) :
    ∃ table, ofDomain domain = .ok table := by
  rw [hplanned.elements] at hpos hbytes
  exact exists_ofDomain_of_extent hplanned (by rwa [Shape.extent_eq_count hpos])

end OffsetTable

end Pointwise
