import Pointwise.Proofs.Offset.Total
import Pointwise.Proofs.Raises

/-!
# Offset tables out of range

The table of a planned domain is made by looking up sizes, which are all there, and by arithmetic on
offsets, which can overflow. That an offset is out of range is thus the only cause for which there is no
table, and the bytes of the domain's extent can then not be numbered by offsets.

## Main results

* `Strides.raises_ofShape`, `Strides.raises_inputRowOffset`, `Strides.raises_outputRowOffset` — the
  offsets of one parameter.
* `OffsetTable.raises_ofDomain` — the table of a planned domain.
-/

set_option autoImplicit false

namespace Pointwise

namespace Strides

variable {shape master : Shape} {strides : List Int} {elemSize : Nat}

/-- The strides in elements. -/
theorem raises_elements (inner : Int) (dims : List (Nat × Nat)) :
    Checked.Raises (· = .fault .overflow) (elements inner dims) := by
  induction dims with
  | nil => exact .of_ok rfl
  | cons dim dims ih =>
    exact ih.bind fun _ _ => (Checked.Raises.offset _).bind fun _ _ => .of_ok rfl

/-- The strides in bytes. -/
theorem raises_ofShape (hlen : shape.length = master.length) (hne : master ≠ []) :
    Checked.Raises (· = .fault .overflow) (ofShape shape master elemSize) := by
  have hpos := List.length_pos_iff.2 hne
  refine Checked.Raises.bind (.of_ok (Checked.sub_eq_ok.2 ⟨hpos, rfl⟩)) fun last hlast => ?_
  obtain ⟨-, rfl⟩ := Checked.sub_eq_ok.1 hlast
  refine (Checked.Raises.get (by omega)).bind fun inner _ => (raises_elements _ _).bind fun _ _ => ?_
  exact .mapM fun _ _ => .offset _

/-- The row offset of an input. -/
theorem raises_inputRowOffset (hlen : shape.length = master.length) (hrank : 2 ≤ master.length)
    (hne : strides ≠ []) :
    Checked.Raises (· = .fault .overflow) (inputRowOffset shape master strides elemSize) := by
  refine (Checked.Raises.getBack Nat.one_pos (List.length_pos_iff.2 hne)).bind fun stride _ => ?_
  split
  · exact .of_ok rfl
  · split
    · exact .of_ok rfl
    · refine (Checked.Raises.getBack Nat.two_pos (by omega)).bind fun outer _ =>
        (Checked.Raises.get (by omega)).bind fun rows _ => ?_
      split
      · exact .of_ok rfl
      · refine (Checked.Raises.getBack Nat.one_pos (by omega)).bind fun inner _ => ?_
        split
        · exact .of_ok rfl
        · exact (Checked.Raises.get (by omega)).bind fun width _ =>
            (Checked.Raises.offset _).bind fun _ _ => .offset _

/-- The row offset of an output. -/
theorem raises_outputRowOffset (hrank : 2 ≤ master.length) (hne : strides ≠ []) :
    Checked.Raises (· = .fault .overflow) (outputRowOffset master strides elemSize) :=
  (Checked.Raises.getBack Nat.one_pos (List.length_pos_iff.2 hne)).bind fun _ _ =>
    (Checked.Raises.getBack Nat.one_pos (by omega)).bind fun _ _ =>
      (Checked.Raises.mul _ _).bind fun _ _ => .offset _

end Strides

namespace OffsetTable

variable {domain : Domain} {outputs : Nat}

/-- The offsets of an operand fail like its row offset. -/
theorem raises_param {master shape : Shape} {tileRank : Nat} {rowOffset : List Int → Except Error Int}
    (hlen : shape.length = master.length) (hrank : 2 ≤ master.length)
    (hrow : ∀ strides : List Int, strides ≠ [] →
      Checked.Raises (· = .fault .overflow) (rowOffset strides)) :
    Checked.Raises (· = .fault .overflow) (param master tileRank shape rowOffset) := by
  refine (Strides.raises_ofShape hlen (List.ne_nil_of_length_pos (by omega))).bind
    fun strides hstrides => ?_
  have hlength := (Strides.ofShape_of_one hlen hstrides).1
  dsimp only
  split
  · exact (hrow strides (List.ne_nil_of_length_pos (by omega))).bind fun _ _ => .of_ok rfl
  · exact .of_ok rfl

/-- **The table of a planned domain** is out of reach only if an offset overflows, and if the bytes of the
domain's extent can not be numbered by offsets. -/
theorem raises_ofDomain (hplanned : domain.Planned outputs) :
    Checked.Raises (fun cause => cause = .fault .overflow ∧
      0x8000000000000000 ≤ Shape.extent domain.master * elementSize) (ofDomain domain) := by
  refine Checked.Raises.and ?_ fun hbytes => exists_ofDomain_of_extent hplanned (Nat.not_le.1 hbytes)
  have hrank := hplanned.rank
  rw [tensorRank] at hrank
  refine Checked.Raises.bind (.of_ok (require_eq_ok.2 (List.ne_nil_of_length_pos (by omega))))
    fun _ _ => Checked.Raises.bind (.mapM fun shape hshape => ?_) fun _ _ =>
      Checked.Raises.bind (.mapM fun shape hshape => ?_) fun _ _ => .of_ok rfl
  · have hlen := (hplanned.fits shape hshape).length_eq.symm
    exact raises_param hlen (by omega) fun _ hne => Strides.raises_inputRowOffset hlen (by omega) hne
  · rw [hplanned.outputShapes] at hshape
    rw [List.eq_of_mem_replicate hshape]
    exact raises_param rfl (by omega) fun _ hne => Strides.raises_outputRowOffset (by omega) hne

end OffsetTable

end Pointwise
