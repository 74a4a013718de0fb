import Pointwise.Offset.Block
import Pointwise.Proofs.Checked
import Pointwise.Proofs.Machine.Span

/-!
# Words of argument blocks

A kernel finds the words of its argument block by byte offsets. Each part of a block lies where the
offsets of the parts say.

## Main definitions

* `ArgumentBlock.WordAt` — the word at a byte offset of a block.
* `ArgumentBlock.address` — the address of a parameter in a block.

## Main results

* `ArgumentBlock.WordAt.readWord` — a block that is written to memory is found there.
* `ArgumentBlock.wordAt_slot` — the address of a parameter is found at its slot.
* `ArgumentBlock.wordAt_row`, `wordAt_stride`, `wordAt_outer`, `wordAt_inner` — the words of the
  other parts.
-/

set_option autoImplicit false

namespace Pointwise.ArgumentBlock

/-- The word at a byte offset of a block. -/
def WordAt (block : ArgumentBlock) (offset : Nat) (value : BitVec 64) : Prop :=
  ∃ i, offset = 8 * i ∧ block.words[i]? = some value

variable {block : ArgumentBlock}

/-- A word of a block lies within it. -/
theorem WordAt.add_le {offset : Nat} {value : BitVec 64} (h : block.WordAt offset value) :
    offset + 8 ≤ byteSize := by
  obtain ⟨i, rfl, hi⟩ := h
  obtain ⟨hlt, -⟩ := List.getElem?_eq_some_iff.1 hi
  have hlen := block.length_words
  omega

/-- An argument block that is written to memory is found there. -/
theorem WordAt.readWord {offset : Nat} {value : BitVec 64}
    (h : block.WordAt offset value) (memory : Memory) (a : Address) :
    (memory.writeWords a block.words).readWord (a + BitVec.ofNat 64 offset) = value := by
  obtain ⟨i, rfl, hi⟩ := h
  obtain ⟨hlt, rfl⟩ := List.getElem?_eq_some_iff.1 hi
  have hlen := block.length_words
  have hsize : byteSize ≤ 2 ^ 64 := by decide
  exact Memory.readWord_writeWords (by omega) hlt

/-- The addresses of the inputs. -/
theorem wordAt_source {p : Nat} (hp : p < maxParams) :
    block.WordAt (sourcesAt + p * 8) block.sources[p] := by
  refine ⟨p, by rw [sourcesAt]; omega, ?_⟩
  rw [words, List.append_assoc, List.getElem?_append_left (by simpa using hp)]
  simp [hp]

/-- The addresses of the outputs. -/
theorem wordAt_target {p : Nat} (hp : p < maxParams) :
    block.WordAt (targetsAt + p * 8) block.targets[p] := by
  refine ⟨maxParams + p, by rw [targetsAt, sourcesAt]; omega, ?_⟩
  rw [words, List.append_assoc, List.getElem?_append_right (by simp),
    List.getElem?_append_left (by simpa using hp)]
  simp [hp]

/-- The offsets and amounts of a block, behind the addresses. -/
theorem wordAt_offset {i : Nat} {value : Int}
    (h : (block.rowOffsets.toList ++ block.strides.toList ++ [block.outer, block.inner])[i]? =
      some value) : block.WordAt (rowsAt + i * 8) (BitVec.ofInt 64 value) := by
  refine ⟨maxParams + maxParams + i, by rw [rowsAt, targetsAt, sourcesAt]; omega, ?_⟩
  rw [words, List.getElem?_append_right (by simp), List.getElem?_map]
  simp only [List.length_append, Vector.length_toList, Nat.add_sub_cancel_left, h, Option.map_some]

/-- The row offsets. -/
theorem wordAt_row {p : Nat} (hp : p < maxParams) :
    block.WordAt (rowsAt + p * 8) (BitVec.ofInt 64 block.rowOffsets[p]) := by
  refine wordAt_offset ?_
  rw [List.append_assoc, List.getElem?_append_left (by simpa using hp)]
  simp [hp]

/-- The strides. -/
theorem wordAt_stride {i : Nat} (hi : i < maxParams * maxCallDims) :
    block.WordAt (stridesAt + i * 8) (BitVec.ofInt 64 block.strides[i]) := by
  have hoffset : stridesAt + i * 8 = rowsAt + (maxParams + i) * 8 := by
    rw [stridesAt]
    omega
  rw [hoffset]
  refine wordAt_offset ?_
  rw [List.append_assoc, List.getElem?_append_right (by simp),
    List.getElem?_append_left (by simpa using hi)]
  simp [hi]

/-- The number of rows. -/
theorem wordAt_outer : block.WordAt workAt (BitVec.ofInt 64 block.outer) := by
  have hoffset : workAt = rowsAt + (maxParams + maxParams * maxCallDims) * 8 := by decide
  rw [hoffset]
  refine wordAt_offset ?_
  rw [List.getElem?_append_right (by simp)]
  simp

/-- The number of columns. -/
theorem wordAt_inner : block.WordAt (workAt + 8) (BitVec.ofInt 64 block.inner) := by
  have hoffset : workAt + 8 = rowsAt + (maxParams + maxParams * maxCallDims + 1) * 8 := by decide
  rw [hoffset]
  refine wordAt_offset ?_
  rw [List.getElem?_append_right (by simp)]
  simp

/-- The address of a parameter: inputs come first. -/
def address (block : ArgumentBlock) (inputs param : Nat) : BitVec 64 :=
  if param < inputs then block.sources.toList.getD param 0
  else block.targets.toList.getD (param - inputs) 0

/-- **The address of a parameter is found at its slot.** -/
theorem wordAt_slot {param inputs slot : Nat} (hparam : param < maxParams)
    (h : pointerSlot param inputs = .ok slot) : block.WordAt slot (block.address inputs param) := by
  unfold pointerSlot at h
  unfold address
  split
  · rename_i hlt
    rw [if_pos hlt] at h
    obtain ⟨offset, hoffset, h⟩ := Checked.bind_eq_ok.1 h
    obtain ⟨rfl, -⟩ := Checked.mul_eq_ok.1 hoffset
    obtain ⟨rfl, -⟩ := Checked.add_eq_ok.1 h
    have hword : block.WordAt (sourcesAt + param * 8) block.sources[param] := wordAt_source hparam
    simpa [hparam] using hword
  · rename_i hge
    rw [if_neg hge] at h
    obtain ⟨offset, hoffset, h⟩ := Checked.bind_eq_ok.1 h
    obtain ⟨rfl, -⟩ := Checked.mul_eq_ok.1 hoffset
    obtain ⟨rfl, -⟩ := Checked.add_eq_ok.1 h
    have hlt : param - inputs < maxParams := by omega
    have hword : block.WordAt (targetsAt + (param - inputs) * 8) block.targets[param - inputs] :=
      wordAt_target hlt
    simpa [hlt] using hword

/-- The addresses that are filled in are found at their slots. -/
theorem wordAt_pointer {sources targets : List (BitVec 64)} {param inputs slot : Nat}
    (hparam : param < maxParams) (h : pointerSlot param inputs = .ok slot) :
    (block.withPointers sources targets).WordAt slot
      (if param < inputs then sources.getD param 0 else targets.getD (param - inputs) 0) := by
  have haddress : (block.withPointers sources targets).address inputs param =
      if param < inputs then sources.getD param 0 else targets.getD (param - inputs) 0 := by
    have hlt : param - inputs < maxParams := by omega
    simp [address, withPointers, hparam, hlt]
  exact haddress ▸ wordAt_slot hparam h

/-! ## Blocks of tables -/

section Table

variable (table : OffsetTable) (sources targets : List (BitVec 64))

/-- The row offsets of a table. -/
theorem wordAt_ofTable_row {p : Nat} (hp : p < maxParams) :
    ((ofTable table).withPointers sources targets).WordAt (rowsAt + p * 8)
      (BitVec.ofInt 64 (table.rowOffsets.getD p 0)) := by
  have hword : ((ofTable table).withPointers sources targets).WordAt (rowsAt + p * 8) _ :=
    wordAt_row hp
  simpa [withPointers, ofTable] using hword

/-- The strides of a table. -/
theorem wordAt_ofTable_stride {i : Nat} (hi : i < maxParams * maxCallDims) :
    ((ofTable table).withPointers sources targets).WordAt (stridesAt + i * 8)
      (BitVec.ofInt 64 (table.strides.getD i 0)) := by
  have hword : ((ofTable table).withPointers sources targets).WordAt (stridesAt + i * 8) _ :=
    wordAt_stride hi
  simpa [withPointers, ofTable] using hword

/-- The number of rows of a table. -/
theorem wordAt_ofTable_outer :
    ((ofTable table).withPointers sources targets).WordAt workAt
      (BitVec.ofNat 64 table.tiled.outer) := by
  have hword : ((ofTable table).withPointers sources targets).WordAt workAt _ := wordAt_outer
  have houter : ((ofTable table).withPointers sources targets).outer =
      Checked.toOffset table.tiled.outer := by simp only [withPointers, ofTable]
  rwa [houter, Checked.ofInt_toOffset] at hword

/-- The number of columns of a table. -/
theorem wordAt_ofTable_inner :
    ((ofTable table).withPointers sources targets).WordAt (workAt + 8)
      (BitVec.ofNat 64 table.tiled.inner) := by
  have hword : ((ofTable table).withPointers sources targets).WordAt (workAt + 8) _ := wordAt_inner
  have hinner : ((ofTable table).withPointers sources targets).inner =
      Checked.toOffset table.tiled.inner := by simp only [withPointers, ofTable]
  rwa [hinner, Checked.ofInt_toOffset] at hword

end Table

end Pointwise.ArgumentBlock
