import Pointwise.Offset.Table

/-!
# Argument blocks

A kernel call gets the address of a block of 64-bit words. The block holds the addresses of the
tensors, and for kernels that are compiled once for many shapes also the offset table and the
amounts of work.

## Main definitions

* `ArgumentBlock` — the content of a block.
* `ArgumentBlock.sourcesAt`, `targetsAt`, `rowsAt`, `stridesAt`, `workAt` — the byte offsets of
  its parts, which follow each other without gaps.
* `ArgumentBlock.pointerSlot` — the byte offset of a parameter's address.
* `ArgumentBlock.ofTable` — the block that describes an offset table.
* `ArgumentBlock.words` — the words of a block, in order.

## Main results

* `ArgumentBlock.length_words` — the words fill the block.
-/

set_option autoImplicit false

namespace Pointwise

/-- The largest number of parameters. -/
def maxParams : Nat := 12

/-- How many dimensions a kernel can leave to its calls. -/
def maxCallDims : Nat := 5

/-- The content of an argument block. -/
structure ArgumentBlock where
  sources : Vector (BitVec 64) maxParams
  targets : Vector (BitVec 64) maxParams
  /-- The row offset of each parameter. -/
  rowOffsets : Vector Int maxParams
  /-- Five strides of each parameter. -/
  strides : Vector Int (maxParams * maxCallDims)
  outer : Int
  inner : Int

namespace ArgumentBlock

/-! ## Layout -/

/-- Where the addresses of the inputs begin. -/
def sourcesAt : Nat := 0

/-- Where the addresses of the outputs begin. -/
def targetsAt : Nat := sourcesAt + maxParams * 8

/-- Where the row offsets begin. -/
def rowsAt : Nat := targetsAt + maxParams * 8

/-- Where the strides begin. -/
def stridesAt : Nat := rowsAt + maxParams * 8

/-- Where the two amounts of work begin. -/
def workAt : Nat := stridesAt + maxParams * maxCallDims * 8

/-- The number of bytes of a block. -/
def byteSize : Nat := workAt + 2 * 8

/-- The byte offset of the address of a parameter: inputs come first. -/
def pointerSlot (param inputs : Nat) : Except Error Nat := do
  if param < inputs then Checked.add sourcesAt (← Checked.mul param 8)
  else Checked.add targetsAt (← Checked.mul (param - inputs) 8)

/-! ## Content -/

/-- The block with nothing filled in: null addresses, no offsets, one row of one element. -/
def empty : ArgumentBlock where
  sources := .replicate _ 0
  targets := .replicate _ 0
  rowOffsets := .replicate _ 0
  strides := .replicate _ 0
  outer := 1
  inner := 1

/-- The block that describes an offset table of rank six, without addresses. -/
def ofTable (table : OffsetTable) : ArgumentBlock where
  sources := .replicate _ 0
  targets := .replicate _ 0
  rowOffsets := .ofFn fun i => table.rowOffsets.getD i 0
  strides := .ofFn fun i => table.strides.getD i 0
  outer := Checked.toOffset table.tiled.outer
  inner := Checked.toOffset table.tiled.inner

/-- The block with the addresses of the tensors filled in. -/
def withPointers (block : ArgumentBlock) (sources targets : List (BitVec 64)) : ArgumentBlock :=
  { block with
    sources := .ofFn fun i => sources.getD i 0
    targets := .ofFn fun i => targets.getD i 0 }

/-- The words of a block, in order. -/
def words (block : ArgumentBlock) : List (BitVec 64) :=
  block.sources.toList ++ block.targets.toList ++
    (block.rowOffsets.toList ++ block.strides.toList ++ [block.outer, block.inner]).map
      (BitVec.ofInt 64)

/-- The words fill the block. -/
theorem length_words (block : ArgumentBlock) : block.words.length * 8 = byteSize := by
  simp only [words, List.length_append, List.length_map, Vector.length_toList, List.length_cons,
    List.length_nil]
  decide

end ArgumentBlock

end Pointwise
