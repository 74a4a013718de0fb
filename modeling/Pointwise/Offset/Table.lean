import Pointwise.Domain.Plan
import Pointwise.Offset.Strides

/-!
# Offset tables

A planned domain determines every byte offset that a kernel needs. Parameters are the inputs
followed by the outputs.

## Main definitions

* `OffsetTable` — the offsets of all parameters of a domain.
* `OffsetTable.ofDomain` — the table of a planned domain.
* `OffsetTable.paramStrides` — the strides of one parameter.
-/

set_option autoImplicit false

namespace Pointwise

/-- The number of bytes of an element. -/
def elementSize : Nat := 4

/-- The offsets of all parameters of a domain. -/
structure OffsetTable where
  master : Shape
  /-- The strides of all parameters, one after the other. -/
  strides : List Int
  /-- The row offset of each parameter. -/
  rowOffsets : List Int
  tiled : WorkAmounts
  tileRank : Nat
  inputs : Nat
  outputs : Nat
  deriving DecidableEq

namespace OffsetTable

/-- The strides and the row offset of one parameter; kernels of tile rank one have no use for a
row offset. -/
def param (master : Shape) (tileRank : Nat) (shape : Shape)
    (rowOffset : List Int → Except Error Int) : Except Error (List Int × Int) := do
  let strides ← Strides.ofShape shape master elementSize
  let row ← if 1 < tileRank then rowOffset strides else pure 0
  return (strides, row)

/-- The table of a planned domain. -/
def ofDomain (domain : Domain) : Except Error OffsetTable := do
  let master := domain.master
  require (master ≠ []) (.fault .overflow)
  let inputs ← domain.inputShapes.mapM fun shape =>
    param master domain.tileRank shape fun strides =>
      Strides.inputRowOffset shape master strides elementSize
  let outputs ← domain.outputShapes.mapM fun shape =>
    param master domain.tileRank shape fun strides =>
      Strides.outputRowOffset master strides elementSize
  let params := inputs ++ outputs
  return {
    master
    strides := params.flatMap (·.1)
    rowOffsets := params.map (·.2)
    tiled := domain.tiled
    tileRank := domain.tileRank
    inputs := domain.inputShapes.length
    outputs := domain.outputShapes.length }

/-- The number of parameters. -/
def params (table : OffsetTable) : Except Error Nat := Checked.add table.inputs table.outputs

/-- How many dimensions are left to the kernel calls. -/
def callDims (table : OffsetTable) : Except Error Nat :=
  Checked.sub table.master.length table.tileRank

/-- The strides of one parameter. -/
def paramStrides (table : OffsetTable) (param : Nat) : Except Error (List Int) := do
  let width ← Checked.sub table.master.length 1
  let start ← Checked.mul param width
  let stop ← Checked.mul (← Checked.add param 1) width
  require (stop ≤ table.strides.length) (.fault .outOfRange)
  return (table.strides.drop start).take (stop - start)

end OffsetTable

end Pointwise
