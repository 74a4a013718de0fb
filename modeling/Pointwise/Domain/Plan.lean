import Pointwise.Domain.Collapse
import Pointwise.Shape.Broadcast

/-!
# Planned domains

The shapes of a request are padded to a common rank of at least six, broadcast to a master and
collapsed. The trailing dimensions that a kernel walks by itself are then taken out of the domain,
and what remains is the box of index vectors for which the kernel is called.

## Main definitions

* `Domain` — a planned domain.
* `Optimizer.plan` — the plan for a list of input shapes.
* `Domain.rank`, `Domain.callDims`, `Domain.inputDims` — derived sizes.
-/

set_option autoImplicit false

namespace Pointwise

/-- The rank to which shapes are padded at least. -/
def tensorRank : Nat := 6

/-- The amounts of work that a kernel walks by itself: the second last dimension, if the tile rank
is two, and the last one. -/
structure WorkAmounts where
  outer : Nat
  inner : Nat
  deriving DecidableEq

/-- A planned domain. -/
structure Domain where
  inputShapes : List Shape
  outputShapes : List Shape
  /-- The shape to which all tensors are broadcast. -/
  master : Shape
  /-- The master with the tiled dimensions set to one. -/
  callShape : Shape
  /-- How many trailing dimensions the kernel walks by itself. -/
  tileRank : Nat
  /-- The number of elements of an output. -/
  elements : Nat
  /-- The number of kernel calls. -/
  callCount : Nat
  /-- The tiled dimensions. -/
  tiled : WorkAmounts
  deriving DecidableEq

namespace Domain

def rank (domain : Domain) : Nat := domain.master.length

/-- How many dimensions are left to the kernel calls. -/
def callDims (domain : Domain) : Except Error Nat :=
  Checked.sub domain.rank domain.tileRank

/-- The last dimension of each input. -/
def inputDims (domain : Domain) : Except Error (List Nat) :=
  domain.inputShapes.mapM (Checked.getBack · 1)

/-- Which inputs have a last dimension of one, so that they are broadcast along it. -/
def broadcastFlags (domain : Domain) : Except Error (List Bool) := do
  return (← domain.inputDims).map (· = 1)

end Domain

/-- The domain that walks the last `tileRank` dimensions of a master in the kernel. -/
def Domain.ofMaster (inputShapes outputShapes : List Shape) (master : Shape)
    (tileRank elements : Nat) : Except Error Domain := do
  let split := master.length - tileRank
  let callShape := master.take split ++ List.replicate tileRank 1
  let callCount ← Checked.product callShape
  return {
    inputShapes, outputShapes, master, callShape, tileRank, elements, callCount
    tiled := {
      outer := if tileRank = 1 then 1 else master.getD split 1
      inner := master.getLastD 1 } }

/-- The plan for input shapes and a number of outputs. Outputs have the shape of the master. -/
def Optimizer.plan (limits : Optimizer) (inputShapes : List Shape) (outputs : Nat) :
    Except Error Domain := do
  require (inputShapes ≠ []) (.invalid .noInputShapes)
  let rank := max (Shape.maxRank inputShapes) tensorRank
  let inputs := inputShapes.map (Shape.padTo rank)
  let master ← Shape.broadcast inputs
  let elements ← Checked.product master
  let collapsed ← limits.collapse (inputs ++ List.replicate outputs master) master
  Domain.ofMaster (collapsed.shapes.take inputs.length) (collapsed.shapes.drop inputs.length)
    collapsed.domain collapsed.tileRank elements

end Pointwise
