import Pointwise.Machine.Instruction
import Pointwise.Offset.Table

/-!
# Regions of code

Before code is generated it is a *region*: a list of entries with registers. An entry is a leaf
operation or one of two containers. A *tile* runs its body once per step over the last dimension;
a *scheduler* holds a vector tile and a scalar tile and runs them row by row. The registers of a
region are abstract numbers until an allocator replaces them.

## Main definitions

* `LeafOp` — the leaf operations.
* `Tile`, `ScheduleMode` — what a tile and a scheduler know besides their bodies.
* `Entry`, `Region` — entries and lists of them.
* `Entry.dataFlow` — from which kind of registers to which kind an entry goes.
* `Tile.create`, `Region.checkTiles` — the conditions on the bodies of containers.
-/

set_option autoImplicit false

namespace Pointwise

/-- The operations that have no body. They move vectors between registers and memory, or compute with them.
None of them goes from general registers to general registers: code could be emitted for such an operation,
and the allocator would find it registers as it does for the containers, but there is no such operation
among those that bodies are made of. -/
inductive LeafOp where
  /-- All lanes from memory. -/
  | load (w : VectorWidth)
  /-- All lanes from one number in memory. -/
  | splatLoad (w : VectorWidth)
  /-- The first lane from memory. -/
  | laneLoad
  /-- All lanes to memory. -/
  | store (w : VectorWidth)
  /-- The first lane to memory. -/
  | laneStore
  | const (w : VectorWidth) (value : Binary32)
  /-- All lanes from the first lane. -/
  | splat (w : VectorWidth)
  | binary (w : VectorWidth) (op : BinaryOp)
  | fma (w : VectorWidth)
  | unary (w : VectorWidth) (op : UnaryOp)
  deriving DecidableEq

/-- What a tile knows besides its body. -/
structure Tile where
  /-- The number of elements that one run of the body processes. -/
  increment : Nat
  inputs : Nat
  /-- The last dimension of every parameter. -/
  dims : List Nat
  elemSize : Nat
  deriving DecidableEq

/-- Where a scheduler finds the amounts of work and the row offsets. -/
inductive ScheduleMode where
  /-- They are known when code is generated. -/
  | static (work : WorkAmounts) (rowOffsets : List Int)
  /-- They are read from the argument block. -/
  | dynamic
  deriving DecidableEq

/-- An entry of a region, with its input and output registers. -/
inductive Entry where
  | leaf (op : LeafOp) (input output : List Nat)
  | tile (tile : Tile) (body : List Entry) (input output : List Nat)
  | scheduler (mode : ScheduleMode) (body : List Entry) (input output : List Nat)

/-- A list of entries. -/
abbrev Region := List Entry

/-! ## Names -/

/-- The name of an operation on two vectors. -/
def BinaryOp.leafName : BinaryOp → String
  | .add => "Add"
  | .sub => "Subtract"
  | .mul => "Multiply"
  | .div => "Divide"
  | .max => "Maximum"
  | .min => "Minimum"

/-- The name of an operation on one vector. -/
def UnaryOp.leafName : UnaryOp → String
  | .neg => "Negative"
  | .abs => "Abs"
  | .sqrt => "Sqrt"
  | .relu => "Relu"

/-- The name of a leaf operation. -/
def LeafOp.name : LeafOp → String
  | .load _ => "Load"
  | .splatLoad _ => "BroadcastLoad"
  | .laneLoad => "ScalarLoad"
  | .store _ => "Store"
  | .laneStore => "ScalarStore"
  | .const _ _ => "Scalar"
  | .splat _ => "BroadcastMove"
  | .binary _ op => op.leafName
  | .fma _ => "FusedMulAdd"
  | .unary _ op => op.leafName

namespace Entry

/-- The name of an entry's operation. -/
def name : Entry → String
  | .leaf op _ _ => op.name
  | .tile _ _ _ _ => "Tile"
  | .scheduler _ _ _ _ => "TileScheduler"

def input : Entry → List Nat
  | .leaf _ input _ | .tile _ _ input _ | .scheduler _ _ input _ => input

def output : Entry → List Nat
  | .leaf _ _ output | .tile _ _ _ output | .scheduler _ _ _ output => output

/-- The body of a container. -/
def body? : Entry → Option Region
  | .leaf _ _ _ => none
  | .tile _ body _ _ | .scheduler _ body _ _ => some body

/-- The entry with the body of a container emptied. -/
def clearBody : Entry → Entry
  | .leaf op input output => .leaf op input output
  | .tile t _ input output => .tile t [] input output
  | .scheduler mode _ input output => .scheduler mode [] input output

end Entry

/-! ## Kinds of registers -/

/-- From which kind of registers to which kind an operation goes. The inputs of an operation from
general registers to general registers are plain numbers. -/
inductive DataFlow where
  | gprToGpr | gprToVec | vecToGpr | vecToVec
  deriving DecidableEq

namespace DataFlow

/-- The kind of the input registers; none if the inputs are plain numbers. -/
def inputKind : DataFlow → Option RegisterKind
  | .gprToGpr => none
  | .gprToVec => some .gpr
  | .vecToGpr | .vecToVec => some .vec

/-- The kind of the output registers. -/
def outputKind : DataFlow → RegisterKind
  | .gprToGpr | .vecToGpr => .gpr
  | .gprToVec | .vecToVec => .vec

end DataFlow

/-- The kinds of registers of a leaf operation. -/
def LeafOp.dataFlow : LeafOp → DataFlow
  | .load _ | .splatLoad _ | .laneLoad => .gprToVec
  | .store _ | .laneStore => .vecToGpr
  | .const _ _ | .splat _ | .binary _ _ | .fma _ | .unary _ _ => .vecToVec

/-- The kinds of registers of an entry. -/
def Entry.dataFlow : Entry → DataFlow
  | .leaf op _ _ => op.dataFlow
  | .tile _ _ _ _ | .scheduler _ _ _ _ => .gprToGpr

/-! ## Conditions on containers -/

/-- The tile with a given body, which must not be empty. -/
def Tile.create (body : Region) (increment inputs outputs : Nat) (dims : List Nat)
    (elemSize : Nat) : Except Error Tile := do
  require (body.length ≠ 0) (.invalid .emptyTile)
  require (increment ≠ 0) (.invalid .zeroIncrement)
  let params ← Checked.add inputs outputs
  require (dims.length = params) (.invalid (.tileDims dims.length inputs outputs))
  return ⟨increment, inputs, dims, elemSize⟩

/-- Whether the pointer of a parameter moves with a tile: outputs always move, and an input stays
where it is if its last dimension is one. -/
def Tile.advances (tile : Tile) (param : Nat) : Bool :=
  tile.inputs ≤ param || tile.dims[param]? != some 1

/-- Why a body is not that of a scheduler. -/
def Region.notTiles : Region → ConfigError
  | [first, second] => .schedulerTiles first.name second.name
  | body => .schedulerBody body.length

/-- The body of a scheduler has to be two tiles, one for vectors and one for single elements. -/
def Region.checkTiles : Region → Except Error Unit
  | [.tile _ _ _ _, .tile _ _ _ _] => .ok ()
  | body => .error (.invalid body.notTiles)

/-- The mode of a scheduler that has the amounts and offsets of a table built in. -/
def ScheduleMode.ofTable (table : OffsetTable) : ScheduleMode :=
  .static table.tiled table.rowOffsets

end Pointwise
