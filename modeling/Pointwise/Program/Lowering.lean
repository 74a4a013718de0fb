import Pointwise.Program.Registers
import Pointwise.Region.Basic

/-!
# Lowering a program to tile bodies

A program becomes two straight regions: one that processes all lanes of a vector, and one that
processes a single element. Every operation becomes one entry on the registers of its values, and
the outputs are stored at the end. Parameter `p` is addressed through general register `p`, the
inputs coming before the outputs.

## Main definitions

* `BodyKind` — whether a body processes vectors or single elements.
* `Program.entryOf` — the entry of an operation.
* `Program.body` — the body of a tile.
* `Program.lower` — both bodies.
-/

set_option autoImplicit false

namespace Pointwise

/-- Whether a body processes the lanes of a vector or a single element. -/
inductive BodyKind where
  | vector | scalar
  deriving DecidableEq

/-- The two bodies of a program. -/
structure LoweredProgram where
  vector : Region
  scalar : Region
  /-- The register of each value. -/
  registers : List Nat
  /-- The number of registers. -/
  count : Nat

namespace Program

/-- The operation that loads an input: an input with a last dimension of one gives every lane the
same number. -/
def loadOp (w : VectorWidth) (kind : BodyKind) (broadcast : Bool) : LeafOp :=
  match kind, broadcast with
  | .scalar, _ => .laneLoad
  | .vector, true => .splatLoad w
  | .vector, false => .load w

/-- The operation that stores an output. -/
def storeOp (w : VectorWidth) : BodyKind → LeafOp
  | .scalar => .laneStore
  | .vector => .store w

/-- The entry of an operation whose result goes to `target`. -/
def entryOf (w : VectorWidth) (kind : BodyKind) (broadcast : List Bool) (registers : List Nat)
    (op : MicroOp) (target : Nat) : Except Error Entry := do
  let leaf ← match op with
    | .input p => do pure (loadOp w kind (← Checked.get broadcast p))
    | .const value => pure (.const w value)
    | .broadcast _ => pure (.splat w)
    | .binary op _ _ => pure (.binary w op)
    | .fma _ _ _ => pure (.fma w)
    | .unary op _ => pure (.unary w op)
  let input ← match op with
    | .input p => pure [p]
    | _ => op.operands.mapM (Checked.get registers)
  return .leaf leaf input [target]

/-- The entry that stores an output. -/
def storeEntry (w : VectorWidth) (kind : BodyKind) (registers : List Nat) (value param : Nat) :
    Except Error Entry := do
  return .leaf (storeOp w kind) [← Checked.get registers value] [param]

/-- The body of a tile, given the registers of the values. -/
def body (program : Program) (w : VectorWidth) (kind : BodyKind) (broadcast : List Bool)
    (registers : List Nat) : Except Error Region := do
  let computed ← (program.ops.zip registers).mapM fun (op, target) =>
    entryOf w kind broadcast registers op target
  let stored ← program.outputs.zipIdx.mapM fun (value, k) =>
    storeEntry w kind registers value (program.inputs + k)
  return computed ++ stored

/-- The bodies of a program whose inputs are broadcast along the last dimension as the flags say. -/
def lower (program : Program) (broadcast : List Bool) (w : VectorWidth) :
    Except Error LoweredProgram := do
  require (broadcast.length = program.inputs)
    (.invalid (.broadcastFlags broadcast.length program.inputs))
  let scan := program.registers
  require (scan.count ≤ registerCount) (.capacity (.liveValues scan.count))
  return {
    vector := ← program.body w .vector broadcast scan.registers
    scalar := ← program.body w .scalar broadcast scan.registers
    registers := scan.registers
    count := scan.count }

end Program

end Pointwise
