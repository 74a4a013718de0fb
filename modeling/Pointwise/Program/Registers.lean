import Pointwise.Machine.Register
import Pointwise.Program.Basic

/-!
# Registers for the values of a program

Each value is kept in a register from its operation to its last use. An operation takes the lowest
register that no value occupies which is still needed; the operands that it uses for the last time
are released before, so that a result may take the place of an operand. Values that are written to
an output are needed until the end.

## Main definitions

* `Program.lastUse` — the last position at which a value is needed.
* `RegisterScan` — the registers handed out so far.
* `Program.registers` — the register of every value, and how many there are.
-/

set_option autoImplicit false

namespace Pointwise

/-- The registers handed out so far. -/
structure RegisterScan where
  /-- The register of each value. -/
  registers : List Nat
  /-- The registers that are free again, ascending. -/
  free : List Nat
  /-- The number of registers in use or free. -/
  count : Nat

namespace Program

/-- The last position at which a value is needed: behind all operations if it is an output, else
that of the last operation that reads it, if there is one. -/
def lastUse (program : Program) (value : Nat) : Option Nat :=
  if value ∈ program.outputs then some program.ops.length
  else (program.ops.zipIdx.filter fun (op, _) => value ∈ op.operands).getLast?.map (·.2)

/-- The scan after one more operation: its operands are released if this is their last use, its
value takes the lowest free register or a new one, and is released at once if nothing reads it. -/
def assignStep (program : Program) (scan : RegisterScan) (op : MicroOp) : RegisterScan :=
  let position := scan.registers.length
  let released := op.operands.filter fun a => program.lastUse a = some position
  let free := released.foldl (fun free a => insertAscending (scan.registers.getD a 0) free)
    scan.free
  let (register, free, count) := match free with
    | r :: rest => (r, rest, scan.count)
    | [] => (scan.count, [], scan.count + 1)
  let free := if program.lastUse position = none then insertAscending register free else free
  ⟨scan.registers ++ [register], free, count⟩

/-- The register of every value, and how many registers there are. -/
def registers (program : Program) : RegisterScan :=
  program.ops.foldl program.assignStep ⟨[], [], 0⟩

end Program

end Pointwise
