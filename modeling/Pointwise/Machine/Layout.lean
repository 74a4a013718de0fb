import Pointwise.Machine.Encoding

/-!
# Laying out code

A branch has a short form, whose distance to its target fits one byte, and a near form with four
bytes of distance. The forms are chosen by passes over the code. All branches start out larger
than either form; a pass walks the code in order, keeps track of the bytes that it has saved so
far, and makes each branch short if its target has come within reach. Short branches stay short,
and a branch whose target is far out of reach is not looked at again.

## Main definitions

* `Layout.Placed` — the size of an instruction in a layout.
* `Layout.pass` — one pass over the code.
* `Layout.ofCode` — the final sizes.
* `Code.bytes` — the bytes of code.
-/

set_option autoImplicit false

namespace Pointwise

/-- The signed number of instructions from a branch's successor to its target. -/
def Instruction.distance? : Instruction → Option Int
  | .jump distance => some distance
  | .jumpIf _ distance => some distance
  | _ => none

namespace Layout

/-- The size of an instruction in a layout, and whether it is final. -/
structure Placed where
  size : Nat
  settled : Bool

/-- The size of a near branch. -/
def nearSize : Instruction → Nat
  | .jump _ => 5
  | _ => 6

/-- The size of a short branch. -/
def shortSize : Nat := 2

/-- An instruction before the first pass. -/
def initial (i : Instruction) : Placed :=
  match i with
  | .jump _ => ⟨6, false⟩
  | .jumpIf _ _ => ⟨8, false⟩
  | _ => ⟨i.bytes.length, true⟩

/-- The position of an instruction's target in the code. -/
def target (position : Nat) (distance : Int) : Nat := (position + 1 + distance).toNat

/-- The addresses of all instructions, and the end of the code. -/
def addresses (placed : List Placed) : Array Nat :=
  (placed.foldl (fun (all, ip) p => (all.push (ip + p.size), ip + p.size)) (#[0], 0)).1

/-- The state of a pass: the addresses so far, the current address, the bytes saved so far, and
the sizes so far in reverse. -/
structure Pass where
  starts : Array Nat
  ip : Nat
  gained : Nat
  sizes : List Placed

/-- A branch at an address with the given distance in bytes to its target. -/
def place (i : Instruction) (distance : Int) : Placed :=
  if -128 ≤ distance ∧ distance ≤ 127 then ⟨shortSize, true⟩
  else ⟨nearSize i, distance < -1920 || 1905 < distance⟩

/-- One instruction of a pass. Addresses behind the current one are those of the last pass, less
what has been saved since. -/
def passStep (before : Array Nat) (pass : Pass) (entry : Instruction × Placed) : Pass :=
  let (i, p) := entry
  let position := pass.starts.size - 1
  let next := match i.distance? with
    | some distance =>
      if p.settled then p
      else
        let t := target position distance
        let ahead := (if t ≤ position then pass.starts.getD t 0 else before.getD t 0 : Int)
          - (pass.ip + shortSize)
        place i (if 0 ≤ ahead then ahead - pass.gained else ahead)
    | none => p
  { starts := pass.starts.push (pass.ip + next.size)
    ip := pass.ip + next.size
    gained := pass.gained + (p.size - next.size)
    sizes := next :: pass.sizes }

/-- One pass over the code: the new sizes, and the number of bytes saved. -/
def pass (code : Code) (placed : List Placed) : List Placed × Nat :=
  let result := (code.zip placed).foldl (passStep (addresses placed)) ⟨#[0], 0, 0, []⟩
  (result.sizes.reverse, result.gained)

/-- The sizes after at most `passes` passes; a pass that saves nothing is the last one. -/
def refine (code : Code) : (passes : Nat) → List Placed → List Placed
  | 0, placed => placed
  | passes + 1, placed =>
    let (next, gained) := pass code placed
    if gained = 0 then next else refine code passes next

/-- The final sizes of the instructions of code. -/
def ofCode (code : Code) : List Placed := refine code 5 (code.map initial)

/-- The number of a condition in a branch's opcode. -/
def conditionNumber : Condition → Nat
  | .equal => 4
  | .less => 12
  | .greaterEqual => 13

open Encoding in
/-- The bytes of a branch of a given size and distance in bytes. -/
def branchBytes (i : Instruction) (size : Nat) (distance : Int) : List UInt8 :=
  match i with
  | .jump _ =>
    if size = shortSize then byte 0xeb :: littleEndian 1 distance
    else byte 0xe9 :: littleEndian 4 distance
  | .jumpIf condition _ =>
    if size = shortSize then byte (0x70 + conditionNumber condition) :: littleEndian 1 distance
    else byte 0x0f :: byte (0x80 + conditionNumber condition) :: littleEndian 4 distance
  | _ => []

end Layout

open Layout in
/-- The bytes of code. -/
def Code.bytes (code : Code) : List UInt8 :=
  let placed := Layout.ofCode code
  let starts := addresses placed
  (code.zip placed).zipIdx.flatMap fun ((i, p), position) =>
    match i.distance? with
    | none => i.bytes
    | some distance =>
      let start := starts.getD (target position distance) 0
      branchBytes i p.size ((start : Int) - (starts.getD position 0 + p.size))

end Pointwise
