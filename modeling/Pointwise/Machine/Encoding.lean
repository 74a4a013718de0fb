import Pointwise.Machine.Instruction

/-!
# Instruction bytes

The bytes of each instruction but the branches, whose size depends on the distance to their
target. General instructions have a size prefix and an opcode; vector instructions of 128 and 256
bits have a prefix of two bytes where that is enough and of three bytes otherwise, and those of
512 bits one of four bytes.

## Main definitions

* `Encoding.memory`, `Encoding.direct` — the operand bytes.
* `Encoding.vector128`, `vector256`, `vector512` — vector instructions by width.
* `Instruction.bytes` — the bytes of an instruction that is not a branch.
-/

set_option autoImplicit false

namespace Pointwise

namespace Encoding

/-- A byte, from a number below 256. -/
def byte (n : Nat) : UInt8 := UInt8.ofNat n

/-- The lowest `count` bytes of an integer in two's complement, lowest first. -/
def littleEndian (count : Nat) (value : Int) : List UInt8 :=
  (List.range count).map fun (i : Nat) => byte (value >>> (8 * i) % 256).toNat

/-- Whether a value fits one byte with a sign. -/
def fitsByte (value : Int) : Bool := -128 ≤ value && value ≤ 127

/-- The upper bit of a register number, which goes into a prefix. -/
def high (r : Register) : Nat := r.val / 8

/-- The lower bits of a register number, which go into an operand byte. -/
def low (r : Register) : Nat := r.val % 8

/-! ## Operand bytes -/

/-- The operand byte of two registers; `field` is a register or an opcode extension. -/
def direct (field : Nat) (r : Register) : List UInt8 := [byte (0xc0 + field * 8 + low r)]

/-- The operand bytes of a register and a memory operand. A displacement of zero is left out,
except where the base register has no form without one. -/
def memory (field : Nat) (m : MemoryOperand) : List UInt8 :=
  let index := if low m.base = 4 then [byte 0x24] else []
  let operand (mode : Nat) := byte (mode * 64 + field * 8 + low m.base) :: index
  if m.displacement = 0 ∧ low m.base ≠ 5 then operand 0
  else if fitsByte m.displacement then operand 1 ++ littleEndian 1 m.displacement
  else operand 2 ++ littleEndian 4 m.displacement

/-! ## General instructions -/

/-- The size prefix of a 64-bit instruction. -/
def wide (field rm : Register) : UInt8 := byte (0x48 + 4 * high field + high rm)

/-- The bytes of an instruction that adds to, subtracts from or compares with a constant, given
its opcode extension: register zero has a short form that always takes four bytes. -/
def arithmetic (extension : Nat) (r : Register) (value : Int) : List UInt8 :=
  if r = .rax then [byte 0x48, byte (0x05 + 8 * extension)] ++ littleEndian 4 value
  else if fitsByte value then
    wide .unused r :: byte 0x83 :: direct extension r ++ littleEndian 1 value
  else wide .unused r :: byte 0x81 :: direct extension r ++ littleEndian 4 value

/-- The prefix that a register number from eight on needs in front of a short instruction. -/
def extended (r : Register) : List UInt8 := if high r = 0 then [] else [byte 0x41]

/-! ## Vector instructions -/

/-- The opcode tables of vector instructions. -/
inductive OpcodeMap where
  | basic | extended

/-- The number of a table in a prefix. -/
def OpcodeMap.number : OpcodeMap → Nat
  | .basic => 1
  | .extended => 2

/-- An opcode: its table, the selector that replaces an older prefix byte, and its number. -/
structure Opcode where
  map : OpcodeMap
  selector : Nat
  number : Nat

/-- The prefix and opcode of a vector instruction up to 256 bits. The prefix holds register
numbers in complement. -/
def leading (long : Bool) (op : Opcode) (field source rm : Register) : List UInt8 :=
  let fieldBit := 128 * (1 - high field)
  let tail := 8 * (15 - source.val) + (if long then 4 else 0) + op.selector
  match op.map, high rm with
  | .basic, 0 => [byte 0xc5, byte (fieldBit + tail), byte op.number]
  | map, upper =>
    [byte 0xc4, byte (fieldBit + 64 + 32 * (1 - upper) + map.number), byte tail, byte op.number]

/-- The prefix and opcode of a vector instruction of 512 bits. -/
def leading512 (op : Opcode) (field source rm : Register) : List UInt8 :=
  [byte 0x62, byte (128 * (1 - high field) + 64 + 32 * (1 - high rm) + 16 + op.map.number),
    byte (8 * (15 - source.val) + 4 + op.selector), byte 0x48, byte op.number]

/-- The prefix and opcode of a vector instruction of a given width. -/
def leadingOf (w : VectorWidth) (op : Opcode) (field source rm : Register) : List UInt8 :=
  match w with
  | .ymm => leading true op field source rm
  | .zmm => leading512 op field source rm

/-- A vector instruction on registers. -/
def onRegisters (w : VectorWidth) (op : Opcode) (field source rm : Register) : List UInt8 :=
  leadingOf w op field source rm ++ direct (low field) rm

/-- A vector instruction on a register and the memory at an address. -/
def onMemory (w : VectorWidth) (op : Opcode) (field base : Register) : List UInt8 :=
  leadingOf w op field .unused base ++ memory (low field) ⟨base, 0⟩

/-- A vector instruction on the first lane of a register and the memory at an address. -/
def laneOnMemory (op : Opcode) (field base : Register) : List UInt8 :=
  leading false op field .unused base ++ memory (low field) ⟨base, 0⟩

/-- The opcode numbers of the arithmetic operations. -/
def binaryNumber : BinaryOp → Nat
  | .add => 0x58
  | .mul => 0x59
  | .sub => 0x5c
  | .min => 0x5d
  | .div => 0x5e
  | .max => 0x5f

/-- The opcodes of the bitwise operations, which differ by width. -/
def bitwiseOpcode : VectorWidth → BitwiseOp → Opcode
  | .ymm, .xor => ⟨.basic, 0, 0x57⟩
  | .ymm, .and => ⟨.basic, 0, 0x54⟩
  | .zmm, .xor => ⟨.basic, 1, 0xef⟩
  | .zmm, .and => ⟨.basic, 1, 0xdb⟩

end Encoding

open Encoding in
/-- The bytes of an instruction; none for a branch, whose size is found only when code is laid
out. -/
def Instruction.bytes : Instruction → List UInt8
  | .loadWord d m => wide d m.base :: byte 0x8b :: memory (low d) m
  | .setWord d value => wide .unused d :: byte (0xb8 + low d) :: littleEndian 8 value
  | .setHalf d value => extended d ++ byte (0xb8 + low d) :: littleEndian 4 value.toNat
  | .mulLoad d m => wide d m.base :: byte 0x0f :: byte 0xaf :: memory (low d) m
  | .addWord d s => wide s d :: byte 0x01 :: direct (low s) d
  | .addLoad d m => wide d m.base :: byte 0x03 :: memory (low d) m
  | .addImmediate d value => arithmetic 0 d value
  | .subImmediate d value => arithmetic 5 d value
  | .compare d value => arithmetic 7 d value
  | .push r => extended r ++ [byte (0x50 + low r)]
  | .pop r => extended r ++ [byte (0x58 + low r)]
  | .ret => [byte 0xc3]
  | .zeroUpper => [byte 0xc5, byte 0xf8, byte 0x77]
  | .jump _ | .jumpIf _ _ => []
  | .loadVector w d base => onMemory w ⟨.basic, 0, 0x10⟩ d base
  | .storeVector w base s => onMemory w ⟨.basic, 0, 0x11⟩ s base
  | .loadLane d base => laneOnMemory ⟨.basic, 2, 0x10⟩ d base
  | .storeLane base s => laneOnMemory ⟨.basic, 2, 0x11⟩ s base
  | .splatLoad w d base => onMemory w ⟨.extended, 1, 0x18⟩ d base
  | .splat w d s => onRegisters w ⟨.extended, 1, 0x18⟩ d .unused s
  | .laneFromWord d s => leading false ⟨.basic, 1, 0x6e⟩ d .unused s ++ direct (low d) s
  | .moveVector w d s => onRegisters w ⟨.basic, 0, 0x28⟩ d .unused s
  | .binary w op d a b => onRegisters w ⟨.basic, 0, binaryNumber op⟩ d a b
  | .sqrt w d s => onRegisters w ⟨.basic, 0, 0x51⟩ d .unused s
  | .bitwise w op d a b => onRegisters w (bitwiseOpcode w op) d a b
  | .mulAddTarget w d a c => onRegisters w ⟨.extended, 1, 0xa8⟩ d a c
  | .mulAddOnto w d a b => onRegisters w ⟨.extended, 1, 0xb8⟩ d a b

end Pointwise
