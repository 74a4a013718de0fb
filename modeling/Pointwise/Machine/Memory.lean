import Pointwise.Binary32.Basic
import Std.Data.HashMap

/-!
# Memory

A memory has a byte at each of `2 ^ 64` addresses; bytes that were never written are zero. Words
and numbers lie in memory with their lowest byte first.

## Main definitions

* `Memory` — a memory, with `Memory.read` and `Memory.write` for one byte.
* `Memory.readWord`, `writeWord`, `readNumber`, `writeNumber` — four and eight bytes at a time.
* `Memory.readNumbers`, `writeNumbers`, `writeWords` — rows of them.

## Main results

* `Memory.read_write` — what a byte holds after a write.
* `Memory.readWord_writeWord`, `Memory.readNumber_writeNumber` — a value written is read back.
-/

set_option autoImplicit false

namespace Pointwise

/-- The number of a byte. -/
abbrev Address := BitVec 64

/-- A memory of bytes, zero where nothing was written. -/
structure Memory where
  cells : Std.HashMap Address (BitVec 8)

namespace Memory

/-- The memory that was never written. -/
def empty : Memory := ⟨∅⟩

/-- The byte at an address. -/
def read (memory : Memory) (a : Address) : BitVec 8 := memory.cells.getD a 0

/-- The memory with one byte written. -/
def write (memory : Memory) (a : Address) (value : BitVec 8) : Memory :=
  ⟨memory.cells.insert a value⟩

/-- What a byte holds after a write. -/
theorem read_write (memory : Memory) (a b : Address) (value : BitVec 8) :
    (memory.write a value).read b = if a = b then value else memory.read b := by
  simp [read, write, Std.HashMap.getD_insert]

@[simp] theorem read_write_self (memory : Memory) (a : Address) (value : BitVec 8) :
    (memory.write a value).read a = value := by
  simp [read_write]

/-! ## Words and numbers -/

/-- The eight bytes at an address, lowest first. -/
def readWord (memory : Memory) (a : Address) : BitVec 64 :=
  memory.read (a + 7) ++ memory.read (a + 6) ++ memory.read (a + 5) ++ memory.read (a + 4) ++
    memory.read (a + 3) ++ memory.read (a + 2) ++ memory.read (a + 1) ++ memory.read a

/-- The memory with eight bytes written, lowest first. -/
def writeWord (memory : Memory) (a : Address) (value : BitVec 64) : Memory :=
  (List.range 8).foldl
    (fun memory i => memory.write (a + BitVec.ofNat 64 i) (value.extractLsb' (8 * i) 8)) memory

/-- The number in the four bytes at an address, lowest first. -/
def readNumber (memory : Memory) (a : Address) : Binary32 :=
  ⟨memory.read (a + 3) ++ memory.read (a + 2) ++ memory.read (a + 1) ++ memory.read a⟩

/-- The memory with the four bytes of a number written, lowest first. -/
def writeNumber (memory : Memory) (a : Address) (value : Binary32) : Memory :=
  (List.range 4).foldl
    (fun memory i => memory.write (a + BitVec.ofNat 64 i) (value.bits.extractLsb' (8 * i) 8))
    memory

/-- Two neighbouring pieces of a bit pattern, put together. -/
theorem extract_append_extract {n : Nat} (value : BitVec n) (start wide narrow : Nat) :
    value.extractLsb' (start + narrow) wide ++ value.extractLsb' start narrow =
      value.extractLsb' start (wide + narrow) :=
  BitVec.extractLsb'_append_extractLsb'_eq_extractLsb' (by omega)

/-- A word written is read back. -/
@[simp] theorem readWord_writeWord (memory : Memory) (a : Address) (value : BitVec 64) :
    (memory.writeWord a value).readWord a = value := by
  have joined : value.extractLsb' 56 8 ++ value.extractLsb' 48 8 ++ value.extractLsb' 40 8 ++
      value.extractLsb' 32 8 ++ value.extractLsb' 24 8 ++ value.extractLsb' 16 8 ++
      value.extractLsb' 8 8 ++ value.extractLsb' 0 8 = value := by
    rw [extract_append_extract value 48 8 8, extract_append_extract value 40 16 8,
      extract_append_extract value 32 24 8, extract_append_extract value 24 32 8,
      extract_append_extract value 16 40 8, extract_append_extract value 8 48 8,
      extract_append_extract value 0 56 8, BitVec.extractLsb'_eq_self]
  simpa [readWord, writeWord, List.range, List.range.loop, read_write] using joined

/-- A number written is read back. -/
@[simp] theorem readNumber_writeNumber (memory : Memory) (a : Address) (value : Binary32) :
    (memory.writeNumber a value).readNumber a = value := by
  obtain ⟨value⟩ := value
  have joined : value.extractLsb' 24 8 ++ value.extractLsb' 16 8 ++ value.extractLsb' 8 8 ++
      value.extractLsb' 0 8 = value := by
    rw [extract_append_extract value 16 8 8, extract_append_extract value 8 16 8,
      extract_append_extract value 0 24 8, BitVec.extractLsb'_eq_self]
  simpa [readNumber, writeNumber, List.range, List.range.loop, read_write] using joined

/-! ## Rows -/

/-- The numbers in a row of `count` from an address on. -/
def readNumbers (memory : Memory) (a : Address) (count : Nat) : List Binary32 :=
  (List.range count).map fun i => memory.readNumber (a + BitVec.ofNat 64 (4 * i))

/-- The memory with a row of numbers written from an address on. -/
def writeNumbers (memory : Memory) (a : Address) : List Binary32 → Memory
  | [] => memory
  | value :: values => (memory.writeNumber a value).writeNumbers (a + 4) values

/-- The memory with a row of words written from an address on. -/
def writeWords (memory : Memory) (a : Address) : List (BitVec 64) → Memory
  | [] => memory
  | value :: values => (memory.writeWord a value).writeWords (a + 8) values

end Memory

end Pointwise
