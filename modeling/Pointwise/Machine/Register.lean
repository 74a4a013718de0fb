/-!
# Registers

Sixteen general registers and sixteen vector registers, numbered as instructions encode them.
The registers of the calling convention have names of their own here.

## Main definitions

* `Register` — the number of a register.
* `RegisterClass` — the ways in which an instruction may name a register.
* `RegisterKind` — the two pools from which a register allocator draws.
* `VectorWidth` — the two sizes at which vector instructions work.
* `calleeSaved` — the registers that a kernel has to give back unchanged, in push order.
* `ascending` — the numbers of registers, sorted.
-/

set_option autoImplicit false

namespace Pointwise

/-- The number of a general or of a vector register. -/
abbrev Register := Fin 16

/-- How many registers there are of either kind. -/
def registerCount : Nat := 16

theorem registerCount_pos : 0 < registerCount := by decide

namespace Register

/-- The accumulator, which has the number zero. -/
def rax : Register := ⟨0, registerCount_pos⟩

/-- The register that stands for an operand which an instruction does not have. -/
def unused : Register := rax

/-- The stack pointer. -/
def rsp : Register := 4

/-- The frame pointer. -/
def rbp : Register := 5

/-- The first argument of a kernel call: the index vector. -/
def indexArgument : Register := 7

/-- The second argument of a kernel call: the argument block. -/
def blockArgument : Register := 6

end Register

/-- The registers that a kernel has to give back unchanged, in push order. -/
def calleeSaved : List Register := [3, 5, 12, 13, 14, 15]

/-- The pools from which a register allocator draws. -/
inductive RegisterKind where
  | gpr | vec
  deriving DecidableEq

/-- The name of a pool in messages. -/
def RegisterKind.text : RegisterKind → String
  | .gpr => "Gpr"
  | .vec => "Vec"

/-! ## Register names -/

/-- The ways in which an instruction may name a register: a size of a general register, or of a
vector register. -/
inductive RegisterClass where
  | gpr64 | gpr32 | xmm | ymm | zmm
  deriving DecidableEq

namespace RegisterClass

/-- The name of a class in messages; the two sizes of general registers share one. -/
def text : RegisterClass → String
  | .gpr64 | .gpr32 => "gpr"
  | .xmm => "xmm"
  | .ymm => "ymm"
  | .zmm => "zmm"

/-- The names of the general registers, in the order of their numbers. -/
def gpr64Names : List String :=
  ["rax", "rcx", "rdx", "rbx", "rsp", "rbp", "rsi", "rdi",
    "r8", "r9", "r10", "r11", "r12", "r13", "r14", "r15"]

/-- The names of the lower halves of the general registers. -/
def gpr32Names : List String :=
  ["eax", "ecx", "edx", "ebx", "esp", "ebp", "esi", "edi",
    "r8d", "r9d", "r10d", "r11d", "r12d", "r13d", "r14d", "r15d"]

/-- The name of a register in assembly text. -/
def registerName (cls : RegisterClass) (register : Register) : String :=
  match cls with
  | .gpr64 => gpr64Names[register]
  | .gpr32 => gpr32Names[register]
  | .xmm => s!"xmm{register.val}"
  | .ymm => s!"ymm{register.val}"
  | .zmm => s!"zmm{register.val}"

end RegisterClass

/-! ## Vector widths -/

/-- The size at which vector instructions work: 256 or 512 bits. -/
inductive VectorWidth where
  | ymm | zmm
  deriving DecidableEq

namespace VectorWidth

/-- How many single precision numbers a register of this width holds. -/
def lanes : VectorWidth → Nat
  | .ymm => 8
  | .zmm => 16

/-- The class that names a register of this width. -/
def registerClass : VectorWidth → RegisterClass
  | .ymm => .ymm
  | .zmm => .zmm

theorem lanes_le (w : VectorWidth) : w.lanes ≤ 16 := by cases w <;> decide

theorem lanes_pos (w : VectorWidth) : 0 < w.lanes := by cases w <;> decide

end VectorWidth

/-! ## Sorted registers -/

/-- A register added to an ascending list without repetitions. -/
def insertAscending (r : Nat) : List Nat → List Nat
  | [] => [r]
  | s :: rest =>
    if r < s then r :: s :: rest else if r = s then s :: rest else s :: insertAscending r rest

theorem mem_insertAscending {r x : Nat} {list : List Nat} :
    x ∈ insertAscending r list ↔ x = r ∨ x ∈ list := by
  induction list with
  | nil => simp [insertAscending]
  | cons s rest ih =>
    unfold insertAscending
    split
    · simp
    · split
      · simp_all
      · simp only [List.mem_cons, ih]
        constructor
        · rintro (h | h | h) <;> simp [h]
        · rintro (h | h | h) <;> simp [h]

/-- Numbers in ascending order, without repetitions. -/
def ascending (numbers : List Nat) : List Nat :=
  numbers.foldl (fun list r => insertAscending r list) []

end Pointwise
