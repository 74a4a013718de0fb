import Pointwise.Kernel.Basic
import Pointwise.Machine.Run

/-!
# Kernels in memory

A kernel is called with the address of an index vector and the address of an argument block, on a
stack that has the return address on top. Its code is kept in whole pages of memory.

Nothing is known of the other registers when a kernel is called: they hold what the caller, or the call
before, has left there. What they hold is therefore a parameter of every call.

## Main definitions

* `KernelImage` — code that is ready to be called.
* `CallSite` — where the stack, the argument block and the index vector lie.
* `Residue` — what calls find in the registers.
* `KernelImage.call` — one call.
* `KernelImage.callAll` — a sequence of calls with the same argument block.
-/

set_option autoImplicit false

namespace Pointwise

/-- The number of bytes of a page. -/
def pageSize : Nat := 4096

/-- Code that is ready to be called. -/
structure KernelImage where
  code : Code

namespace KernelImage

/-- The image of code; there has to be some. -/
def ofCode (code : Code) : Except Error KernelImage := do
  require (code.length ≠ 0) .emptyCode
  return ⟨code⟩

/-- The number of pages that the code takes. -/
def pages (image : KernelImage) : Nat :=
  ((Code.bytes image.code).length + pageSize - 1) / pageSize

/-- The number of bytes of these pages. -/
def byteSize (image : KernelImage) : Nat := image.pages * pageSize

/-- A short description of an image. -/
def text (image : KernelImage) : String :=
  s!"CompiledKernel \x7b code_size: {image.byteSize} \x7d"

end KernelImage

/-! ## Calls -/

/-- Where the stack, the argument block and the index vector of a call lie. -/
structure CallSite where
  /-- The place of the return address; the stack grows downwards from here. -/
  stack : Address
  block : Address
  index : Address

/-- What calls find in the registers, by index vector: there is one call for each. The stack pointer and
the arguments take the place of what is found in their registers. -/
abbrev Residue := (index : List Nat) → Core

/-- The state at the first instruction of a call. -/
def CallSite.entry (site : CallSite) (found : Core) (memory : Memory) : MachineState where
  words :=
    ((found.words.set .rsp site.stack).set .indexArgument site.index).set .blockArgument site.block
  vectors := found.vectors
  outcome := found.outcome
  memory

namespace KernelImage

/-- One call with an index vector. It has to return within a bounded number of steps. -/
def call (image : KernelImage) (bound : Nat) (site : CallSite) (found : Residue) (memory : Memory)
    (index : List Nat) : Except Error Memory :=
  let memory := memory.writeWords site.index (index.map (BitVec.ofNat 64))
  match Machine.run image.code bound 0 (site.entry (found index) memory) with
  | some s => .ok s.memory
  | none => .error (.fault .runaway)

/-- A bound on the steps of a call: no instruction of a kernel runs more often than once per
element that the call processes. -/
def stepBound (image : KernelImage) (work : WorkAmounts) : Nat :=
  image.code.length * (work.outer + 1) * (work.inner + 1)

/-- A sequence of calls with the same argument block. -/
def callAll (image : KernelImage) (work : WorkAmounts) (site : CallSite) (found : Residue)
    (block : ArgumentBlock) (calls : List (List Nat)) (memory : Memory) : Except Error Memory :=
  calls.foldlM (image.call (image.stepBound work) site found)
    (memory.writeWords site.block block.words)

end KernelImage

end Pointwise
