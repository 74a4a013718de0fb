import Pointwise.Dispatch
import Pointwise.Kernel.Image

/-!
# Buffers of a call

The tensors of a call are buffers of numbers. Their number and their lengths are checked against
the shapes before anything is computed; then they are placed in memory one behind the other.

## Main definitions

* `Buffers.check` — the conditions on the buffers.
* `Buffers.place` — the addresses of buffers.
* `Buffers.through` — a computation in memory, seen as one from buffers to buffers.
-/

set_option autoImplicit false

namespace Pointwise.Buffers

/-- The contents of a tensor. -/
abbrev Buffer := List Binary32

/-- The numbers of input and output buffers have to be those of a program. -/
def checkCounts (inputs outputs gotInputs gotOutputs : Nat) : Except Error Unit :=
  require (gotInputs = inputs ∧ gotOutputs = outputs)
    (.shape (.bufferCount inputs outputs gotInputs gotOutputs))

/-- An input buffer has to have as many elements as its shape. -/
def checkInput (index : Nat) (buffer : Buffer) (shape : Shape) : Except Error Unit := do
  let length ← Checked.product shape
  require (buffer.length = length) (.shape (.inputLength index length shape buffer.length))

/-- An output buffer has to have a given length. -/
def checkOutput (length index : Nat) (buffer : Buffer) : Except Error Unit :=
  require (buffer.length = length) (.shape (.outputLength index length buffer.length))

/-- The conditions on the buffers of a call: their numbers first, then the length of each input
and of each output. -/
def check (shapes : List Shape) (outputLength outputs : Nat)
    (inputBuffers outputBuffers : List Buffer) : Except Error Unit := do
  checkCounts shapes.length outputs inputBuffers.length outputBuffers.length
  (inputBuffers.zip shapes).zipIdx.forM fun ((buffer, shape), i) => checkInput i buffer shape
  outputBuffers.zipIdx.forM fun (buffer, i) => checkOutput outputLength i buffer

/-! ## Buffers in memory -/

/-- Where the stack, the argument block and the index vector lie: in front of all buffers. -/
def callSite : CallSite where
  stack := 0x100000
  block := 0x200000
  index := 0x300000

/-- The address of the first buffer. -/
def firstAddress : Nat := 0x100000000

/-- The addresses of buffers that lie one behind the other from an address on. -/
def place (start : Nat) : List Buffer → List Address
  | [] => []
  | buffer :: buffers =>
    BitVec.ofNat 64 start :: place (start + buffer.length * elementSize) buffers

/-- The memory with buffers written to addresses. -/
def store (memory : Memory) (buffers : List (Address × Buffer)) : Memory :=
  buffers.foldl (fun memory (a, buffer) => memory.writeNumbers a buffer) memory

/-- The outputs of a computation in memory that is given the addresses of all buffers. -/
def through (inputs outputs : List Buffer)
    (compute : (sources targets : List Address) → Memory → Except Error Memory) :
    Except Error (List Buffer) := do
  let addresses := place firstAddress (inputs ++ outputs)
  let sources := addresses.take inputs.length
  let targets := addresses.drop inputs.length
  let memory := store .empty (addresses.zip (inputs ++ outputs))
  let memory ← compute sources targets memory
  return (targets.zip outputs).map fun (a, buffer) => memory.readNumbers a buffer.length

end Pointwise.Buffers
