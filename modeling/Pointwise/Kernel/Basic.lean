import Pointwise.Machine.Layout
import Pointwise.Region.Allocation
import Pointwise.Region.Emit

/-!
# Kernels

A kernel is a function of two arguments: the address of an index vector and the address of an
argument block. It saves the registers that it has to give back, computes the data pointer of each
parameter for the given indices, runs a scheduler, and restores the registers.

The pointer of a parameter is its address in the block plus, for each dimension that is left to
the kernel calls, the index times the stride. A static kernel has the strides built in, and leaves
out those that are zero. A dynamic one reads five strides of every parameter from the block.

## Main definitions

* `KernelMode` — whether the offsets are built in or read from the block.
* `Kernel` — a scheduler with registers, and the registers that remain.
* `Kernel.ofRegion` — the kernel with a given body.
* `Kernel.emit` — its code for given operands, and `Kernel.code` for given numbers of tensors.
-/

set_option autoImplicit false

namespace Pointwise

/-- Whether the offsets of a kernel are built in or read from the argument block. -/
inductive KernelMode where
  | static (table : OffsetTable)
  | dynamic
  deriving DecidableEq

/-- Where a scheduler in a kernel of this mode finds its work amounts. -/
def KernelMode.schedule : KernelMode → ScheduleMode
  | .static table => .ofTable table
  | .dynamic => .dynamic

/-- A scheduler with registers, and the registers that remain. -/
structure Kernel where
  mode : KernelMode
  scheduleMode : ScheduleMode
  /-- The body of the scheduler. -/
  body : Region
  /-- The inputs of the scheduler. -/
  input : List Nat
  /-- The registers of the data pointers: inputs first, ascending. -/
  pointers : List Nat
  freeGprs : List Nat
  freeVecs : List Nat

namespace Kernel

/-- The general registers that a kernel may assign to parameters: all but the stack and frame
pointers and the two arguments. -/
def gprPool : List Nat :=
  (List.range registerCount).filter fun r =>
    r ∉ [Register.rsp, .rbp, .indexArgument, .blockArgument].map (·.val)

/-- The vector registers. -/
def vecPool : List Nat := List.range registerCount

/-- The kernel with a given body, which has to be a single scheduler. -/
def ofRegion (mode : KernelMode) (region : Region) : Except Error Kernel := do
  require (region.length ≠ 0) (.invalid .emptyKernel)
  match region with
  | [.scheduler _ _ _ _] =>
    let allocation ← Region.allocate vecPool gprPool region
    match allocation.region with
    | [.scheduler scheduleMode body input _] =>
      return {
        mode, scheduleMode, body, input
        pointers := allocation.gprs
        freeGprs := gprPool.filter (· ∉ allocation.gprs)
        freeVecs := vecPool.filter (· ∉ allocation.vecs) }
    | _ => .error (.invalid .kernelBody)
  | _ => .error (.invalid .kernelBody)

/-! ## Frame -/

/-- The code that saves the registers that a kernel has to give back. -/
def preamble : Code := calleeSaved.map .push

/-- The code that restores the registers and returns. -/
def postamble : Code := .zeroUpper :: calleeSaved.reverse.map .pop ++ [.ret]

/-! ## Data pointers -/

/-- The code that adds the product of the word at `index` and a stride to a pointer; `setStride`
puts the stride into the scratch register. -/
def addProduct (pointer scratch : Register) (setStride : Instruction) (index : MemoryOperand) :
    Code :=
  [setStride, .mulLoad scratch index, .addWord pointer scratch]

/-- The entry of the index vector for a dimension. -/
def indexEntry (dim : Nat) : MemoryOperand := ⟨.indexArgument, (dim : Int) * 8⟩

/-- The code that adds the product for one dimension with a stride that is built in; nothing if
the dimension or the stride makes it zero. -/
def addStaticProduct (table : OffsetTable) (strides : List Int) (pointer scratch : Register)
    (dim : Nat) : Except Error Code := do
  if (← Checked.get table.master dim) = 1 then return []
  else
    let stride ← Checked.get strides dim
    if stride = 0 then return []
    else return addProduct pointer scratch (.setWord scratch stride) (indexEntry dim)

/-- The code that loads the address of a parameter from the argument block. -/
def loadPointer (pointer : Register) (param inputs : Nat) : Except Error Code := do
  let slot ← ArgumentBlock.pointerSlot param inputs
  return [.loadWord pointer (← MemoryOperand.behind Register.blockArgument.val slot)]

/-- The code that computes the data pointer of one parameter from a table. The last data pointer
serves as scratch for the others, and the argument block's register for the last one. -/
def staticPointer (table : OffsetTable) (inputs dims : Nat) (pointers : List Nat)
    (param pointer : Nat) : Except Error Code := do
  let p ← RegisterClass.gpr64.pick pointer
  let scratch ← RegisterClass.gpr64.pick
    (if param + 1 < pointers.length then pointers.getLastD 0 else Register.blockArgument.val)
  let load ← loadPointer p param inputs
  let strides ← table.paramStrides param
  let products ← (List.range dims).mapM (addStaticProduct table strides p scratch)
  return load ++ products.flatten

/-- The code that computes all data pointers from a table. -/
def staticPointers (table : OffsetTable) (inputs : Nat) (pointers : List Nat) :
    Except Error Code := do
  let dims ← table.callDims
  let code ← pointers.zipIdx.mapM fun (pointer, param) =>
    staticPointer table inputs dims pointers param pointer
  return code.flatten

/-- The code that adds the product for one dimension with a stride from the argument block. -/
def addDynamicProduct (param : Nat) (pointer scratch : Register) (dim : Nat) :
    Except Error Code := do
  let stride ← MemoryOperand.behind Register.blockArgument.val
    (ArgumentBlock.stridesAt + (param * maxCallDims + dim) * 8)
  return addProduct pointer scratch (.loadWord scratch stride) (indexEntry dim)

/-- The code that computes the data pointer of one parameter from the argument block. -/
def dynamicPointer (inputs : Nat) (scratch : Register) (param pointer : Nat) :
    Except Error Code := do
  let p ← RegisterClass.gpr64.pick pointer
  let load ← loadPointer p param inputs
  let products ← (List.range maxCallDims).mapM (addDynamicProduct param p scratch)
  return load ++ products.flatten

/-- The code that computes all data pointers from the argument block; a free register serves as
scratch. -/
def dynamicPointers (inputs : Nat) (pointers free : List Nat) : Except Error Code := do
  let (scratch, _) ← Schedule.takeLast free .pointerScratch
  let r ← RegisterClass.gpr64.pick scratch
  let code ← pointers.zipIdx.mapM fun (pointer, param) => dynamicPointer inputs r param pointer
  return code.flatten

/-! ## Code -/

/-- A kernel has two inputs, the numbers of input and output tensors, and no outputs; both have to
agree with its data pointers and with its table. -/
def checkOperands (kernel : Kernel) (input output : List Nat) : Except Error Unit := do
  require (input.length = 2) (.invalid (.kernelInputs input.length))
  require (output.length = 0) (.invalid (.kernelOutputs output.length))
  let params ← Checked.add (← Checked.get input 0) (← Checked.get input 1)
  require (kernel.pointers.length = params)
    (.invalid (.kernelPointers params kernel.pointers.length))
  match kernel.mode with
  | .static table => do
    let described ← table.params
    require (described = params) (.invalid (.kernelTable described params))
  | .dynamic => return ()

/-- The code that computes the data pointers. -/
def pointerCode (kernel : Kernel) (inputs : Nat) : Except Error Code :=
  match kernel.mode with
  | .static table => staticPointers table inputs kernel.pointers
  | .dynamic => dynamicPointers inputs kernel.pointers kernel.freeGprs

/-- The general registers that are free once the data pointers are set: those of the arguments are
no longer needed, but a dynamic scheduler goes on reading the block. -/
def schedulerPool (kernel : Kernel) : List Nat :=
  kernel.freeGprs ++ match kernel.mode with
    | .static _ => [Register.indexArgument.val, Register.blockArgument.val]
    | .dynamic => [Register.indexArgument.val]

/-- The scheduler of a kernel, which gets the data pointers for outputs. -/
def scheduler (kernel : Kernel) : Entry :=
  .scheduler kernel.scheduleMode kernel.body kernel.input kernel.pointers

/-- The code of a kernel with given operands. -/
def emit (kernel : Kernel) (input output : List Nat) : Except Error Code := do
  kernel.checkOperands input output
  let pointers ← kernel.pointerCode (← Checked.get input 0)
  let rows ← kernel.scheduler.emit kernel.freeVecs kernel.schedulerPool
  return preamble ++ pointers ++ rows ++ postamble

/-- The code of a kernel for given numbers of input and output tensors. -/
def code (kernel : Kernel) (inputs outputs : Nat) : Except Error Code :=
  kernel.emit [inputs, outputs] []

end Kernel

end Pointwise
