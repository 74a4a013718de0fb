import Pointwise.Kernel.Image
import Pointwise.Program.Lowering

/-!
# The compiler

The compiler plans a domain for the shapes of a program's inputs, lowers the program to tiles,
puts the tiles into a scheduler and the scheduler into a kernel. If a capacity of the machine is
exhausted on the way, there is no kernel, and the reason is kept; every other failure is one.

## Main definitions

* `Compiler` — validated settings.
* `Compiler.plan` — the domain for a program and the shapes of its inputs.
* `Compiler.generate` — the code of a kernel.
* `Compiler.build` — a kernel, or the reason why there is none.
-/

set_option autoImplicit false

namespace Pointwise

/-- Validated settings. -/
structure Compiler where
  config : Config
  valid : config.validate = .ok ()

namespace Compiler

/-- The compiler with given settings, if they are valid. -/
def ofConfig (config : Config) : Except Error Compiler :=
  match h : config.validate with
  | .ok () => .ok ⟨config, h⟩
  | .error cause => .error cause

/-- The domain for a program and the shapes of its inputs. -/
def plan (compiler : Compiler) (program : Program) (shapes : List Shape) :
    Except Error Domain := do
  require (shapes.length = program.inputs)
    (.shape (.shapeCount program.inputs shapes.length))
  (Optimizer.ofConfig compiler.config).plan shapes program.outputs.length

/-- The scheduler of a program: a tile of the full width and one for single elements, with the
registers that the lowering gives them. -/
def schedulerRegion (program : Program) (domain : Domain) (w : VectorWidth) (mode : KernelMode) :
    Except Error Region := do
  let inputs := program.inputs
  let outputs := program.outputs.length
  let inputDims ← domain.inputDims
  let dims := inputDims ++ List.replicate outputs (← Checked.getBack domain.master 1)
  let lowered ← program.lower (inputDims.map (· = 1)) w
  let vector ← Tile.create lowered.vector w.lanes inputs outputs dims elementSize
  let scalar ← Tile.create lowered.scalar 1 inputs outputs dims elementSize
  let tiles : Region := [.tile vector lowered.vector [] [], .tile scalar lowered.scalar [] []]
  Region.checkTiles tiles
  return [.scheduler mode.schedule tiles [inputs, outputs, w.lanes] []]

/-- The code of a kernel that computes a program on a domain. -/
def generate (compiler : Compiler) (program : Program) (domain : Domain) (mode : KernelMode) :
    Except Error Code := do
  let w ← compiler.config.isa.vectorWidth
  let region ← schedulerRegion program domain w mode
  let kernel ← Kernel.ofRegion mode region
  kernel.code program.inputs program.outputs.length

/-- A kernel that computes a program on a domain, or the capacity that it exhausts. -/
def build (compiler : Compiler) (program : Program) (domain : Domain) (mode : KernelMode) :
    Except Error (Except Fallback KernelImage) :=
  match compiler.generate program domain mode with
  | .ok code => do return .ok (← KernelImage.ofCode code)
  | .error (.capacity cause) => .ok (.error (.exhausted cause))
  | .error cause => .error cause

end Compiler

end Pointwise
