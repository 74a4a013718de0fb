import Pointwise.Compiler
import Pointwise.Subgraph.Buffers

/-!
# Subgraphs compiled for many shapes

A dynamic subgraph is a program compiled for all shapes of rank six that have a last dimension of
one in the same inputs. What a kernel has to know of the shapes is given to it with each call.

## Main definitions

* `DynamicSubgraph` — a program compiled for many shapes.
* `Compiler.compileDynamic` — the dynamic subgraph of a program and sample shapes.
* `DynamicSubgraph.prepare` — what a call for given shapes needs.
* `DynamicSubgraph.execute` — a computation on buffers.
-/

set_option autoImplicit false

namespace Pointwise

/-- A program compiled for many shapes. -/
structure DynamicSubgraph where
  compiler : Compiler
  inputs : Nat
  outputs : Nat
  /-- Which inputs have a last dimension of one. -/
  pattern : List Bool
  /-- The kernel, or the reason why there is none. -/
  kernel : Except Fallback KernelImage

/-- The program compiled for all shapes that are broadcast like the given ones. -/
def Compiler.compileDynamic (compiler : Compiler) (program : Program) (shapes : List Shape) :
    Except Error DynamicSubgraph := do
  let domain ← compiler.plan program shapes
  let kernel ←
    if domain.rank ≠ tensorRank then pure (.error (.dynamicRank domain.rank))
    else compiler.build program domain .dynamic
  return {
    compiler
    inputs := program.inputs
    outputs := program.outputs.length
    pattern := ← domain.broadcastFlags
    kernel }

namespace DynamicSubgraph

/-- Whether there is a kernel. -/
def isOptimized (graph : DynamicSubgraph) : Bool := graph.kernel.toBool

/-- The number of pages that the kernel takes. -/
def pages (graph : DynamicSubgraph) : Nat :=
  match graph.kernel with
  | .ok image => image.pages
  | .error _ => 0

/-- What a call for given shapes needs: their domain, and the argument block without addresses. -/
def prepare (graph : DynamicSubgraph) (shapes : List Shape) :
    Except Error (Domain × ArgumentBlock) := do
  require (shapes.length = graph.inputs) (.shape (.shapeCount graph.inputs shapes.length))
  let domain ← (Optimizer.ofConfig graph.compiler.config).plan shapes graph.outputs
  require (domain.rank = tensorRank) (.capacity (.dynamicRank domain.rank))
  let pattern ← domain.broadcastFlags
  require (pattern = graph.pattern) (.shape (.pattern graph.pattern pattern shapes))
  let table ← OffsetTable.ofDomain domain
  return (domain, .ofTable table)

/-- Computes on buffers that lie in memory, given their addresses and what the call needs. -/
def executeAt (graph : DynamicSubgraph) (image : KernelImage) (domain : Domain)
    (block : ArgumentBlock) (site : CallSite) (sources targets : List Address)
    (memory : Memory) (found : Residue := fun _ => .cleared) : Except Error Memory := do
  if domain.elements = 0 then return memory
  else
    let calls ← Dispatch.tasks domain.callShape graph.compiler.config.minParallelism
    image.callAll domain.tiled site found (block.withPointers sources targets) calls.flatten memory

/-- Computes on buffers of given shapes: the outputs, given all inputs and the outputs' former
contents. -/
def execute (graph : DynamicSubgraph) (shapes : List Shape) (inputs outputs : List Buffers.Buffer)
    (found : Residue := fun _ => .cleared) : Except Error (List Buffers.Buffer) :=
  match graph.kernel with
  | .error cause => .error (.notCompiled cause)
  | .ok image => do
    let (domain, block) ← graph.prepare shapes
    Buffers.check shapes domain.elements graph.outputs inputs outputs
    Buffers.through inputs outputs (graph.executeAt image domain block Buffers.callSite · · · found)

end DynamicSubgraph

end Pointwise
