import Pointwise.Compiler
import Pointwise.Subgraph.Buffers

/-!
# Subgraphs compiled for fixed shapes

A static subgraph is a program compiled for one list of input shapes, all offsets being built into
its kernel.

## Main definitions

* `StaticSubgraph` — a program compiled for fixed shapes.
* `Compiler.compile` — the static subgraph of a program and shapes.
* `StaticSubgraph.execute` — a computation on buffers.
* `StaticSubgraph.executeAt` — a computation on buffers that lie in memory.
-/

set_option autoImplicit false

namespace Pointwise

/-- A program compiled for fixed shapes. -/
structure StaticSubgraph where
  inputShapes : List Shape
  outputShape : Shape
  domain : Domain
  table : OffsetTable
  /-- The kernel, or the reason why there is none. -/
  kernel : Except Fallback KernelImage
  /-- The largest number of tasks among which kernel calls are shared. -/
  maxTasks : Nat

/-- The program compiled for given input shapes. -/
def Compiler.compile (compiler : Compiler) (program : Program) (shapes : List Shape) :
    Except Error StaticSubgraph := do
  let outputShape ← Shape.broadcast shapes
  let domain ← compiler.plan program shapes
  let table ← OffsetTable.ofDomain domain
  let callDims ← domain.callDims
  let kernel ←
    if maxCallDims < callDims then pure (.error (.callDims callDims))
    else compiler.build program domain (.static table)
  return {
    inputShapes := shapes
    outputShape, domain, table, kernel
    maxTasks := compiler.config.minParallelism }

namespace StaticSubgraph

/-- Whether there is a kernel. -/
def isOptimized (graph : StaticSubgraph) : Bool := graph.kernel.toBool

/-- The number of pages that the kernel takes. -/
def pages (graph : StaticSubgraph) : Nat :=
  match graph.kernel with
  | .ok image => image.pages
  | .error _ => 0

/-- Computes on buffers that lie in memory, given their addresses. -/
def executeAt (graph : StaticSubgraph) (site : CallSite) (sources targets : List Address)
    (memory : Memory) (found : Residue := fun _ => .cleared) : Except Error Memory :=
  match graph.kernel with
  | .error cause => .error (.notCompiled cause)
  | .ok image => do
    Buffers.checkCounts graph.table.inputs graph.table.outputs sources.length targets.length
    if graph.domain.elements = 0 then return memory
    else
      let calls ← Dispatch.tasks graph.domain.callShape graph.maxTasks
      image.callAll graph.domain.tiled site found
        (ArgumentBlock.empty.withPointers sources targets) calls.flatten memory

/-- Computes on buffers: the outputs, given all inputs and the outputs' former contents. -/
def execute (graph : StaticSubgraph) (inputs outputs : List Buffers.Buffer)
    (found : Residue := fun _ => .cleared) : Except Error (List Buffers.Buffer) := do
  Buffers.check graph.inputShapes graph.domain.elements graph.table.outputs inputs outputs
  Buffers.through inputs outputs (graph.executeAt Buffers.callSite · · · found)

end StaticSubgraph

end Pointwise
