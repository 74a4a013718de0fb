import Pointwise.Machine.Register
import Pointwise.Program.MicroOp
import Pointwise.Text.Bracketed

/-!
# Causes of failure

An operation of the library fails for a cause, and the cause determines the message. The causes
form six groups by who has to act on them: an invalid configuration is a mistake of the caller, an
exhausted capacity makes a compiler fall back, a missing kernel and a shape mismatch arise when a
kernel is called, and a fault is a step that the arithmetic of 64-bit sizes does not allow.

## Main definitions

* `ConfigError`, `CapacityError`, `ShapeError`, `Fallback`, `Fault` — the causes by group.
* `Error` — a cause of failure.
* `Error.message` — its message.
-/

set_option autoImplicit false

namespace Pointwise

/-! ## Invalid configurations -/

/-- Mistakes in a setting, a program or a region of code. -/
inductive ConfigError where
  | zeroMinWork
  | zeroMinParallelism
  | tileRank (given : Nat)
  | variable (name value : String)
  | noInputShapes
  | noOps
  | noOutputs
  | readBeforeDefinition (position : Nat) (op : MicroOp) (value : Nat)
  | unknownOutput (value : Nat)
  | unreadInput (param : Nat)
  | broadcastFlags (flags inputs : Nat)
  | emptyRegion
  | emptyBody (owner : String)
  | emptyTile
  | zeroIncrement
  | tileDims (dims inputs outputs : Nat)
  | arity (op : String) (inputs outputs gotInputs gotOutputs : Nat)
  | tileWork (got : Nat)
  | tilePointers (expected got : Nat)
  | schedulerBody (entries : Nat)
  | schedulerTiles (first second : String)
  | schedulerInputs (got : Nat)
  | schedulerPointers (expected got : Nat)
  | schedulerOffsets (offsets pointers : Nat)
  | emptyKernel
  | kernelBody
  | kernelInputs (got : Nat)
  | kernelOutputs (got : Nat)
  | kernelPointers (params registers : Nat)
  | kernelTable (described params : Nat)
  deriving DecidableEq

/-- The text of a mistake. -/
def ConfigError.text : ConfigError → String
  | .zeroMinWork => "min_jit_work_amount must be > 0"
  | .zeroMinParallelism => "min_parallelism must be > 0"
  | .tileRank given => s!"max_tile_rank must be in 1..=2, got {given}"
  | .variable name value => s!"{name}={value}"
  | .noInputShapes => "at least one input shape is required"
  | .noOps => "program has no ops"
  | .noOutputs => "program has no outputs"
  | .readBeforeDefinition position op value =>
    s!"op {position} ({op.text}) reads value {value} before it is defined"
  | .unknownOutput value => s!"output refers to unknown value {value}"
  | .unreadInput param => s!"input {param} is never read"
  | .broadcastFlags flags inputs => s!"{flags} broadcast flags for {inputs} inputs"
  | .emptyRegion => "cannot allocate an empty region"
  | .emptyBody owner => s!"{owner} has an empty body"
  | .emptyTile => "tile body is empty"
  | .zeroIncrement => "tile increment must be >= 1"
  | .tileDims dims inputs outputs =>
    s!"tile has {dims} io dims for {inputs} inputs and {outputs} outputs"
  | .arity op inputs outputs gotInputs gotOutputs =>
    s!"{op} expects {inputs} inputs and {outputs} outputs, got {gotInputs} and {gotOutputs}"
  | .tileWork got => s!"Tile expects 1 work amount register, got {got}"
  | .tilePointers expected got => s!"Tile expects {expected} data pointers, got {got}"
  | .schedulerBody entries =>
    s!"TileScheduler body must hold a vector and a scalar tile, got {entries} entries"
  | .schedulerTiles first second =>
    s!"TileScheduler body must hold two tiles, got {first} and {second}"
  | .schedulerInputs got => s!"TileScheduler expects 3 inputs, got {got}"
  | .schedulerPointers expected got =>
    s!"TileScheduler expects {expected} data pointers, got {got}"
  | .schedulerOffsets offsets pointers =>
    s!"{offsets} scheduler offsets for {pointers} data pointers"
  | .emptyKernel => "kernel body is empty"
  | .kernelBody => "kernel body must be a single TileScheduler"
  | .kernelInputs got => s!"Kernel expects 2 inputs, got {got}"
  | .kernelOutputs got => s!"Kernel expects no outputs, got {got}"
  | .kernelPointers params registers =>
    s!"{params} parameters but {registers} data pointer registers"
  | .kernelTable described params =>
    s!"compile args describe {described} parameters, kernel has {params}"

/-! ## Exhausted capacities -/

/-- Limits of the machine or of the calling convention that a request exceeds. -/
inductive CapacityError where
  | params (inputs outputs : Nat)
  | registerIndex (cls : RegisterClass) (index : Nat)
  | liveValues (count : Nat)
  | pool (owner : String) (kind : RegisterKind) (index size : Nat)
  | auxiliaryVec (owner : String)
  | auxiliaryGpr (owner : String)
  | immediate (value : Int)
  | outerCounter
  | innerCounter
  | pointerScratch
  | dynamicRank (needed : Nat)
  deriving DecidableEq

/-- The text of an exceeded limit. -/
def CapacityError.text : CapacityError → String
  | .params inputs outputs => s!"{inputs} inputs + {outputs} outputs exceed 12 parameters"
  | .registerIndex cls index => s!"{cls.text} index {index} out of range (0..16)"
  | .liveValues count =>
    s!"program keeps {count} values live, only 16 vector registers exist"
  | .pool owner kind index size =>
    s!"{owner}: abstract {kind.text} register {index} exceeds the pool of {size}"
  | .auxiliaryVec owner => s!"{owner} needs an auxiliary vector register"
  | .auxiliaryGpr owner => s!"{owner} needs an auxiliary gpr"
  | .immediate value => s!"offset {value} does not fit a 32-bit immediate"
  | .outerCounter => "no gpr left for the outer work amount"
  | .innerCounter => "no gpr left for the inner work amount"
  | .pointerScratch => "dynamic kernel needs a scratch gpr for pointer setup"
  | .dynamicRank needed => s!"dynamic kernel was built for rank 6, shapes need {needed}"

/-! ## Missing kernels -/

/-- The reasons why a compiled graph has no kernel. -/
inductive Fallback where
  | callDims (needed : Nat)
  | dynamicRank (rank : Nat)
  | exhausted (cause : CapacityError)
  deriving DecidableEq

/-- The text of a reason. -/
def Fallback.text : Fallback → String
  | .callDims needed => s!"harness needs {needed} dims (max 5)"
  | .dynamicRank rank => s!"dynamic kernels support rank 6 only, got {rank}"
  | .exhausted cause => cause.text

/-! ## Shape mismatches -/

/-- Shapes or buffers that do not fit together. -/
inductive ShapeError where
  | broadcast (master shape : List Nat)
  | shapeCount (expected got : Nat)
  | bufferCount (inputs outputs gotInputs gotOutputs : Nat)
  | inputLength (index length : Nat) (shape : List Nat) (got : Nat)
  | outputLength (index length got : Nat)
  | pattern (expected got : List Bool) (shapes : List (List Nat))
  deriving DecidableEq

/-- What was expected. -/
def ShapeError.expected : ShapeError → String
  | .broadcast master _ => Text.shape master
  | .shapeCount expected _ => s!"{expected} input shapes"
  | .bufferCount inputs outputs _ _ => s!"{inputs} inputs, {outputs} outputs"
  | .inputLength index length shape _ =>
    s!"input {index} of {length} elements ({Text.shape shape})"
  | .outputLength index length _ => s!"output {index} of {length} elements"
  | .pattern expected _ _ => s!"trailing-dim broadcast pattern {Text.flags expected}"

/-- What was given instead. -/
def ShapeError.given : ShapeError → String
  | .broadcast _ shape => Text.shape shape
  | .shapeCount _ got => s!"{got}"
  | .bufferCount _ _ gotInputs gotOutputs => s!"{gotInputs} inputs, {gotOutputs} outputs"
  | .inputLength _ _ _ got => s!"{got} elements"
  | .outputLength _ _ got => s!"{got} elements"
  | .pattern _ got shapes => s!"{Text.flags got} for {Text.shapes shapes}"

/-! ## All causes -/

/-- Steps that 64-bit sizes or the extent of a list do not allow. -/
inductive Fault where
  /-- A size or an offset left its range. -/
  | overflow
  | divisionByZero
  /-- A position beyond the end of a list. -/
  | outOfRange
  /-- A kernel call that does not come to its return. -/
  | runaway
  deriving DecidableEq

/-- A cause of failure. -/
inductive Error where
  | invalid (cause : ConfigError)
  | capacity (cause : CapacityError)
  | notCompiled (cause : Fallback)
  | shape (cause : ShapeError)
  /-- Vector code was asked for on an instruction set without vectors. -/
  | unsupported
  /-- A kernel without code cannot be mapped into memory. -/
  | emptyCode
  | fault (cause : Fault)
  deriving DecidableEq

/-- The message of a cause; a fault has none. -/
def Error.message : Error → String
  | .invalid cause => s!"invalid config: {cause.text}"
  | .capacity cause => s!"capacity exceeded: {cause.text}"
  | .notCompiled cause => s!"no compiled kernel: {cause.text}"
  | .shape cause => s!"shape mismatch: expected {cause.expected}, got {cause.given}"
  | .unsupported => "unsupported: code generation requires AVX2 or AVX-512"
  | .emptyCode => "executable memory: refusing to map an empty kernel"
  | .fault _ => ""

/-! ## Conditions -/

/-- Goes on if a condition holds, and fails with a given cause otherwise. -/
def require (condition : Prop) [Decidable condition] (cause : Error) : Except Error Unit :=
  if condition then .ok () else .error cause

@[simp] theorem require_eq_ok {condition : Prop} [Decidable condition] {cause : Error} :
    require condition cause = .ok () ↔ condition := by
  unfold require
  split <;> simp_all

end Pointwise
