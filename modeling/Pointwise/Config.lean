import Pointwise.Isa

/-!
# Settings of the compiler

## Main definitions

* `Config` — the settings.
* `Config.ofHost` — the defaults for a host.
* `Config.ofEnvironment` — the defaults with the overrides of the environment.
* `Config.validate` — the ranges that settings have to keep.
-/

set_option autoImplicit false

namespace Pointwise

/-- How many trailing dimensions a kernel may walk by itself. -/
def maxTileRank : Nat := 2

/-- The settings of a compiler. -/
structure Config where
  isa : Isa
  /-- The number of elements that one kernel call should at least process. -/
  minWork : Nat
  /-- The number of kernel calls that should at least be left to share among tasks. -/
  minParallelism : Nat
  /-- How many trailing dimensions a kernel may walk by itself. -/
  tileRankLimit : Nat
  deriving DecidableEq

namespace Config

/-- The default of `minWork`. -/
def defaultMinWork : Nat := 256

/-- The defaults for a host. -/
def ofHost (host : Host) : Config where
  isa := host.isa
  minWork := defaultMinWork
  minParallelism := max host.workers 1
  tileRankLimit := maxTileRank

/-- Checks the range of each setting. -/
def validate (config : Config) : Except Error Unit := do
  require (config.minWork ≠ 0) (.invalid .zeroMinWork)
  require (config.minParallelism ≠ 0) (.invalid .zeroMinParallelism)
  require (1 ≤ config.tileRankLimit ∧ config.tileRankLimit ≤ maxTileRank)
    (.invalid (.tileRank config.tileRankLimit))

/-! ## The environment -/

/-- The variables of the environment that are set. -/
structure Environment where
  isa : Option String
  minWork : Option String
  threads : Option String

/-- The names of the variables. -/
def isaVariable : String := "ELTWISE_JIT_ISA"

@[inherit_doc isaVariable]
def minWorkVariable : String := "ELTWISE_JIT_MIN_WORK"

@[inherit_doc isaVariable]
def threadsVariable : String := "ELTWISE_JIT_THREADS"

/-- The value of a variable, or a default if it is not set. A value that cannot be read is
refused. -/
def readVariable {α : Type} (name : String) (value : Option String) (read : String → Option α)
    (default : α) : Except Error α :=
  match value with
  | none => .ok default
  | some text =>
    match read text with
    | some x => .ok x
    | none => .error (.invalid (.variable name text))

/-- The count that a setting names; blanks around it do not matter. -/
def readCount (text : String) : Option Nat := Text.readCount (Text.trim text.toList)

/-- Default settings with the overrides of the environment. -/
def ofEnvironment (defaults : Config) (environment : Environment) : Except Error Config := do
  let isa ← readVariable isaVariable environment.isa Isa.read defaults.isa
  let minWork ← readVariable minWorkVariable environment.minWork readCount defaults.minWork
  let threads ← readVariable threadsVariable environment.threads readCount defaults.minParallelism
  let config := { defaults with isa, minWork, minParallelism := threads }
  config.validate
  return config

end Config

end Pointwise
