import Pointwise.Region.Basic

/-!
# Register allocation

Abstract register `i` of a region becomes the `i`-th register of a pool. A container's body draws
from the same pools, except that the general registers of the container's own outputs are taken
out.

## Main definitions

* `Region.allocate` — a region with its abstract registers replaced.
* `Region.registersUsed` — the registers of one kind that occur in a region.
* `Allocation` — an allocated region with the registers that it uses.

## Main results

* `Region.replaceRegisters_eq_ok` — a replacement succeeds if every number is below the pool's
  size, and then reads the pool.
-/

set_option autoImplicit false

namespace Pointwise

/-- The registers of a pool with given numbers. The owner and the kind are named if a number is
too large. -/
def Region.replaceRegisters (owner : String) (kind : RegisterKind) (pool : List Nat)
    (numbers : List Nat) : Except Error (List Nat) :=
  numbers.mapM fun i =>
    match pool[i]? with
    | some r => .ok r
    | none => .error (.capacity (.pool owner kind i pool.length))

/-- The input registers of an operation, replaced if they are registers at all. -/
def Region.replaceInputs (owner : String) (flow : DataFlow) (vecs gprs : List Nat)
    (input : List Nat) : Except Error (List Nat) :=
  match flow.inputKind with
  | none => .ok input
  | some .gpr => replaceRegisters owner .gpr gprs input
  | some .vec => replaceRegisters owner .vec vecs input

/-- The output registers of an operation, replaced. -/
def Region.replaceOutputs (owner : String) (flow : DataFlow) (vecs gprs : List Nat)
    (output : List Nat) : Except Error (List Nat) :=
  match flow.outputKind with
  | .gpr => replaceRegisters owner .gpr gprs output
  | .vec => replaceRegisters owner .vec vecs output

mutual

/-- An entry with its abstract registers replaced from two pools. -/
def Entry.allocate (vecs gprs : List Nat) : Entry → Except Error Entry
  | .leaf op input output => do
    let input ← Region.replaceInputs op.name op.dataFlow vecs gprs input
    let output ← Region.replaceOutputs op.name op.dataFlow vecs gprs output
    return .leaf op input output
  | .tile t body input output => do
    let output ← Region.replaceRegisters "Tile" .gpr gprs output
    require (body.length ≠ 0) (.invalid (.emptyBody "Tile"))
    let body ← Region.allocateAll vecs (gprs.filter (· ∉ output)) body
    return .tile t body input output
  | .scheduler mode body input output => do
    let output ← Region.replaceRegisters "TileScheduler" .gpr gprs output
    require (body.length ≠ 0) (.invalid (.emptyBody "TileScheduler"))
    let body ← Region.allocateAll vecs (gprs.filter (· ∉ output)) body
    return .scheduler mode body input output

/-- The entries of a list with their abstract registers replaced from two pools. -/
def Region.allocateAll (vecs gprs : List Nat) : List Entry → Except Error (List Entry)
  | [] => return []
  | entry :: entries => do
    return (← entry.allocate vecs gprs) :: (← Region.allocateAll vecs gprs entries)

end

/-! ## Registers in use -/

/-- The registers of one kind among the operands of an operation. -/
def DataFlow.operandsOf (flow : DataFlow) (kind : RegisterKind) (input output : List Nat) :
    List Nat :=
  (if flow.inputKind = some kind then input else []) ++
    (if flow.outputKind = kind then output else [])

mutual

/-- The registers of one kind that occur in an entry and in its body. -/
def Entry.occurring (kind : RegisterKind) : Entry → List Nat
  | .leaf op input output => op.dataFlow.operandsOf kind input output
  | .tile _ body input output =>
    DataFlow.gprToGpr.operandsOf kind input output ++ Region.occurring kind body
  | .scheduler _ body input output =>
    DataFlow.gprToGpr.operandsOf kind input output ++ Region.occurring kind body

/-- The registers of one kind that occur in the entries of a list and in their bodies. -/
def Region.occurring (kind : RegisterKind) : List Entry → List Nat
  | [] => []
  | entry :: entries => entry.occurring kind ++ Region.occurring kind entries

end

/-- An allocated region with the registers that it uses, ascending. -/
structure Allocation where
  region : Region
  vecs : List Nat
  gprs : List Nat

/-- A region with its abstract registers replaced from two pools. -/
def Region.allocate (vecs gprs : List Nat) (region : Region) : Except Error Allocation := do
  require (region.length ≠ 0) (.invalid .emptyRegion)
  let region ← Region.allocateAll vecs gprs region
  return {
    region
    vecs := ascending (Region.occurring .vec region)
    gprs := ascending (Region.occurring .gpr region) }

/-- A replacement succeeds exactly if every number is below the pool's size, and then reads the
pool. -/
theorem Region.replaceRegisters_eq_ok {owner : String} {kind : RegisterKind}
    {pool numbers registers : List Nat} :
    Region.replaceRegisters owner kind pool numbers = .ok registers ↔
      numbers.map (pool[·]?) = registers.map some := by
  unfold Region.replaceRegisters
  induction numbers generalizing registers with
  | nil => cases registers <;> simp [pure, Except.pure]
  | cons i numbers ih =>
    simp only [List.mapM_cons, List.map_cons]
    cases hi : pool[i]? with
    | none => cases registers <;> simp [bind, Except.bind]
    | some r =>
      simp only [bind, Except.bind]
      split
      · rename_i cause hc
        cases registers with
        | nil => simp
        | cons s registers =>
          simp only [reduceCtorEq, List.map_cons, List.cons.injEq, false_iff, not_and]
          intro _ h
          rw [ih.2 h] at hc
          simp at hc
      · rename_i rest hr
        cases registers with
        | nil => simp [pure, Except.pure]
        | cons s registers =>
          simp only [pure, Except.pure, Except.ok.injEq, List.cons.injEq, List.map_cons,
            Option.some.injEq]
          rw [hr] at ih
          simp only [Except.ok.injEq] at ih
          rw [ih]

end Pointwise
