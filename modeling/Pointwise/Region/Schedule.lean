import Pointwise.Offset.Block
import Pointwise.Region.TileLoop

/-!
# Code of schedulers

A scheduler processes a number of rows. In each row the vector tile runs as often as it fits, and
the scalar tile processes the elements that remain; behind each row the row offsets are added to
the data pointers.

With static work amounts the number of runs is known. A tile that does not run is left out, and
one that runs once is its bare body. With dynamic ones each tile's loop is skipped if its
increment exceeds what is left, and there are two copies of the tiles: one inside the loop over
the rows, and one for a single row, which needs no row offsets.

## Main definitions

* `TileRuns`, `TilePlan` — how often the tiles of a row run.
* `Schedule.staticCode`, `Schedule.dynamicCode` — the code of a scheduler by mode.
* `Schedule.code` — the code of a scheduler.
-/

set_option autoImplicit false

namespace Pointwise

/-! ## Runs of the tiles -/

/-- How often a tile runs. -/
inductive TileRuns where
  | skip
  | once
  | loop (count : Nat)
  deriving DecidableEq

/-- The number of runs. -/
def TileRuns.count : TileRuns → Nat
  | .skip => 0
  | .once => 1
  | .loop n => n

/-- How often the two tiles of a row run. -/
structure TilePlan where
  vector : TileRuns
  scalar : TileRuns
  deriving DecidableEq

namespace TilePlan

/-- The runs of the vector tile in a row: as many as fit. -/
def vectorRuns (inner lanes : Nat) : Except Error TileRuns := do
  if inner < lanes then return .skip
  else if inner < (← Checked.mul 2 lanes) then return .once
  else return .loop (← Checked.div inner lanes)

/-- The plan for a row of `inner` elements and a vector tile of `lanes`. -/
def ofRow (inner lanes : Nat) : Except Error TilePlan := do
  let vector ← vectorRuns inner lanes
  let scalar := match ← Checked.mod inner lanes with
    | 0 => .skip
    | 1 => .once
    | n => .loop n
  return ⟨vector, scalar⟩

/-- The number of elements that both tiles process. -/
def elements (plan : TilePlan) (lanes : Nat) : Except Error Nat := do
  Checked.add (← Checked.mul plan.vector.count lanes) plan.scalar.count

end TilePlan

/-! ## Code -/

namespace Schedule

/-- A tile with the code of its body. -/
structure TileCode where
  tile : Tile
  body : Except Error Code

/-- What the code of both modes has in common: the tiles, the data pointers and the register of
the inner work amount. -/
structure Context where
  vector : TileCode
  scalar : TileCode
  pointers : List Nat
  innerRegister : Nat

/-- The code that runs a tile in a loop, counting down the inner work amount. -/
def Context.loop (context : Context) (code : TileCode) : Except Error Code :=
  code.tile.loop code.body [context.innerRegister] context.pointers

/-- The code of the vector tile in a row with static work amounts. The pointers need to move behind
a single run only if something else follows. -/
def staticVector (context : Context) (plan : TilePlan) (inner : Nat) (followed : Bool)
    (counter : Register) : Except Error Code := do
  match plan.vector with
  | .skip => return []
  | .once =>
    let body ← context.vector.body
    if plan.scalar ≠ .skip ∨ followed then
      return body ++ (← context.vector.tile.advance context.pointers)
    else return body
  | .loop _ =>
    return .setWord counter (Checked.toOffset inner) :: (← context.loop context.vector)

/-- The code of the scalar tile in a row with static work amounts. Behind a loop of the vector
tile the counter already holds what remains. -/
def staticScalar (context : Context) (plan : TilePlan) (inner lanes : Nat) (followed : Bool)
    (counter : Register) : Except Error Code := do
  match plan.scalar with
  | .skip => return []
  | .once =>
    let body ← context.scalar.body
    if followed then return body ++ (← context.scalar.tile.advance context.pointers)
    else return body
  | .loop _ =>
    let setup ← match plan.vector with
      | .skip => pure [.setWord counter (Checked.toOffset inner)]
      | .once => do
        pure [.setWord counter (Checked.toOffset (← Checked.sub inner lanes))]
      | .loop _ => pure []
    return setup ++ (← context.loop context.scalar)

/-- The code of a row with static work amounts. -/
def staticRow (context : Context) (plan : TilePlan) (inner lanes : Nat) (followed : Bool) :
    Except Error Code := do
  let counter ← RegisterClass.gpr64.pick context.innerRegister
  let vector ← staticVector context plan inner followed counter
  let scalar ← staticScalar context plan inner lanes followed counter
  return vector ++ scalar

/-- The row offsets added to the data pointers as constants; those that are zero are left out. -/
def addRowOffsets (pointers : List Nat) (rowOffsets : List Int) : Except Error Code :=
  ((pointers.zip rowOffsets).filter (·.2 ≠ 0)).mapM fun (pointer, offset) => do
    let r ← RegisterClass.gpr64.pick pointer
    return .addImmediate r (← immediate offset)

/-- A loop that counts a register down to zero. -/
def countdown (counter : Register) (body : Code) : Code :=
  let once := body ++ [.subImmediate counter 1, .compare counter 1]
  once ++ [.jumpIf .greaterEqual (-(once.length + 1))]

/-- The code of a scheduler with static work amounts. -/
def staticCode (context : Context) (outerRegister : Nat) (work : WorkAmounts) (lanes : Nat)
    (rowOffsets : List Int) : Except Error Code := do
  let plan ← TilePlan.ofRow work.inner lanes
  if work.outer ≤ 1 then
    staticRow context plan work.inner lanes false
  else
    let counter ← RegisterClass.gpr64.pick outerRegister
    let row ← staticRow context plan work.inner lanes true
    let offsets ← addRowOffsets context.pointers rowOffsets
    return .setWord counter (Checked.toOffset work.outer) :: countdown counter (row ++ offsets)

/-- The operand of a word in the argument block. -/
def blockWord (offset : Nat) : Except Error MemoryOperand :=
  MemoryOperand.behind Register.blockArgument.val offset

/-- The code of a tile with dynamic work amounts: its loop is skipped if the tile does not fit. -/
def dynamicTile (context : Context) (code : TileCode) (counter : Register) :
    Except Error Code := do
  let increment ← immediate (Checked.toOffset code.tile.increment)
  let loop ← context.loop code
  return .compare counter increment :: .jumpIf .less loop.length :: loop

/-- The code of a row with dynamic work amounts. -/
def dynamicRow (context : Context) : Except Error Code := do
  let counter ← RegisterClass.gpr64.pick context.innerRegister
  let inner ← blockWord (ArgumentBlock.workAt + 8)
  let vector ← dynamicTile context context.vector counter
  let scalar ← dynamicTile context context.scalar counter
  return .loadWord counter inner :: (vector ++ scalar)

/-- The row offsets added to the data pointers from the argument block. -/
def loadRowOffsets (pointers : List Nat) : Except Error Code :=
  pointers.zipIdx.mapM fun (pointer, param) => do
    let r ← RegisterClass.gpr64.pick pointer
    return .addLoad r (← blockWord (ArgumentBlock.rowsAt + param * 8))

/-- The code of a scheduler with dynamic work amounts: a loop over the rows, and a copy of the row
for the case that there is only one. -/
def dynamicCode (context : Context) (outerRegister : Nat) : Except Error Code := do
  let counter ← RegisterClass.gpr64.pick outerRegister
  let outer ← blockWord ArgumentBlock.workAt
  let row ← dynamicRow context
  let offsets ← loadRowOffsets context.pointers
  let rows := countdown counter (row ++ offsets)
  return [.loadWord counter outer, .compare counter 1, .jumpIf .equal (rows.length + 1)] ++
    rows ++ .jump row.length :: row

/-- A scheduler has three inputs, the numbers of inputs and outputs and the lanes of its vector
tile, and the data pointers for outputs. -/
def checkOperands (input output : List Nat) : Except Error Unit := do
  require (input.length = 3) (.invalid (.schedulerInputs input.length))
  let params ← Checked.add (← Checked.get input 0) (← Checked.get input 1)
  require (output.length = params) (.invalid (.schedulerPointers params output.length))

/-- The last register of a pool of free ones, and the rest of the pool. -/
def takeLast (pool : List Nat) (cause : CapacityError) : Except Error (Nat × List Nat) :=
  match pool.getLast? with
  | some r => .ok (r, pool.dropLast)
  | none => .error (.capacity cause)

/-- The general registers that the bodies of the tiles may use: all of a pool but the last two,
which hold the work amounts. -/
def bodyPool (gprs : List Nat) : List Nat := gprs.dropLast.dropLast

/-- The code of a scheduler. The work amounts are kept in the last two registers of the pool; the
bodies in `tiles` have to be generated for `bodyPool gprs`. -/
def code (mode : ScheduleMode) (tiles : Except Error (TileCode × TileCode))
    (input output gprs : List Nat) : Except Error Code := do
  checkOperands input output
  let (vector, scalar) ← tiles
  let lanes ← Checked.get input 2
  let (outerRegister, pool) ← takeLast gprs .outerCounter
  let (innerRegister, _) ← takeLast pool .innerCounter
  let context : Context := { vector, scalar, pointers := output, innerRegister }
  match mode with
  | .static work rowOffsets => do
    require (rowOffsets.length = output.length)
      (.invalid (.schedulerOffsets rowOffsets.length output.length))
    staticCode context outerRegister work lanes rowOffsets
  | .dynamic => dynamicCode context outerRegister

end Schedule

end Pointwise
