import Pointwise.Region.Basic

/-!
# Code of tiles

A tile runs its body as long as the work register holds at least the tile's increment. Each run
is followed by a step that moves the data pointers by the bytes of as many elements.

## Main definitions

* `Tile.advance` — the step that moves the data pointers.
* `Tile.loop` — the counted loop around the body.
-/

set_option autoImplicit false

namespace Pointwise.Tile

/-- The number of bytes by which a run of the body moves the data pointers. -/
def stepBytes (tile : Tile) : Except Error Int := do
  immediate (Checked.toOffset (← Checked.mul tile.increment tile.elemSize))

/-- The step that moves the data pointers, those apart that stay where they are. -/
def advance (tile : Tile) (pointers : List Nat) : Except Error Code := do
  let step ← tile.stepBytes
  let moving := (pointers.zipIdx.filter fun (_, param) => tile.advances param).map (·.1)
  moving.mapM fun pointer => do return .addImmediate (← RegisterClass.gpr64.pick pointer) step

/-- A tile has one input, the work register, and the data pointers for outputs. -/
def checkOperands (tile : Tile) (input output : List Nat) : Except Error Unit := do
  require (input.length = 1) (.invalid (.tileWork input.length))
  require (output.length = tile.dims.length)
    (.invalid (.tilePointers tile.dims.length output.length))

/-- The loop around a body: the body, the step of the pointers, and the countdown of the work
register by the increment. -/
def loop (tile : Tile) (body : Except Error Code) (input output : List Nat) :
    Except Error Code := do
  tile.checkOperands input output
  let work ← RegisterClass.gpr64.pick (← Checked.get input 0)
  let increment ← immediate (Checked.toOffset tile.increment)
  let once := (← body) ++ (← tile.advance output) ++
    [.subImmediate work increment, .compare work increment]
  return once ++ [.jumpIf .greaterEqual (-(once.length + 1))]

end Pointwise.Tile
