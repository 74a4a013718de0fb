import Pointwise.Region.Leaf
import Pointwise.Region.Schedule

/-!
# Code of regions

The code of a region is the code of its entries, one after the other. The pools hold the registers
that are free for auxiliary use.

## Main definitions

* `Entry.emit` — the code of an entry.
* `Region.emit` — the code of a region.
-/

set_option autoImplicit false

namespace Pointwise

mutual

/-- The code of an entry, with its own registers. -/
def Entry.emit (vecs gprs : List Nat) : Entry → Except Error Code
  | .leaf op input output => op.emit input output vecs gprs
  | .tile t body input output => t.loop (Region.emit vecs gprs body) input output
  | .scheduler mode body input output =>
    let pool := Schedule.bodyPool gprs
    let tiles := match body with
      | [.tile vector vectorBody _ _, .tile scalar scalarBody _ _] =>
        .ok (⟨vector, Region.emit vecs pool vectorBody⟩, ⟨scalar, Region.emit vecs pool scalarBody⟩)
      | body => .error (.invalid (Region.notTiles body))
    Schedule.code mode tiles input output gprs

/-- The code of a list of entries. -/
def Region.emit (vecs gprs : List Nat) : List Entry → Except Error Code
  | [] => return []
  | entry :: entries => do return (← entry.emit vecs gprs) ++ (← Region.emit vecs gprs entries)

end

end Pointwise
