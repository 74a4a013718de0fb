/-!
# Bracketed lists

Messages show a list between square brackets, its entries parted by a comma and a blank.

## Main definitions

* `Text.bracketed` — a list of texts between brackets.
* `Text.shape`, `Text.shapes`, `Text.flags` — shapes, lists of shapes and truth values.
-/

set_option autoImplicit false

namespace Pointwise.Text

/-- The entries of a list between square brackets. -/
def bracketed (entries : List String) : String := "[" ++ ", ".intercalate entries ++ "]"

/-- A shape as messages show it. -/
def shape (dims : List Nat) : String := bracketed (dims.map toString)

/-- A list of shapes as messages show it. -/
def shapes (list : List (List Nat)) : String := bracketed (list.map shape)

/-- A list of truth values as messages show it. -/
def flags (list : List Bool) : String := bracketed (list.map fun b => if b then "true" else "false")

end Pointwise.Text
