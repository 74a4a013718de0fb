import Pointwise.Shape.Basic

/-!
# Byte offsets of a tensor

The pointer to a tensor's data advances by a fixed number of bytes along each dimension of the
master but the last: the dimension's row-major stride in the tensor, or zero where the tensor is
broadcast.

A kernel of tile rank two walks the last two dimensions by itself. While it walks the last one it
advances a pointer by what it processes, and after each row a *row offset* is added, which brings
the pointer to the row that comes next.

## Main definitions

* `Strides.ofShape` — the bytes per step along each dimension but the last.
* `Strides.inputRowOffset`, `Strides.outputRowOffset` — the row offsets of inputs and outputs.
-/

set_option autoImplicit false

namespace Pointwise.Strides

/-- The stride of each dimension of a tensor, in elements, and the number of elements behind its
first dimension. The dimensions come paired with those of the master; `inner` is the size of the
last dimension, which is left out. A broadcast dimension has stride zero. -/
def elements (inner : Int) : List (Nat × Nat) → Except Error (List Int × Int)
  | [] => return ([], inner)
  | (dim, master) :: rest => do
    let (strides, behind) ← elements inner rest
    let stride := if dim = master ∧ master ≠ 1 then behind else 0
    return (stride :: strides, ← Checked.mulOffset behind (Checked.toOffset dim))

/-- The bytes per step along each dimension of the master but the last. -/
def ofShape (shape master : Shape) (elemSize : Nat) : Except Error (List Int) := do
  let last ← Checked.sub master.length 1
  let inner ← Checked.get shape last
  let (strides, _) ← elements (Checked.toOffset inner) ((shape.zip master).take last)
  strides.mapM (Checked.mulOffset · (Checked.toOffset elemSize))

/-- The row offset of an input. An input with one element per row is brought to the next element,
and one with a single row is taken back over the row that the kernel has walked; all others need
nothing. The two cases are told apart by the stride along the rows, the last of `strides`. -/
def inputRowOffset (shape master : Shape) (strides : List Int) (elemSize : Nat) :
    Except Error Int := do
  let elem := Checked.toOffset elemSize
  let stride ← Checked.getBack strides 1
  if elem < stride then return 0
  else if stride = elem then return stride
  else
    let outer ← Checked.getBack shape 2
    let rows ← Checked.get master (shape.length - 2)
    if outer = rows then return 0
    else
      let inner ← Checked.getBack shape 1
      if inner = 1 then return 0
      else
        let width ← Checked.get master (shape.length - 1)
        Checked.mulOffset (← Checked.negOffset (Checked.toOffset width)) elem

/-- The row offset of an output, which brings a pointer that has walked a row of the master to the
next row of the output. -/
def outputRowOffset (master : Shape) (strides : List Int) (elemSize : Nat) :
    Except Error Int := do
  let stride ← Checked.getBack strides 1
  let walked ← Checked.mul (← Checked.getBack master 1) elemSize
  Checked.subOffset stride (Checked.toOffset walked)

end Pointwise.Strides
