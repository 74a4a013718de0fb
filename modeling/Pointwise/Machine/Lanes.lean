import Pointwise.Binary32.Basic
import Pointwise.Machine.Register

/-!
# Vector registers and register files

A vector register holds sixteen numbers, its *lanes*. Instructions of a smaller width work on the
first lanes and clear the others.

## Main definitions

* `Lanes` — the content of a vector register, with `Lanes.ofFn` to build one.
* `Lanes.upTo` — a content whose lanes from a number on are zero.
* `RegisterFile` — one value per register.

## Main results

* `Lanes.get_ofFn` — the lanes of `Lanes.ofFn f` are those of `f`.
* `RegisterFile.get_set` — what a register holds after an assignment.
-/

set_option autoImplicit false

namespace Pointwise

/-- The content of a vector register. -/
structure Lanes where
  values : Vector Binary32 16
  deriving DecidableEq

namespace Lanes

/-- The number in a lane. -/
def get (lanes : Lanes) (i : Fin 16) : Binary32 := lanes.values[i]

theorem zero_lt_sixteen : 0 < 16 := by decide

/-- The first lane of a register. -/
def firstLane : Fin 16 := ⟨0, zero_lt_sixteen⟩

/-- The number in the first lane. -/
def first (lanes : Lanes) : Binary32 := lanes.get firstLane

/-- The register with given lanes. -/
def ofFn (f : Fin 16 → Binary32) : Lanes :=
  ⟨.ofFn f⟩

/-- The lanes of a register are those that it was built from. -/
@[simp] theorem get_ofFn (f : Fin 16 → Binary32) (i : Fin 16) : (ofFn f).get i = f i := by
  simp [get, ofFn]

/-- The register with given lanes below `count`, and zero from there on. -/
def upTo (count : Nat) (f : Fin 16 → Binary32) : Lanes :=
  ofFn fun i => if i.val < count then f i else .zero

/-- The register with all lanes zero. -/
def zero : Lanes := ofFn fun _ => .zero

@[simp] theorem get_upTo (count : Nat) (f : Fin 16 → Binary32) (i : Fin 16) :
    (upTo count f).get i = if i.val < count then f i else .zero :=
  get_ofFn _ i

/-- Registers with the same lanes are equal. -/
theorem ext_get {x y : Lanes} (h : ∀ i, x.get i = y.get i) : x = y := by
  obtain ⟨x⟩ := x
  obtain ⟨y⟩ := y
  congr 1
  exact Vector.ext fun i hi => h ⟨i, hi⟩

end Lanes

/-- One value per register. -/
structure RegisterFile (α : Type) where
  values : Vector α 16

namespace RegisterFile

variable {α : Type}

/-- The file with the same value in every register. -/
def fill (value : α) : RegisterFile α := ⟨.replicate 16 value⟩

/-- The value of a register. -/
def get (file : RegisterFile α) (r : Register) : α := file.values[r]

/-- The file with a value assigned to a register. -/
def set (file : RegisterFile α) (r : Register) (value : α) : RegisterFile α :=
  ⟨file.values.set r value⟩

/-- The file with a function applied to every value. -/
def map (file : RegisterFile α) (f : α → α) : RegisterFile α := ⟨file.values.map f⟩

/-- What a register holds after an assignment. -/
theorem get_set (file : RegisterFile α) (r s : Register) (value : α) :
    (file.set r value).get s = if r = s then value else file.get s := by
  simp [get, set, Vector.getElem_set, Fin.ext_iff]

@[simp] theorem get_set_self (file : RegisterFile α) (r : Register) (value : α) :
    (file.set r value).get r = value := by
  simp [get_set]

/-- Assigning to a register what it holds changes nothing. -/
@[simp] theorem set_get (file : RegisterFile α) (r : Register) : file.set r (file.get r) = file := by
  simp [get, set]

theorem get_set_of_ne {file : RegisterFile α} {r s : Register} {value : α} (h : r ≠ s) :
    (file.set r value).get s = file.get s := by
  simp [get_set, h]

end RegisterFile

end Pointwise
