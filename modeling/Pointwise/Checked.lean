import Pointwise.Error

/-!
# Checked sizes and offsets

Sizes are naturals below `2 ^ 64` and offsets are integers of 64 bits with a sign. An operation
whose exact result leaves its range is a fault, as is a division by zero and a look-up beyond the
end of a list. Results that stay in range are those of exact arithmetic, so that a computation
that raises no fault is a computation on plain integers.

## Main definitions

* `Checked.add`, `sub`, `mul`, `div`, `mod`, `product` — operations on sizes.
* `Checked.offset` and its operations `subOffset`, `mulOffset`, `negOffset` — on offsets.
* `Checked.toOffset` — a size read as an offset.
* `Checked.get` — a look-up by position.

## Main results

* `Checked.mul_eq_ok`, `Checked.add_eq_ok`, … — when an operation succeeds, and with what.
* `Checked.toOffset_of_lt` — a size below `2 ^ 63` keeps its value as an offset.
-/

set_option autoImplicit false

namespace Pointwise.Checked

/-! ## Sizes -/

/-- A size, if it is below `2 ^ 64`. -/
def size (n : Nat) : Except Error Nat :=
  if n < 0x10000000000000000 then .ok n else .error (.fault .overflow)

/-- The sum of two sizes. -/
def add (a b : Nat) : Except Error Nat := size (a + b)

/-- The product of two sizes. -/
def mul (a b : Nat) : Except Error Nat := size (a * b)

/-- The difference of two sizes; a negative one is a fault. -/
def sub (a b : Nat) : Except Error Nat :=
  if b ≤ a then .ok (a - b) else .error (.fault .overflow)

/-- The quotient of two sizes. -/
def div (a b : Nat) : Except Error Nat :=
  if b = 0 then .error (.fault .divisionByZero) else .ok (a / b)

/-- The remainder of two sizes. -/
def mod (a b : Nat) : Except Error Nat :=
  if b = 0 then .error (.fault .divisionByZero) else .ok (a % b)

/-- The product of a list of sizes, multiplied from the front; every partial product has to
stay in range, also those in front of a zero. -/
def product (sizes : List Nat) : Except Error Nat := sizes.foldlM mul 1

@[simp] theorem size_eq_ok {n m : Nat} : size n = .ok m ↔ n = m ∧ n < 0x10000000000000000 := by
  unfold size
  split <;> simp <;> omega

@[simp] theorem add_eq_ok {a b n : Nat} :
    add a b = .ok n ↔ a + b = n ∧ a + b < 0x10000000000000000 :=
  size_eq_ok

@[simp] theorem mul_eq_ok {a b n : Nat} :
    mul a b = .ok n ↔ a * b = n ∧ a * b < 0x10000000000000000 :=
  size_eq_ok

@[simp] theorem sub_eq_ok {a b n : Nat} : sub a b = .ok n ↔ b ≤ a ∧ a - b = n := by
  unfold sub
  split <;> simp <;> omega

@[simp] theorem div_eq_ok {a b n : Nat} : div a b = .ok n ↔ b ≠ 0 ∧ a / b = n := by
  unfold div
  split <;> simp_all

@[simp] theorem mod_eq_ok {a b n : Nat} : mod a b = .ok n ↔ b ≠ 0 ∧ a % b = n := by
  unfold mod
  split <;> simp_all

/-! ## Offsets -/

/-- An offset, if it fits 64 bits with a sign. -/
def offset (x : Int) : Except Error Int :=
  if -0x8000000000000000 ≤ x ∧ x < 0x8000000000000000 then .ok x else .error (.fault .overflow)

/-- The difference of two offsets. -/
def subOffset (x y : Int) : Except Error Int := offset (x - y)

/-- The product of two offsets. -/
def mulOffset (x y : Int) : Except Error Int := offset (x * y)

/-- The opposite of an offset. -/
def negOffset (x : Int) : Except Error Int := offset (-x)

@[simp] theorem offset_eq_ok {x y : Int} :
    offset x = .ok y ↔ x = y ∧ -0x8000000000000000 ≤ x ∧ x < 0x8000000000000000 := by
  unfold offset
  split <;> simp <;> omega

/-- The offset with the 64 bits of a size: sizes from `2 ^ 63` on become negative. -/
def toOffset (n : Nat) : Int := Int.bmod n 0x10000000000000000

/-- A size below `2 ^ 63` keeps its value as an offset. -/
theorem toOffset_of_lt {n : Nat} (h : n < 0x8000000000000000) : toOffset n = n := by
  unfold toOffset
  rw [Int.bmod_eq_of_le] <;> omega

/-! ## Look-ups -/

section Lookup

variable {α : Type}

/-- The entry at a position of a list. -/
def get (list : List α) (position : Nat) : Except Error α :=
  match list[position]? with
  | some entry => .ok entry
  | none => .error (.fault .outOfRange)

@[simp] theorem get_eq_ok {list : List α} {position : Nat} {entry : α} :
    get list position = .ok entry ↔ list[position]? = some entry := by
  unfold get
  split <;> simp_all

/-- The entry that stands `back` places before the end of a list; the last one for `1`. -/
def getBack (list : List α) (back : Nat) : Except Error α := do
  get list (← sub list.length back)

end Lookup

end Pointwise.Checked
