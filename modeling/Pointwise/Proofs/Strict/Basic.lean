import Pointwise.Proofs.Limited
import Pointwise.Proofs.Raises

/-!
# Computations with every step checked

Not every step of a computation is checked when it is written down: a size is read as an offset whatever its
value, a list is looked up with a default, an index vector is divided without regard to zeros. A *strict*
computation makes the same steps and checks each of them. It confirms the plain one if both come to the
same and no check of the strict one raises a fault: then no step of the plain one left its range either.

## Main definitions

* `Checked.keeps`, `Checked.within` — checks in front of a step.
* `Checked.divCeil`, `Checked.set` — further operations on sizes and lists.
* `Strict.Confirms` — a strict computation that confirms a plain one.

## Main results

* `Strict.Confirms.bind`, `Strict.Confirms.mapM` — chains of computations.
-/

set_option autoImplicit false

namespace Pointwise

/-! ## Checks -/

namespace Checked

/-- Checks that a size keeps its value when it is read as an offset. -/
def keeps (n : Nat) : Except Error Unit := require (n < 0x8000000000000000) (.fault .overflow)

/-- Checks that a list of a given length has a position. -/
def within (position length : Nat) : Except Error Unit :=
  require (position < length) (.fault .outOfRange)

/-- The quotient of two sizes, rounded up. -/
def divCeil (a b : Nat) : Except Error Nat := do
  let quotient ← div a b
  if 0 < (← mod a b) then add quotient 1 else return quotient

@[simp] theorem keeps_eq_ok {n : Nat} : keeps n = .ok () ↔ n < 0x8000000000000000 := require_eq_ok

@[simp] theorem within_eq_ok {position length : Nat} :
    within position length = .ok () ↔ position < length :=
  require_eq_ok

/-- A quotient rounded up is in range. -/
theorem divCeil_eq {a b : Nat} (hb : 1 < b) (ha : a < 0x10000000000000000) :
    divCeil a b = .ok ((a + b - 1) / b) := by
  have hhalf : a / b ≤ a / 2 := Nat.div_le_div_left hb (by decide)
  have hdiv := Nat.div_add_mod a b
  have hmod := Nat.mod_lt a (by omega : 0 < b)
  rw [divCeil, div_eq_ok.2 ⟨by omega, rfl⟩, ok_bind, mod_eq_ok.2 ⟨by omega, rfl⟩, ok_bind]
  split
  · have hup : (a + b - 1) / b = a / b + 1 := by
      have hsum : a + b - 1 = a % b - 1 + b * (a / b + 1) := by
        rw [Nat.mul_add, Nat.mul_one]
        omega
      rw [hsum, Nat.add_mul_div_left _ _ (by omega), Nat.div_eq_of_lt (by omega), Nat.zero_add]
    rw [hup]
    exact add_eq_ok.2 ⟨rfl, by omega⟩
  · have hsame : (a + b - 1) / b = a / b := by
      have hsum : a + b - 1 = b - 1 + b * (a / b) := by omega
      rw [hsum, Nat.add_mul_div_left _ _ (by omega), Nat.div_eq_of_lt (by omega), Nat.zero_add]
    rw [hsame]
    rfl

section Lists

variable {α β : Type}

/-- Computations that agree on every entry of a list. -/
theorem mapM_congr {f g : α → Except Error β} {list : List α} (h : ∀ a ∈ list, f a = g a) :
    list.mapM f = list.mapM g := by
  induction list with
  | nil => rfl
  | cons a list ih =>
    rw [List.forall_mem_cons] at h
    rw [List.mapM_cons, List.mapM_cons, h.1, ih h.2]

/-- A list with the entry at a position replaced. -/
def set (list : List α) (position : Nat) (entry : α) : Except Error (List α) := do
  within position list.length
  return list.set position entry

theorem set_eq_ok {list : List α} {position : Nat} (entry : α) (h : position < list.length) :
    set list position entry = .ok (list.set position entry) := by
  rw [set, within_eq_ok.2 h]
  rfl

end Lists

end Checked

/-! ## Confirmed computations -/

namespace Strict

variable {α β : Type} {x y : Except Error α}

/-- A strict computation confirms a plain one if both come to the same and the strict one raises no
fault. -/
structure Confirms (strict plain : Except Error α) : Prop where
  eq : strict = plain
  faultless : ∀ cause, strict ≠ .error (.fault cause)

namespace Confirms

/-- Two computations that succeed with the same result. -/
theorem of_ok {a : α} (hx : x = .ok a) (hy : y = .ok a) : Confirms x y := by
  subst hx hy
  exact ⟨rfl, fun _ h => nomatch h⟩

/-- A computation that comes to the same as one without faults. -/
theorem of_eq (h : x = y) (hy : Confirms y y) : Confirms x y := h ▸ hy

/-- A computation that a capacity limits. -/
theorem of_limited {P : Prop} (h : Checked.Limited x P) : Confirms x x := by
  refine ⟨rfl, fun cause hcause => ?_⟩
  by_cases hP : P
  · obtain ⟨a, ha⟩ := h.succeeds hP
    rw [ha] at hcause
    cases hcause
  · obtain ⟨_, hexhausts⟩ := h.exhausts hP
    rw [hexhausts] at hcause
    cases hcause

/-- A computation that fails for other causes than faults. -/
theorem of_raises {P : Error → Prop} (h : Checked.Raises P x) (hP : ∀ cause, ¬ P (.fault cause)) :
    Confirms x x :=
  ⟨rfl, fun cause hcause => hP cause (h _ hcause)⟩

/-- A check for another cause than a fault. -/
theorem require {condition : Prop} [Decidable condition] {cause : Error}
    (h : ∀ fault, cause ≠ .fault fault) :
    Confirms (require condition cause) (Pointwise.require condition cause) :=
  of_raises (Checked.Raises.require (P := fun cause => ∀ fault, cause ≠ .fault fault) h)
    fun cause hne => hne cause rfl

/-- **A chain of two computations.** -/
theorem bind {f g : α → Except Error β} (hx : Confirms x y)
    (hf : ∀ a, y = .ok a → Confirms (f a) (g a)) : Confirms (x >>= f) (y >>= g) := by
  obtain ⟨rfl, hfault⟩ := hx
  cases x with
  | ok a => exact hf a rfl
  | error cause => exact ⟨rfl, fun fault h => hfault fault (congrArg Except.error (Except.error.inj h))⟩

/-- **A computation on every entry of a list.** -/
theorem mapM {f g : α → Except Error β} {list : List α} (h : ∀ a ∈ list, Confirms (f a) (g a)) :
    Confirms (list.mapM f) (list.mapM g) := by
  induction list with
  | nil => exact of_ok rfl rfl
  | cons a list ih =>
    rw [List.forall_mem_cons] at h
    rw [List.mapM_cons, List.mapM_cons]
    exact h.1.bind fun b _ => (ih h.2).bind fun _ _ => of_ok rfl rfl

end Confirms

end Strict

end Pointwise
