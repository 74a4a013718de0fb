import Pointwise.Machine.Instruction
import Pointwise.Proofs.Checked

/-!
# Computations that a capacity limits

Some computations fail for one reason only: a capacity of the machine is exhausted. Such a computation
is limited by a condition, which says exactly when it succeeds. A chain of them is limited by the
conditions of all its steps, whichever of them fails first.

## Main definitions

* `Checked.Limited` — a computation that succeeds exactly under a condition and exhausts a capacity
  otherwise.

## Main results

* `Checked.Limited.bind` — a chain of two computations.
* `Checked.Limited.mapM` — the same computation on every entry of a list.
-/

set_option autoImplicit false

namespace Pointwise.Checked

variable {α β : Type} {x : Except Error α} {P Q : Prop}

/-- A computation that succeeds under a condition and exhausts a capacity otherwise. -/
structure Limited (x : Except Error α) (P : Prop) : Prop where
  succeeds : P → ∃ a, x = .ok a
  exhausts : ¬ P → ∃ cause, x = .error (.capacity cause)

namespace Limited

theorem congr (h : Limited x P) (hiff : P ↔ Q) : Limited x Q :=
  ⟨fun hQ => h.succeeds (hiff.2 hQ), fun hQ => h.exhausts fun hP => hQ (hiff.1 hP)⟩

/-- A computation that succeeds in any case. -/
theorem of_ok {a : α} (h : x = .ok a) : Limited x True :=
  ⟨fun _ => ⟨a, h⟩, fun hfalse => absurd trivial hfalse⟩

/-- A check of the condition itself. -/
theorem require [Decidable P] {cause : CapacityError} : Limited (require P (.capacity cause)) P := by
  unfold Pointwise.require
  split
  · exact ⟨fun _ => ⟨(), rfl⟩, fun h => absurd ‹P› h⟩
  · exact ⟨fun h => absurd h ‹¬ P›, fun _ => ⟨cause, rfl⟩⟩

/-- **A chain of two computations** is limited by both conditions. -/
theorem bind {f : α → Except Error β} (hx : Limited x P) (hf : ∀ a, x = .ok a → Limited (f a) Q) :
    Limited (x >>= f) (P ∧ Q) := by
  constructor
  · rintro ⟨hP, hQ⟩
    obtain ⟨a, rfl⟩ := hx.succeeds hP
    exact (hf a rfl).succeeds hQ
  · intro h
    by_cases hP : P
    · obtain ⟨a, rfl⟩ := hx.succeeds hP
      exact (hf a rfl).exhausts fun hQ => h ⟨hP, hQ⟩
    · obtain ⟨cause, rfl⟩ := hx.exhausts hP
      exact ⟨cause, rfl⟩

/-- A chain whose first computation succeeds in any case. -/
theorem bind_of_ok {f : α → Except Error β} {a : α} (hx : x = .ok a) (hf : Limited (f a) P) :
    Limited (x >>= f) P := by
  rw [hx, ok_bind]
  exact hf

/-- A chain whose second computation succeeds in any case. -/
theorem bind_pure {f : α → β} (hx : Limited x P) : Limited (x >>= fun a => pure (f a)) P :=
  (hx.bind fun _ _ => of_ok rfl).congr (and_iff_left trivial)

/-- **A computation on every entry of a list** is limited by the conditions of all of them. -/
theorem mapM {f : α → Except Error β} {list : List α} (condition : α → Prop)
    (h : ∀ a ∈ list, Limited (f a) (condition a)) :
    Limited (list.mapM f) (∀ a ∈ list, condition a) := by
  induction list with
  | nil => exact (of_ok (a := []) rfl).congr (by simp)
  | cons a list ih =>
    rw [List.forall_mem_cons] at h
    rw [List.mapM_cons]
    refine (h.1.bind fun b _ => ?_).congr List.forall_mem_cons.symm
    exact (ih h.2).bind_pure

/-- What a limited computation comes to decides its condition. -/
theorem iff_of_ok {a : α} (h : Limited x P) (hx : x = .ok a) : P := by
  by_contra hP
  obtain ⟨cause, hcause⟩ := h.exhausts hP
  rw [hx] at hcause
  cases hcause

end Limited

/-- A computation on every entry of a list succeeds if it does on each. -/
theorem exists_mapM {f : α → Except Error β} {list : List α} (h : ∀ a ∈ list, ∃ b, f a = .ok b) :
    ∃ results, list.mapM f = .ok results := by
  refine (Limited.mapM (fun _ => True) fun a ha => ?_).succeeds fun _ _ => trivial
  obtain ⟨b, hb⟩ := h a ha
  exact .of_ok hb

/-- A constant is limited by the range of its encoding. -/
theorem limited_immediate (value : Int) :
    Limited (immediate value) (-0x80000000 ≤ value ∧ value < 0x80000000) := by
  unfold immediate
  split
  · exact ⟨fun _ => ⟨value, rfl⟩, fun h => absurd ‹_› h⟩
  · exact ⟨fun h => absurd h ‹_›, fun _ => ⟨_, rfl⟩⟩

end Pointwise.Checked
