import Pointwise.Proofs.Checked

/-!
# Causes for which computations fail

A chain of computations fails for the cause of the first one that does. If all of them fail, if at all,
for causes of one kind, then so does the chain.

## Main definitions

* `Checked.Raises` — a computation that fails for causes of a certain kind only.

## Main results

* `Checked.Raises.bind` — a chain of two computations.
* `Checked.Raises.forM`, `Checked.Raises.mapM`, `Checked.Raises.foldlM` — a computation for every entry of
  a list.
* `Checked.Raises.product`, `Checked.Raises.offset` — arithmetic fails only by overflow.
-/

set_option autoImplicit false

namespace Pointwise.Checked

variable {α β : Type} {x : Except Error α} {P Q : Error → Prop}

/-- A computation that fails, if it does, for a cause of a certain kind. -/
def Raises (P : Error → Prop) (x : Except Error α) : Prop := ∀ cause, x = .error cause → P cause

namespace Raises

/-- A kind of causes may be replaced by one that comprises it. -/
theorem mono (h : Raises P x) (hle : ∀ cause, P cause → Q cause) : Raises Q x :=
  fun cause hcause => hle cause (h cause hcause)

/-- A computation that succeeds. -/
theorem of_ok {a : α} (h : x = .ok a) : Raises P x := by
  rintro cause hcause
  rw [h] at hcause
  cases hcause

/-- A failure. -/
theorem error {cause : Error} (h : P cause) : Raises P (.error cause : Except Error α) := by
  rintro _ ⟨⟩
  exact h

/-- A check. -/
theorem require {condition : Prop} [Decidable condition] {cause : Error} (h : P cause) :
    Raises P (require condition cause) := by
  unfold Pointwise.require
  split
  · exact of_ok rfl
  · exact error h

/-- A failure that is only possible under a condition. -/
theorem and {condition : Prop} (h : Raises P x) (hok : ¬ condition → ∃ a, x = .ok a) :
    Raises (fun cause => P cause ∧ condition) x := by
  intro cause hcause
  refine ⟨h cause hcause, by_contra fun hnot => ?_⟩
  obtain ⟨a, ha⟩ := hok hnot
  rw [hcause] at ha
  cases ha

/-- **A chain of two computations** fails for the causes of both. -/
theorem bind {f : α → Except Error β} (hx : Raises P x) (hf : ∀ a, x = .ok a → Raises P (f a)) :
    Raises P (x >>= f) := by
  cases x with
  | ok a => exact hf a rfl
  | error cause => exact error (hx cause rfl)

/-- A computation on every entry of a list. -/
theorem forM {f : α → Except Error Unit} {list : List α} (h : ∀ a ∈ list, Raises P (f a)) :
    Raises P (forM list f) := by
  induction list with
  | nil => exact of_ok rfl
  | cons a list ih =>
    rw [List.forall_mem_cons] at h
    rw [List.forM_cons]
    exact h.1.bind fun _ _ => ih h.2

/-- A computation on every entry of a list, whose results are collected. -/
theorem mapM {f : α → Except Error β} {list : List α} (h : ∀ a ∈ list, Raises P (f a)) :
    Raises P (list.mapM f) := by
  induction list with
  | nil => exact of_ok rfl
  | cons a list ih =>
    rw [List.forall_mem_cons] at h
    rw [List.mapM_cons]
    exact h.1.bind fun _ _ => (ih h.2).bind fun _ _ => of_ok rfl

/-- A computation that goes through a list. -/
theorem foldlM {f : β → α → Except Error β} {list : List α}
    (h : ∀ b, ∀ a ∈ list, Raises P (f b a)) (start : β) : Raises P (list.foldlM f start) := by
  induction list generalizing start with
  | nil => exact of_ok rfl
  | cons a list ih =>
    rw [List.foldlM_cons]
    exact (h start a (by simp)).bind fun next _ => ih (fun b a ha => h b a (by simp [ha])) next

/-! ## Arithmetic and look-ups -/

/-- A product of two sizes. -/
theorem mul (a b : Nat) : Raises (· = .fault .overflow) (mul a b) := by
  unfold Checked.mul size
  split
  · exact of_ok rfl
  · exact error rfl

/-- A product of sizes. -/
theorem product (sizes : List Nat) : Raises (· = .fault .overflow) (product sizes) :=
  foldlM (fun a b _ => mul a b) 1

/-- An operation on offsets. -/
theorem offset (x : Int) : Raises (· = .fault .overflow) (offset x) := by
  unfold Checked.offset
  split
  · exact of_ok rfl
  · exact error rfl

/-- A look-up of an entry that is there. -/
theorem get {list : List α} {position : Nat} (h : position < list.length) :
    Raises P (get list position) :=
  of_ok (get_eq_ok.2 (List.getElem?_eq_getElem h))

/-- A look-up from the end of an entry that is there. -/
theorem getBack {list : List α} {back : Nat} (hpos : 0 < back) (hle : back ≤ list.length) :
    Raises P (getBack list back) :=
  of_ok (getBack_eq_ok.2 ⟨hle, List.getElem?_eq_getElem (by omega)⟩)

end Raises

end Pointwise.Checked
