import Mathlib.Data.List.Forall2
import Pointwise.Checked

/-!
# Computations that may fail

A chain of computations succeeds with a result exactly if each of its steps does. These equations
take such chains apart.

## Main results

* `Checked.bind_eq_ok` — a chain of two computations.
* `Checked.mapM_eq_ok` — the same computation on every entry of a list.
* `Checked.getBack_eq_ok` — a look-up from the end of a list.
* `forall₂_mem_right` — an entry of a list of results comes from one of the list that was gone through.
-/

set_option autoImplicit false

namespace Pointwise

/-- An entry of the right one of two related lists. -/
theorem forall₂_mem_right {α β : Type} {R : α → β → Prop} {list : List α} {list' : List β}
    (h : List.Forall₂ R list list') {b : β} (hb : b ∈ list') : ∃ a ∈ list, R a b := by
  induction h with
  | nil => simp at hb
  | @cons a b' list list' hab _ ih =>
    rcases List.mem_cons.1 hb with rfl | hb
    · exact ⟨a, by simp, hab⟩
    · obtain ⟨a', ha', hR⟩ := ih hb
      exact ⟨a', by simp [ha'], hR⟩

namespace Checked

section Chains

variable {α β : Type}

/-- A chain of two computations succeeds if both do. -/
theorem bind_eq_ok {x : Except Error α} {f : α → Except Error β} {b : β} :
    (x >>= f) = .ok b ↔ ∃ a, x = .ok a ∧ f a = .ok b := by
  cases x with
  | error cause => simp [bind, Except.bind]
  | ok a => simp [bind, Except.bind]

/-- A chain whose first computation is known. -/
@[simp] theorem ok_bind (a : α) (f : α → Except Error β) : (Except.ok a >>= f) = f a := rfl

@[simp] theorem error_bind (cause : Error) (f : α → Except Error β) :
    (Except.error cause >>= f) = .error cause := rfl

@[simp] theorem pure_eq_ok {a b : α} : (pure a : Except Error α) = .ok b ↔ a = b := by
  simp [pure, Except.pure]

/-- A check in front of a computation. -/
theorem require_bind_eq_ok {condition : Prop} [Decidable condition] {cause : Error}
    {f : Unit → Except Error β} {b : β} :
    (require condition cause >>= f) = .ok b ↔ condition ∧ f () = .ok b := by
  by_cases h : condition <;> simp [require, h]

/-- A computation on every entry of a list succeeds if it does on each. -/
theorem mapM_eq_ok {f : α → Except Error β} {list : List α} {results : List β} :
    list.mapM f = .ok results ↔ List.Forall₂ (fun a b => f a = .ok b) list results := by
  induction list generalizing results with
  | nil => cases results <;> simp
  | cons a list ih =>
    rw [List.mapM_cons, bind_eq_ok]
    constructor
    · rintro ⟨b, hb, h⟩
      obtain ⟨rest, hrest, h⟩ := bind_eq_ok.1 h
      rw [← pure_eq_ok.1 h]
      exact .cons hb (ih.1 hrest)
    · intro h
      cases h with
      | cons hb hrest => exact ⟨_, hb, bind_eq_ok.2 ⟨_, ih.2 hrest, rfl⟩⟩

/-- A computation that succeeds on every entry of a list. -/
theorem mapM_eq_ok_map {f : α → Except Error β} {g : α → β} {list : List α}
    (h : ∀ a ∈ list, f a = .ok (g a)) : list.mapM f = .ok (list.map g) := by
  rw [mapM_eq_ok]
  induction list with
  | nil => exact .nil
  | cons a list ih => exact .cons (h a (by simp)) (ih fun b hb => h b (by simp [hb]))

/-- As many results as entries. -/
theorem length_of_mapM {f : α → Except Error β} {list : List α} {results : List β}
    (h : list.mapM f = .ok results) : results.length = list.length :=
  (mapM_eq_ok.1 h).length_eq.symm

/-- The result at a place is that of the entry there. -/
theorem getElem_of_mapM {f : α → Except Error β} {list : List α} {results : List β}
    (h : list.mapM f = .ok results) {i : Nat} (hi : i < list.length) (hi' : i < results.length) :
    f list[i] = .ok results[i] :=
  (mapM_eq_ok.1 h).get hi hi'

/-- A result that is there. -/
theorem toOption_eq_some {x : Except Error α} {a : α} : x.toOption = some a ↔ x = .ok a := by
  cases x <;> simp [Except.toOption]

/-- A check on every entry of a list. -/
theorem forM_eq_ok {f : α → Except Error Unit} {list : List α} :
    forM list f = .ok () ↔ ∀ a ∈ list, f a = .ok () := by
  induction list with
  | nil => simp [pure, Except.pure]
  | cons a list ih =>
    rw [List.forM_cons, bind_eq_ok, List.forall_mem_cons, ← ih]
    exact ⟨fun ⟨_, ha, hrest⟩ => ⟨ha, hrest⟩, fun ⟨ha, hrest⟩ => ⟨(), ha, hrest⟩⟩

end Chains

/-! ## Look-ups and products -/

/-- A look-up from the end of a list. -/
theorem getBack_eq_ok {α : Type} {list : List α} {back : Nat} {entry : α} :
    getBack list back = .ok entry ↔
      back ≤ list.length ∧ list[list.length - back]? = some entry := by
  simp [getBack, bind_eq_ok, and_assoc]

/-- The last entry of a list. -/
@[simp] theorem getBack_concat_one {α : Type} (list : List α) (a : α) :
    getBack (list ++ [a]) 1 = .ok a := by
  simp [getBack_eq_ok]

/-- The last but one entry of a list. -/
@[simp] theorem getBack_concat_two {α : Type} (list : List α) (a b : α) :
    getBack (list ++ [a, b]) 2 = .ok a := by
  simp [getBack_eq_ok]

/-- The last of two entries. -/
@[simp] theorem getBack_pair_one {α : Type} (list : List α) (a b : α) :
    getBack (list ++ [a, b]) 1 = .ok b := by
  simp [getBack_eq_ok]

/-! ## Words -/

/-- The word of an offset is that of the size. -/
theorem ofInt_toOffset (n : Nat) : BitVec.ofInt 64 (toOffset n) = BitVec.ofNat 64 n := by
  have hint := BitVec.toInt_ofNat' (n := 64) n
  simp only [Nat.reducePow] at hint
  have hoffset : toOffset n = (BitVec.ofNat 64 n).toInt := hint.symm
  rw [hoffset, BitVec.ofInt_toInt]

end Checked

end Pointwise
