import Mathlib.Data.List.Forall2
import Pointwise.Program.Value

/-!
# The arithmetic of the vector instructions and the reference

The vector instructions compute what the reference does, if all NaNs count as one, with two exceptions.
Where a maximum or minimum compares zeros of opposite sign, the reference leaves open which of them it
gives. And where the second operand of a maximum or minimum is NaN and the first one is not, the
reference ignores the NaN, while the instruction gives it.

Both exceptions can be told from the values that a run of the reference computes, so that two runs are
compared operation by operation.

## Main definitions

* `Binary32.Same` — the same number, or both NaN.
* `Arithmetic.IsReference` — an arithmetic that is the reference but for zeros of opposite sign.
* `Program.ComparesZeros`, `Program.DropsNaN` — runs with one of the exceptions.

## Main results

* `Binary32.same_selectMax`, `Binary32.same_selectMin` — the two kinds of maximum and minimum.
* `Program.same_valueAt` — runs without exceptions compute the same values.
* `Program.same_eval` — they have the same results.
-/

set_option autoImplicit false

namespace Pointwise

/-! ## Numbers up to NaN -/

namespace Binary32

variable {x x' y y' z z' : Binary32}

/-- The same number, or both NaN. -/
def Same (x y : Binary32) : Prop := x = y ∨ x.isNaN = true ∧ y.isNaN = true

instance (x y : Binary32) : Decidable (x.Same y) := inferInstanceAs (Decidable (_ ∨ _))

/-- Zeros of opposite sign. -/
def OppositeZeros (x y : Binary32) : Prop := x.isZero = true ∧ y.isZero = true ∧ x ≠ y

instance (x y : Binary32) : Decidable (x.OppositeZeros y) := inferInstanceAs (Decidable (_ ∧ _))

theorem Same.refl (x : Binary32) : x.Same x := .inl rfl

theorem Same.symm (h : x.Same y) : y.Same x := h.imp Eq.symm And.symm

theorem Same.trans (hxy : x.Same y) (hyz : y.Same z) : x.Same z := by
  rcases hxy with rfl | ⟨hx, hy⟩
  · exact hyz
  · rcases hyz with rfl | ⟨-, hz⟩
    · exact .inr ⟨hx, hy⟩
    · exact .inr ⟨hx, hz⟩

/-- Numbers that are the same are both NaN or neither is. -/
theorem Same.isNaN_eq (h : x.Same y) : x.isNaN = y.isNaN := by
  rcases h with rfl | ⟨hx, hy⟩
  · rfl
  · rw [hx, hy]

/-- A number that is not NaN is only the same as itself. -/
theorem Same.eq_of_isNaN (h : x.Same y) (hy : y.isNaN = false) : x = y :=
  h.resolve_right fun hnan => Bool.false_ne_true (hy.symm.trans hnan.2)

/-! ### Operations that spread NaN -/

/-- An operation that gives NaN whenever its operand is NaN. -/
theorem Same.map {f : Binary32 → Binary32} (hf : ∀ x, x.isNaN = true → (f x).isNaN = true)
    (h : x.Same x') : (f x).Same (f x') := by
  rcases h with rfl | ⟨hx, hx'⟩
  · exact .refl _
  · exact .inr ⟨hf x hx, hf x' hx'⟩

/-- An operation that gives NaN whenever one of its operands is NaN. -/
theorem Same.map₂ {f : Binary32 → Binary32 → Binary32}
    (hf : ∀ {x y}, x.isNaN = true ∨ y.isNaN = true → (f x y).isNaN = true) (hx : x.Same x')
    (hy : y.Same y') : (f x y).Same (f x' y') :=
  (hx.map (f := (f · y)) fun _ hnan => hf (.inl hnan)).trans
    (hy.map (f := f x') fun _ hnan => hf (.inr hnan))

/-- An operation that gives NaN whenever one of its three operands is NaN. -/
theorem Same.map₃ {f : Binary32 → Binary32 → Binary32 → Binary32}
    (hf : ∀ {x y z}, x.isNaN = true ∨ y.isNaN = true ∨ z.isNaN = true → (f x y z).isNaN = true)
    (hx : x.Same x') (hy : y.Same y') (hz : z.Same z') : (f x y z).Same (f x' y' z') :=
  (hx.map (f := (f · y z)) fun _ hnan => hf (.inl hnan)).trans
    (hy.map₂ (f := f x') (fun hnan => hf (.inr hnan)) hz)

/-- A NaN that is made quiet is one. -/
theorem isNaN_quiet (h : x.isNaN = true) : x.quiet.isNaN = true := by
  have hmagnitude : x.quiet.magnitude = x.magnitude ||| 0x00400000 := by
    simp only [quiet, magnitude, signWeight, BitVec.toNat_or]
    exact Nat.or_mod_two_pow (n := 31)
  rw [isNaN, decide_eq_true_eq] at h ⊢
  rw [hmagnitude]
  exact Nat.lt_of_lt_of_le h Nat.left_le_or

/-- The first NaN among two numbers. -/
theorem isNaN_first {result : Binary32} (h : x.isNaN = true ∨ y.isNaN = true) :
    (if x.isNaN then x.quiet else if y.isNaN then y.quiet else result).isNaN = true := by
  by_cases hx : x.isNaN = true
  · rw [if_pos hx]
    exact isNaN_quiet hx
  · have hy := h.resolve_left hx
    rw [if_neg hx, if_pos hy]
    exact isNaN_quiet hy

theorem isNaN_add (h : x.isNaN = true ∨ y.isNaN = true) : (add x y).isNaN = true := isNaN_first h

theorem isNaN_sub (h : x.isNaN = true ∨ y.isNaN = true) : (sub x y).isNaN = true := isNaN_first h

theorem isNaN_mul (h : x.isNaN = true ∨ y.isNaN = true) : (mul x y).isNaN = true := isNaN_first h

theorem isNaN_div (h : x.isNaN = true ∨ y.isNaN = true) : (div x y).isNaN = true := isNaN_first h

theorem isNaN_fma (h : x.isNaN = true ∨ y.isNaN = true ∨ z.isNaN = true) :
    (fma x y z).isNaN = true := by
  by_cases hx : x.isNaN = true
  · rw [fma, if_pos hx]
    exact isNaN_quiet hx
  · rw [fma, if_neg hx]
    exact isNaN_first (h.resolve_left hx)

theorem isNaN_sqrt (h : x.isNaN = true) : (sqrt x).isNaN = true := by
  rw [sqrt, if_pos h]
  exact isNaN_quiet h

/-- The order of the factors matters for a NaN only. -/
theorem same_fma_comm (x y z : Binary32) : (fma x y z).Same (fma y x z) := by
  by_cases h : x.isNaN = true ∨ y.isNaN = true ∨ z.isNaN = true
  · exact .inr ⟨isNaN_fma h, isNaN_fma (or_left_comm.1 h)⟩
  · simp only [not_or, Bool.not_eq_true] at h
    refine .inl ?_
    have hsign : (x.negative != y.negative) = (y.negative != x.negative) := bne_comm
    simp only [fma, h, hsign, Bool.or_comm x.isInfinite, Bool.or_comm x.isZero, Int.mul_comm x.units,
      Bool.false_eq_true, if_false]

/-- So a fused operation is the same in either order. -/
theorem same_fma_vector (swapped : Bool) (x y z : Binary32) :
    (Arithmetic.vector.fma swapped x y z).Same (fma x y z) := by
  cases swapped with
  | false =>
    rw [Arithmetic.vector_fma_false]
    exact .refl _
  | true =>
    rw [Arithmetic.vector_fma_true]
    exact same_fma_comm y x z

/-! ### Operations on the sign -/

@[simp] theorem isNaN_neg (x : Binary32) : x.neg.isNaN = x.isNaN := by
  have hmagnitude : x.neg.magnitude = x.magnitude := by
    simp only [neg, magnitude, signWeight, BitVec.toNat_xor]
    exact (Nat.xor_mod_two_pow (n := 31)).trans (Nat.xor_zero _)
  rw [isNaN, isNaN, hmagnitude]

@[simp] theorem isNaN_abs (x : Binary32) : x.abs.isNaN = x.isNaN := by
  have hmagnitude : x.abs.magnitude = x.magnitude := by
    simp only [abs, magnitude, signWeight, BitVec.toNat_and]
    show (x.bits.toNat &&& (2 ^ 31 - 1)) % 2 ^ 31 = x.bits.toNat % 2 ^ 31
    rw [Nat.and_two_pow_sub_one_eq_mod, Nat.mod_mod]
  rw [isNaN, isNaN, hmagnitude]

/-! ### Maximum and minimum -/

/-- A selection of the second operand whenever the first one is NaN agrees with one that ignores NaN, if
the second operand is not NaN alone. -/
theorem same_select {select number : Binary32 → Binary32 → Binary32}
    (hselect : ∀ x y, x.isNaN = true → select x y = y)
    (hnumber : ∀ x y, number x y = if x.isNaN then y else if y.isNaN then x else select x y)
    (hx : x.Same x') (hy : y.Same y') (hnan : y'.isNaN = true → x'.isNaN = true) :
    (select x y).Same (number x' y') := by
  rw [hnumber]
  by_cases hx' : x'.isNaN = true
  · rw [if_pos hx', hselect x y (hx.isNaN_eq.trans hx')]
    exact hy
  · rw [if_neg hx', if_neg fun hy' => hx' (hnan hy')]
    have hxeq := hx.eq_of_isNaN (by simpa using hx')
    have hyeq := hy.eq_of_isNaN (by simpa using fun hy' => hx' (hnan hy'))
    rw [hxeq, hyeq]
    exact .refl _

/-- **The two kinds of maximum** agree if the second operand is not NaN alone. -/
theorem same_selectMax (hx : x.Same x') (hy : y.Same y') (hnan : y'.isNaN = true → x'.isNaN = true) :
    (selectMax x y).Same (maxNumber x' y') :=
  same_select (fun x y hx => by simp [selectMax, lt, hx]) (fun _ _ => rfl) hx hy hnan

/-- **The two kinds of minimum** agree if the second operand is not NaN alone. -/
theorem same_selectMin (hx : x.Same x') (hy : y.Same y') (hnan : y'.isNaN = true → x'.isNaN = true) :
    (selectMin x y).Same (minNumber x' y') :=
  same_select (fun x y hx => by simp [selectMin, lt, hx]) (fun _ _ => rfl) hx hy hnan

end Binary32

/-! ## Operations -/

open Binary32

/-- Whether an operation gives one of its operands. -/
def BinaryOp.selects : BinaryOp → Bool
  | .max | .min => true
  | .add | .sub | .mul | .div => false

/-- **An arithmetic that is the reference** but for zeros of opposite sign, either of which may be their
maximum and their minimum. All NaNs count as one. -/
structure Arithmetic.IsReference (arith : Arithmetic) : Prop where
  binary : ∀ (op : BinaryOp) (x y : Binary32), ¬ (op.selects = true ∧ x.OppositeZeros y) →
    (arith.binary op x y).Same (reference.binary op x y)
  fma : ∀ (swapped : Bool) (x y z : Binary32),
    (arith.fma swapped x y z).Same (reference.fma swapped x y z)
  unary : ∀ (op : UnaryOp) (x : Binary32), ¬ (op = .relu ∧ x.OppositeZeros .zero) →
    (arith.unary op x).Same (reference.unary op x)

/-- The reference is one. -/
theorem Arithmetic.isReference_reference : IsReference reference :=
  ⟨fun _ _ _ _ => .refl _, fun _ _ _ _ => .refl _, fun _ _ _ => .refl _⟩

namespace MicroOp

variable {arith : Arithmetic} {row : List Binary32} {swapped : Bool} {values values' : Nat → Binary32}

/-- An operation that compares zeros of opposite sign. -/
def ComparesZeros (values : Nat → Binary32) : MicroOp → Prop
  | .binary op a b => op.selects = true ∧ (values a).OppositeZeros (values b)
  | .unary op a => op = .relu ∧ (values a).OppositeZeros .zero
  | _ => False

/-- A maximum or minimum whose second operand alone is NaN. -/
def DropsNaN (values : Nat → Binary32) : MicroOp → Prop
  | .binary op a b => op.selects = true ∧ (values a).isNaN = false ∧ (values b).isNaN = true
  | _ => False

instance (values : Nat → Binary32) (op : MicroOp) : Decidable (op.ComparesZeros values) := by
  unfold ComparesZeros
  split <;> infer_instance

instance (values : Nat → Binary32) (op : MicroOp) : Decidable (op.DropsNaN values) := by
  unfold DropsNaN
  split <;> infer_instance

/-- **One operation** gives the same value on the same operands, unless it is an exception. -/
theorem same_valueFrom (harith : arith.IsReference) {op : MicroOp}
    (hoperands : ∀ a ∈ op.operands, (values a).Same (values' a))
    (hzeros : ¬ op.ComparesZeros values') (hnan : ¬ op.DropsNaN values') :
    (op.valueFrom (.ofRow .vector row) swapped (fun a _ => values a) 0).Same
      (op.valueFrom (.ofRow arith row) swapped (fun a _ => values' a) 0) := by
  cases op with
  | input p => exact .refl _
  | const value => exact .refl _
  | broadcast a => exact hoperands a (by simp [operands])
  | binary op a b =>
    have ha := hoperands a (by simp [operands])
    have hb := hoperands b (by simp [operands])
    refine Same.trans ?_ (harith.binary op (values' a) (values' b) hzeros).symm
    have hsecond : op.selects = true → (values' b).isNaN = true → (values' a).isNaN = true := by
      intro hop hb'
      by_contra ha'
      exact hnan ⟨hop, by simpa using ha', hb'⟩
    cases op with
    | add => exact ha.map₂ isNaN_add hb
    | sub => exact ha.map₂ isNaN_sub hb
    | mul => exact ha.map₂ isNaN_mul hb
    | div => exact ha.map₂ isNaN_div hb
    | max => exact same_selectMax ha hb (hsecond rfl)
    | min => exact same_selectMin ha hb (hsecond rfl)
  | fma a b c =>
    have hfma := (hoperands a (by simp [operands])).map₃ isNaN_fma (hoperands b (by simp [operands]))
      (hoperands c (by simp [operands]))
    exact ((same_fma_vector swapped _ _ _).trans hfma).trans (harith.fma swapped _ _ _).symm
  | unary op a =>
    have ha := hoperands a (by simp [operands])
    refine Same.trans ?_ (harith.unary op (values' a) hzeros).symm
    cases op with
    | neg => exact ha.map fun x hx => (isNaN_neg x).trans hx
    | abs => exact ha.map fun x hx => (isNaN_abs x).trans hx
    | sqrt => exact ha.map fun _ => isNaN_sqrt
    | relu =>
      -- The second operand is the constant zero, which is no NaN.
      exact same_selectMax ha (.refl _) fun hzero => absurd hzero (by decide)

end MicroOp

/-! ## Programs -/

namespace Program

variable {program : Program} {arith : Arithmetic} {row : List Binary32}

/-- A run that compares zeros of opposite sign. -/
def ComparesZeros (program : Program) (arith : Arithmetic) (row : List Binary32) : Prop :=
  ∃ op ∈ program.ops, op.ComparesZeros fun a => program.valueAt (.ofRow arith row) a 0

/-- A run in which the second operand of a maximum or minimum alone is NaN. -/
def DropsNaN (program : Program) (arith : Arithmetic) (row : List Binary32) : Prop :=
  ∃ op ∈ program.ops, op.DropsNaN fun a => program.valueAt (.ofRow arith row) a 0

instance (program : Program) (arith : Arithmetic) (row : List Binary32) :
    Decidable (program.ComparesZeros arith row) :=
  inferInstanceAs (Decidable (∃ op ∈ program.ops, _))

instance (program : Program) (arith : Arithmetic) (row : List Binary32) :
    Decidable (program.DropsNaN arith row) :=
  inferInstanceAs (Decidable (∃ op ∈ program.ops, _))

/-- **Runs without exceptions compute the same values.**

**Proof sketch.** By induction on the position of the operation: its operands stand before it. -/
theorem same_valueAt (harith : arith.IsReference) (hzeros : ¬ program.ComparesZeros arith row)
    (hnan : ¬ program.DropsNaN arith row) (value : Nat) :
    (program.valueAt (.ofRow .vector row) value 0).Same
      (program.valueAt (.ofRow arith row) value 0) := by
  induction value using Nat.strongRecOn with
  | ind value ih =>
    by_cases hlt : value < program.ops.length
    · have hmem := List.getElem_mem hlt
      rw [valueAt_eq program _ hlt, valueAt_eq program _ hlt]
      exact MicroOp.same_valueFrom harith
        (fun a ha => ih a (program.wellFormed.operands_lt value hlt a ha))
        (fun h => hzeros ⟨_, hmem, h⟩) fun h => hnan ⟨_, hmem, h⟩
    · rw [valueAt, valueAt, List.getElem?_eq_none (by omega)]
      exact .refl _

/-- **Runs without exceptions have the same results.** -/
theorem same_eval (harith : arith.IsReference) (hrow : program.inputs ≤ row.length)
    (hzeros : ¬ program.ComparesZeros arith row) (hnan : ¬ program.DropsNaN arith row) :
    ∃ values values', program.eval .vector row = .ok values ∧ program.eval arith row = .ok values' ∧
      List.Forall₂ Same values values' := by
  refine ⟨_, _, program.eval_eq_valueAt hrow, program.eval_eq_valueAt hrow, ?_⟩
  rw [List.forall₂_map_left_iff, List.forall₂_map_right_iff, List.forall₂_same]
  exact fun value _ => same_valueAt harith hzeros hnan value

end Program

end Pointwise
