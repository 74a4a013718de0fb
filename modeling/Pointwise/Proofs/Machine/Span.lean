import Mathlib.Algebra.Order.Group.Nat
import Mathlib.Data.List.Forall2
import Mathlib.Tactic.Ring
import Pointwise.Machine.Access

/-!
# Rows of bytes

An address belongs to a row of bytes if its distance from the beginning, modulo `2 ^ 64`, is below
the length of the row. What is read in a row depends on the bytes of this row only, and what is
written to a row is read back from it if the row is not longer than the memory.

## Main definitions

* `Span.Disjoint`, `Span.Within`, `Span.Before` — how two rows of bytes lie to each other.

## Main results

* `Span.covers_iff` — the addresses of a row in terms of distances.
* `Memory.readNumber_writeNumbers`, `Memory.readWord_writeWords` — a row that was written is read
  back.
-/

set_option autoImplicit false

namespace Pointwise

namespace Span

/-! ## Addresses of a row -/

/-- Rows of bytes without a common one. -/
def Disjoint (left right : Span) : Prop := ∀ a, left.Covers a → ¬ right.Covers a

/-- A row of bytes that is part of another one. -/
def Within (inner outer : Span) : Prop := ∀ a, inner.Covers a → outer.Covers a

variable {left right inner outer : Span} {a b : Address} {i k n m : Nat}

theorem Disjoint.symm (h : left.Disjoint right) : right.Disjoint left :=
  fun a hright hleft => h a hleft hright

theorem Within.refl (span : Span) : span.Within span := fun _ h => h

theorem Within.trans {middle : Span} (h : inner.Within middle) (h' : middle.Within outer) :
    inner.Within outer :=
  fun a ha => h' a (h a ha)

theorem Disjoint.mono {left' right' : Span} (h : left.Disjoint right) (hleft : left'.Within left)
    (hright : right'.Within right) : left'.Disjoint right' :=
  fun a ha ha' => h a (hleft a ha) (hright a ha')

/-- **The addresses of a row** are those at a distance below its length. -/
theorem covers_iff {span : Span} : span.Covers a ↔ (a - span.start).toNat < span.length := by
  constructor
  · rintro ⟨i, hi, rfl⟩
    rw [BitVec.add_comm, BitVec.add_sub_cancel, BitVec.toNat_ofNat]
    exact (Nat.mod_le _ _).trans_lt hi
  · intro h
    refine ⟨_, h, ?_⟩
    rw [BitVec.ofNat_toNat, BitVec.setWidth_eq, BitVec.add_comm, BitVec.sub_add_cancel]

instance (span : Span) (a : Address) : Decidable (span.Covers a) :=
  decidable_of_iff _ covers_iff.symm

/-- A row apart from another one does not go round the whole memory. -/
theorem Disjoint.length_le (h : left.Disjoint right) (hpos : 0 < left.length) :
    right.length ≤ 2 ^ 64 := by
  by_contra hlt
  refine h left.start (covers_iff.2 (by simpa using hpos)) (covers_iff.2 ?_)
  exact (BitVec.isLt _).trans (Nat.lt_of_not_le hlt)

/-- Two steps forward are one. -/
theorem add_ofNat_add (a : Address) (k i : Nat) :
    a + BitVec.ofNat 64 k + BitVec.ofNat 64 i = a + BitVec.ofNat 64 (k + i) := by
  rw [BitVec.add_assoc, BitVec.ofNat_add]

/-- An address in a row, by the number of its byte. -/
theorem covers_add (a : Address) (h : i < n) : Span.Covers ⟨a, n⟩ (a + BitVec.ofNat 64 i) :=
  ⟨i, h, rfl⟩

/-- A row in the middle of another one. -/
theorem within_of_le (h : k + n ≤ m) : Within ⟨a + BitVec.ofNat 64 k, n⟩ ⟨a, m⟩ := by
  rintro _ ⟨i, hi, rfl⟩
  rw [add_ofNat_add]
  exact covers_add a (by dsimp only at hi; omega)

/-- A row at the beginning of another one. -/
theorem within_of_length_le (h : n ≤ m) : Within ⟨a, n⟩ ⟨a, m⟩ :=
  fun _ ⟨i, hi, e⟩ => ⟨i, Nat.lt_of_lt_of_le hi h, e⟩

/-- Numbers of bytes below `2 ^ 64` can be told apart. -/
theorem ofNat_injective (hi : i < 2 ^ 64) (hk : k < 2 ^ 64)
    (h : a + BitVec.ofNat 64 i = a + BitVec.ofNat 64 k) : i = k := by
  have heq : BitVec.ofNat 64 i = BitVec.ofNat 64 k := by
    have hsub := congrArg (· - a) h
    simpa only [BitVec.add_comm a, BitVec.add_sub_cancel] using hsub
  have hnat := congrArg BitVec.toNat heq
  rwa [BitVec.toNat_ofNat, BitVec.toNat_ofNat, Nat.mod_eq_of_lt hi, Nat.mod_eq_of_lt hk] at hnat

/-- Which bytes behind an address belong to a row in the middle. -/
theorem covers_add_iff (hlen : k + n ≤ 2 ^ 64) (hi : i < 2 ^ 64) :
    Span.Covers ⟨a + BitVec.ofNat 64 k, n⟩ (a + BitVec.ofNat 64 i) ↔ k ≤ i ∧ i < k + n := by
  constructor
  · rintro ⟨j, hj, heq⟩
    dsimp only at hj heq
    rw [add_ofNat_add] at heq
    have := ofNat_injective hi (by omega) heq
    omega
  · rintro ⟨hle, hlt⟩
    refine ⟨i - k, by dsimp only; omega, ?_⟩
    rw [add_ofNat_add, Nat.add_sub_cancel' hle]

/-- Rows behind the same address that follow each other. -/
theorem disjoint_of_le (h : k + n ≤ i) (hlen : i + m ≤ 2 ^ 64) :
    Disjoint ⟨a + BitVec.ofNat 64 k, n⟩ ⟨a + BitVec.ofNat 64 i, m⟩ := by
  rintro _ ⟨j, hj, rfl⟩ hcovers
  dsimp only at hj
  rw [add_ofNat_add, covers_add_iff hlen (by omega)] at hcovers
  omega

/-- Rows of bytes at addresses below the end of memory that follow each other. -/
theorem disjoint_ofNat {x y n m : Nat} (h : x + n ≤ y) (hle : y + m ≤ 2 ^ 64) :
    Disjoint ⟨BitVec.ofNat 64 x, n⟩ ⟨BitVec.ofNat 64 y, m⟩ := by
  have hdisjoint := disjoint_of_le (a := 0) h hle
  rwa [BitVec.ofNat_eq_ofNat, BitVec.zero_add, BitVec.zero_add] at hdisjoint

/-- One row of bytes ends in front of another one, which does not run over the end of memory. -/
def Before (x y : Span) : Prop :=
  x.start.toNat + x.length ≤ y.start.toNat ∧ y.start.toNat + y.length ≤ 2 ^ 64

instance (x y : Span) : Decidable (x.Before y) := inferInstanceAs (Decidable (_ ∧ _))

/-- Rows of bytes one of which ends in front of the other do not overlap. -/
theorem Before.disjoint {x y : Span} (h : x.Before y ∨ y.Before x) : x.Disjoint y := by
  have hbefore : ∀ {x y : Span}, x.Before y → x.Disjoint y := by
    intro x y h
    have hdisjoint := disjoint_ofNat h.1 h.2
    rwa [BitVec.ofNat_toNat, BitVec.ofNat_toNat, BitVec.setWidth_eq, BitVec.setWidth_eq] at hdisjoint
  exact h.elim hbefore fun h => (hbefore h).symm

end Span

/-! ## Reading in a row -/

namespace Memory

variable {memory memory' : Memory} {a : Address}

/-- A word depends on its own bytes only. -/
theorem readWord_congr (h : ∀ b, Span.Covers ⟨a, 8⟩ b → memory.read b = memory'.read b) :
    memory.readWord a = memory'.readWord a := by
  have hbyte : ∀ i < 8, memory.read (a + BitVec.ofNat 64 i) = memory'.read (a + BitVec.ofNat 64 i) :=
    fun i hi => h _ (Span.covers_add a hi)
  have hzero : memory.read a = memory'.read a := by simpa using hbyte 0 (by omega)
  simp only [readWord, BitVec.ofNat_eq_ofNat, hzero, hbyte 1 (by omega), hbyte 2 (by omega),
    hbyte 3 (by omega), hbyte 4 (by omega), hbyte 5 (by omega), hbyte 6 (by omega),
    hbyte 7 (by omega)]

/-- A number depends on its own bytes only. -/
theorem readNumber_congr (h : ∀ b, Span.Covers ⟨a, 4⟩ b → memory.read b = memory'.read b) :
    memory.readNumber a = memory'.readNumber a := by
  have hbyte : ∀ i < 4, memory.read (a + BitVec.ofNat 64 i) = memory'.read (a + BitVec.ofNat 64 i) :=
    fun i hi => h _ (Span.covers_add a hi)
  have hzero : memory.read a = memory'.read a := by simpa using hbyte 0 (by omega)
  simp only [readNumber, BitVec.ofNat_eq_ofNat, hzero, hbyte 1 (by omega), hbyte 2 (by omega),
    hbyte 3 (by omega)]

/-! ## Writing rows -/

/-- The first word of a row is written before the others. The equation is one of the definition, and
proved here without evaluating what is written. -/
theorem writeWords_cons (value : BitVec 64) (values : List (BitVec 64)) :
    memory.writeWords a (value :: values) = (memory.writeWord a value).writeWords (a + 8) values := by
  delta writeWords
  rfl

/-- A row of words changes no byte but its own. -/
theorem read_writeWords {values : List (BitVec 64)} {b : Address}
    (h : ¬ Span.Covers ⟨a, 8 * values.length⟩ b) :
    (memory.writeWords a values).read b = memory.read b := by
  induction values generalizing memory a with
  | nil => rfl
  | cons value values ih =>
    rw [List.length_cons] at h
    have hfirst : ¬ Span.Covers ⟨a, 8⟩ b :=
      fun hcovers => h (Span.within_of_length_le (by omega) b hcovers)
    have hrest : ¬ Span.Covers ⟨a + 8, 8 * values.length⟩ b :=
      fun hcovers => h (Span.within_of_le (k := 8) (by omega) b hcovers)
    rw [writeWords_cons, ih hrest, read_writeWord hfirst]

/-- **A row of words is read back.** -/
theorem readWord_writeWords {values : List (BitVec 64)} (hlen : 8 * values.length ≤ 2 ^ 64)
    {i : Nat} (hi : i < values.length) :
    (memory.writeWords a values).readWord (a + BitVec.ofNat 64 (8 * i)) = values[i] := by
  induction values generalizing memory a i with
  | nil => simp at hi
  | cons value values ih =>
    simp only [List.length_cons] at hlen hi
    rw [writeWords_cons]
    cases i with
    | zero =>
      have hbehind : Span.Disjoint ⟨a, 8⟩ ⟨a + 8, 8 * values.length⟩ := by
        have h := Span.disjoint_of_le (a := a) (k := 0) (n := 8) (i := 8)
          (m := 8 * values.length) (by omega) (by omega)
        simpa using h
      have hfirst : a + BitVec.ofNat 64 (8 * 0) = a := by simp
      rw [hfirst, List.getElem_cons_zero, readWord_congr fun b hb =>
        read_writeWords (hbehind b hb), readWord_writeWord]
    | succ i =>
      have hnext : a + BitVec.ofNat 64 (8 * (i + 1)) = a + 8 + BitVec.ofNat 64 (8 * i) := by
        rw [show (8 : BitVec 64) = BitVec.ofNat 64 8 from rfl, Span.add_ofNat_add]
        congr 2
        omega
      rw [hnext, List.getElem_cons_succ]
      exact ih (by omega) (by omega)

/-- **A row of numbers is read back.** -/
theorem readNumber_writeNumbers {values : List Binary32} (hlen : 4 * values.length ≤ 2 ^ 64)
    {i : Nat} (hi : i < values.length) :
    (memory.writeNumbers a values).readNumber (a + BitVec.ofNat 64 (4 * i)) = values[i] := by
  induction values generalizing memory a i with
  | nil => simp at hi
  | cons value values ih =>
    simp only [List.length_cons] at hlen hi
    rw [writeNumbers]
    cases i with
    | zero =>
      have hbehind : Span.Disjoint ⟨a, 4⟩ ⟨a + 4, 4 * values.length⟩ := by
        have h := Span.disjoint_of_le (a := a) (k := 0) (n := 4) (i := 4)
          (m := 4 * values.length) (by omega) (by omega)
        simpa using h
      have hfirst : a + BitVec.ofNat 64 (4 * 0) = a := by simp
      rw [hfirst, List.getElem_cons_zero, readNumber_congr fun b hb =>
        read_writeNumbers (hbehind b hb), readNumber_writeNumber]
    | succ i =>
      have hnext : a + BitVec.ofNat 64 (4 * (i + 1)) = a + 4 + BitVec.ofNat 64 (4 * i) := by
        rw [show (4 : BitVec 64) = BitVec.ofNat 64 4 from rfl, Span.add_ofNat_add]
        congr 2
        omega
      rw [hnext, List.getElem_cons_succ]
      exact ih (by omega) (by omega)

end Memory

end Pointwise
