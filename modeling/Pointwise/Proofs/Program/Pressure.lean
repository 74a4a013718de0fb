import Mathlib.Algebra.Order.Group.Nat
import Mathlib.Data.Finset.Lattice.Fold
import Mathlib.Data.Finset.Card
import Mathlib.Order.Lattice.Nat
import Pointwise.Proofs.Program.Registers

/-!
# The fewest registers for a program

Where an operation writes its result, the values that were found before and are still needed behind
the operation lie in registers of their own, and none of them may be that of the result. However the
registers are chosen, there are at least as many as that. The scan never takes more: a register that
is not free holds a value that is still needed, so that a new one is handed out only where all of the
others have to be kept.

## Main definitions

* `Program.KeepsValues` — registers for the values that keep each of them as long as it is needed.
* `Program.kept` — the earlier values that are needed behind an operation.
* `Program.pressure` — the registers that are taken while an operation writes its result.

## Main results

* `Program.KeepsValues.pressure_le` — no choice of registers falls below the pressure.
* `Program.held_assignStep` — a register that is not free holds a value that is needed.
* `Program.count_registers_le` — the scan takes no more registers than the pressure asks for.
* `Program.registers_fewest` — the scan keeps all values, and in as few registers as possible.
-/

set_option autoImplicit false

namespace Pointwise

namespace Program

/-! ## Needs and pressure -/

/-- Registers for the values of a program that keep each of them as long as it is needed: no operand is
overwritten in front of an operation that reads it, and no output is overwritten at all. -/
structure KeepsValues (program : Program) (registers : List Nat) : Prop where
  length : registers.length = program.ops.length
  operands : ∀ (j : Nat) (h : j < program.ops.length), ∀ a ∈ program.ops[j].operands,
    ∀ w < j, a < w → registers[w]? ≠ registers[a]?
  outputs : ∀ v ∈ program.outputs, ∀ w < program.ops.length, v < w → registers[w]? ≠ registers[v]?

/-- Whether registers keep all values can be computed. -/
instance (program : Program) (registers : List Nat) : Decidable (program.KeepsValues registers) :=
  have : Decidable (∀ (j : Nat) (h : j < program.ops.length), ∀ a ∈ program.ops[j].operands,
      ∀ w < j, a < w → registers[w]? ≠ registers[a]?) := inferInstance
  decidable_of_iff (registers.length = program.ops.length ∧
      (∀ (j : Nat) (h : j < program.ops.length), ∀ a ∈ program.ops[j].operands,
        ∀ w < j, a < w → registers[w]? ≠ registers[a]?) ∧
      ∀ v ∈ program.outputs, ∀ w < program.ops.length, v < w → registers[w]? ≠ registers[v]?)
    ⟨fun h => ⟨h.1, h.2.1, h.2.2⟩, fun h => ⟨h.length, h.operands, h.outputs⟩⟩

variable {program : Program}

/-- A value is needed if it is an output or an operand of the operations that are left. -/
theorem neededFrom_iff {position value : Nat} :
    program.NeededFrom position value ↔
      value ∈ program.outputs ∨ ∃ op ∈ program.ops.drop position, value ∈ op.operands := by
  refine or_congr_right ⟨?_, ?_⟩
  · rintro ⟨j, op, hj, hop, hmem⟩
    refine ⟨op, List.mem_of_getElem? (i := j - position) ?_, hmem⟩
    rw [List.getElem?_drop, Nat.add_sub_cancel' hj, hop]
  · rintro ⟨op, hop, hmem⟩
    obtain ⟨i, hi⟩ := List.mem_iff_getElem?.1 hop
    rw [List.getElem?_drop] at hi
    exact ⟨position + i, op, Nat.le_add_right _ _, hi, hmem⟩

instance (position : Nat) : DecidablePred (program.NeededFrom position) :=
  fun _ => decidable_of_iff _ neededFrom_iff.symm

/-- The values in front of an operation that are needed behind it. -/
def kept (program : Program) (position : Nat) : Finset Nat :=
  (Finset.range position).filter (program.NeededFrom (position + 1))

/-- The registers that are taken while an operation writes its result. -/
def pressure (program : Program) (position : Nat) : Nat := 1 + (program.kept position).card

theorem mem_kept {position value : Nat} :
    value ∈ program.kept position ↔ value < position ∧ program.NeededFrom (position + 1) value := by
  rw [kept, Finset.mem_filter, Finset.mem_range]

/-! ## The lower bound -/

/-- A value that is needed behind a position is not overwritten up to there. -/
theorem KeepsValues.ne {registers : List Nat} (h : program.KeepsValues registers) {position v w : Nat}
    (hneeded : program.NeededFrom (position + 1) v) (hvw : v < w) (hw : w ≤ position)
    (hposition : position < program.ops.length) : registers[w]? ≠ registers[v]? := by
  rcases hneeded with hout | ⟨j, op, hj, hop, hmem⟩
  · exact h.outputs v hout w (by omega) hvw
  · obtain ⟨hlt, rfl⟩ := List.getElem?_eq_some_iff.1 hop
    exact h.operands j hlt v hmem w (by omega) hvw

/-- **No choice of registers falls below the pressure**: the result of an operation and the values that
are kept over it have registers of their own. -/
theorem KeepsValues.pressure_le {registers : List Nat} (h : program.KeepsValues registers)
    {position : Nat} (hposition : position < program.ops.length) :
    program.pressure position ≤ registers.toFinset.card := by
  have hcard : (insert position (program.kept position)).card = program.pressure position := by
    rw [Finset.card_insert_of_notMem fun hmem => Nat.lt_irrefl _ (mem_kept.1 hmem).1, pressure,
      Nat.add_comm]
  have hlive : ∀ v ∈ insert position (program.kept position),
      v ≤ position ∧ (v < position → program.NeededFrom (position + 1) v) := by
    intro v hv
    rcases Finset.mem_insert.1 hv with rfl | hv
    · exact ⟨le_rfl, fun hlt => absurd hlt (Nat.lt_irrefl _)⟩
    · exact ⟨(mem_kept.1 hv).1.le, fun _ => (mem_kept.1 hv).2⟩
  have hregister : ∀ v ≤ position, registers[v]? = some (registers.getD v 0) := by
    intro v hv
    have hlt : v < registers.length := by
      rw [h.length]
      omega
    rw [List.getD_eq_getElem?_getD, List.getElem?_eq_getElem hlt, Option.getD_some]
  rw [← hcard]
  apply Finset.card_le_card_of_injOn (registers.getD · 0)
  · intro v hv
    rw [Finset.mem_coe, List.mem_toFinset]
    exact List.mem_of_getElem? (hregister v (hlive v hv).1)
  · intro v hv w hw heq
    obtain ⟨hvle, hvneeded⟩ := hlive v hv
    obtain ⟨hwle, hwneeded⟩ := hlive w hw
    have hsame : registers[w]? = registers[v]? := by
      rw [hregister v hvle, hregister w hwle]
      exact congrArg some heq.symm
    rcases Nat.lt_trichotomy v w with hlt | heq | hlt
    · exact absurd hsame (h.ne (hvneeded (by omega)) hlt hwle hposition)
    · exact heq
    · exact absurd hsame.symm (h.ne (hwneeded (by omega)) hlt hvle hposition)

/-! ## What the scan holds -/

/-- A value is needed up to its last use. -/
theorem neededFrom_of_lastUse {value q : Nat} (h : program.lastUse value = some q) :
    program.NeededFrom q value := by
  unfold lastUse at h
  split at h
  · rename_i hout
    exact .inl hout
  · obtain ⟨⟨op, j⟩, hlast, rfl⟩ := Option.map_eq_some_iff.1 h
    obtain ⟨hmem, huse⟩ := List.mem_filter.1 (List.mem_of_getLast? hlast)
    exact .inr ⟨j, op, le_rfl, List.mem_zipIdx_iff_getElem?.1 hmem, by simpa using huse⟩

/-- A value that an operation needs and none behind it does is an operand with its last use here. -/
theorem lastUse_of_not_neededFrom {position value : Nat} {op : MicroOp}
    (hop : program.ops[position]? = some op) (hneeded : program.NeededFrom position value)
    (hnot : ¬ program.NeededFrom (position + 1) value) :
    value ∈ op.operands ∧ program.lastUse value = some position := by
  have hlt := (List.getElem?_eq_some_iff.1 hop).1
  constructor
  · rcases hneeded with hout | ⟨j, op', hj, hop', hmem⟩
    · exact absurd (.inl hout) hnot
    · rcases Nat.eq_or_lt_of_le hj with rfl | hj
      · rw [hop, Option.some.injEq] at hop'
        exact hop' ▸ hmem
      · exact absurd (.inr ⟨j, op', hj, hop', hmem⟩) hnot
  · obtain ⟨q, huse, hq⟩ := hneeded.le_lastUse hlt.le
    rcases Nat.eq_or_lt_of_le hq with rfl | hq
    · exact huse
    · exact absurd ((neededFrom_of_lastUse huse).mono hq) hnot

/-- A register that is not free holds a value that is still needed. -/
def Held (program : Program) (scan : RegisterScan) : Prop :=
  ∀ r < scan.count, r ∈ scan.free ∨
    ∃ v, scan.registers[v]? = some r ∧ program.NeededFrom scan.registers.length v

/-- A register that is neither free nor released holds a value that is needed behind the operation. -/
theorem Held.exists_kept {scan : RegisterScan} (h : program.Held scan) {op : MicroOp}
    (hop : program.ops[scan.registers.length]? = some op) {free : List Nat}
    (hmem : ∀ r, r ∈ free ↔ r ∈ scan.free ∨ ∃ a ∈ op.operands,
      program.lastUse a = some scan.registers.length ∧ r = scan.registers.getD a 0)
    {r : Nat} (hlt : r < scan.count) (hnot : r ∉ free) :
    ∃ v ∈ program.kept scan.registers.length, scan.registers[v]? = some r := by
  rw [hmem, not_or] at hnot
  obtain ⟨v, hv, hneeded⟩ := (h r hlt).resolve_left hnot.1
  refine ⟨v, mem_kept.2 ⟨(List.getElem?_eq_some_iff.1 hv).1, ?_⟩, hv⟩
  by_contra hlast
  obtain ⟨hoperand, huse⟩ := lastUse_of_not_neededFrom hop hneeded hlast
  exact hnot.2 ⟨v, hoperand, huse, by rw [List.getD_eq_getElem?_getD, hv, Option.getD_some]⟩

/-- **A new register is taken only under pressure.** If no register is free, all of them hold values that
are kept over the operation. -/
theorem Held.count_le {scan : RegisterScan} (h : program.Held scan) {op : MicroOp}
    (hop : program.ops[scan.registers.length]? = some op)
    (hmem : ∀ r, r ∈ ([] : List Nat) ↔ r ∈ scan.free ∨ ∃ a ∈ op.operands,
      program.lastUse a = some scan.registers.length ∧ r = scan.registers.getD a 0) :
    scan.count ≤ (program.kept scan.registers.length).card := by
  have hcover : Finset.range scan.count ⊆
      (program.kept scan.registers.length).image (scan.registers.getD · 0) := by
    intro r hr
    obtain ⟨v, hkept, hv⟩ := h.exists_kept hop hmem (Finset.mem_range.1 hr) List.not_mem_nil
    exact Finset.mem_image.2 ⟨v, hkept, by rw [List.getD_eq_getElem?_getD, hv, Option.getD_some]⟩
  calc scan.count
    _ = (Finset.range scan.count).card := (Finset.card_range _).symm
    _ ≤ ((program.kept scan.registers.length).image (scan.registers.getD · 0)).card :=
      Finset.card_le_card hcover
    _ ≤ (program.kept scan.registers.length).card := Finset.card_image_le

/-- **What one operation adds.** The registers that are not free behind it hold values that are needed
there, and there are more registers than before only if the pressure asks for them.

**Proof sketch.** A register that is not the result's and was not free in front of the operation holds a
value that is needed behind it, since operands with their last use here are released. The result's
register holds the result, and is released at once if nothing needs that. -/
theorem held_assignStep {scan : RegisterScan} (hascending : scan.free.Pairwise (· < ·))
    (h : program.Held scan) {op : MicroOp} (hop : program.ops[scan.registers.length]? = some op) :
    program.Held (program.assignStep scan op) ∧
      (program.assignStep scan op).count ≤ max scan.count (program.pressure scan.registers.length) := by
  obtain ⟨free, -, hmem, target, rest, count, hcases, hstep⟩ := assignStep_cases hascending op
  rw [hstep]
  constructor
  · intro r hr
    dsimp only at hr ⊢
    rw [List.length_append, List.length_singleton]
    by_cases htarget : r = target
    · subst htarget
      cases huse : program.lastUse scan.registers.length with
      | none => exact .inl (by simp [mem_insertAscending])
      | some q =>
        -- the result is not read by the operation itself, so that its last use lies behind it
        refine .inr ⟨_, List.getElem?_concat_length, ?_⟩
        rcases neededFrom_of_lastUse huse with hout | ⟨j, op', hj, hop', hread⟩
        · exact .inl hout
        · obtain ⟨hlt, rfl⟩ := List.getElem?_eq_some_iff.1 hop'
          exact .inr ⟨j, _, program.wellFormed.operands_lt j hlt _ hread, hop', hread⟩
    · have hlt : r < scan.count := by
        rcases hcases with ⟨-, rfl⟩ | ⟨-, -, rfl, rfl⟩
        · exact hr
        · omega
      by_cases hfree : r ∈ free
      · left
        have hrest : r ∈ rest := by
          rcases hcases with ⟨rfl, -⟩ | ⟨rfl, -⟩
          · exact (List.mem_cons.1 hfree).resolve_left htarget
          · simp at hfree
        split
        · exact mem_insertAscending.2 (.inr hrest)
        · exact hrest
      · right
        obtain ⟨v, hkept, hv⟩ := h.exists_kept hop hmem hlt hfree
        obtain ⟨hvlt, hneeded⟩ := mem_kept.1 hkept
        exact ⟨v, by rwa [List.getElem?_append_left hvlt], hneeded⟩
  · dsimp only
    rcases hcases with ⟨-, rfl⟩ | ⟨rfl, -, -, rfl⟩
    · exact Nat.le_max_left _ _
    · have hle := h.count_le hop hmem
      rw [pressure]
      omega

/-- **The scan takes no more registers than the pressure asks for.** -/
theorem count_registers_le (program : Program) :
    program.registers.count ≤ (Finset.range program.ops.length).sup program.pressure := by
  have hscan : program.registers.Keeps program program.ops.length ∧ program.Held program.registers ∧
      program.registers.count ≤ (Finset.range program.ops.length).sup program.pressure := by
    refine registers_induction (P := fun position scan => scan.Keeps program position ∧
      program.Held scan ∧ scan.count ≤ (Finset.range position).sup program.pressure) program
      ⟨⟨rfl, by simp, by simp, .nil, by simp, by simp⟩, fun r hr => absurd hr (Nat.not_lt_zero r), le_rfl⟩
      fun {position op scan} hop hoperands h => ?_
    obtain ⟨hkeeps, hheld, hcount⟩ := h
    obtain rfl := hkeeps.length
    obtain ⟨hheld', hcount'⟩ := held_assignStep hkeeps.ascending hheld hop
    refine ⟨keeps_assignStep hkeeps hoperands, hheld', hcount'.trans ?_⟩
    rw [Finset.range_add_one, Finset.sup_insert]
    exact Nat.max_le.2 ⟨hcount.trans le_sup_right, le_sup_left⟩
  exact hscan.2.2

/-! ## The registers of a program -/

/-- The scan keeps all values as long as they are needed. -/
theorem keepsValues_registers (program : Program) : program.KeepsValues program.registers.registers := by
  have hkeeps := program.keeps_registers
  have happart : ∀ v w, v < w → w < program.ops.length → program.NeededFrom (w + 1) v →
      program.registers.registers[w]? ≠ program.registers.registers[v]? := by
    intro v w hvw hw hneeded
    have hv : v < program.registers.registers.length := by
      rw [hkeeps.length]
      omega
    rw [List.getElem?_eq_getElem hv]
    exact registers_apart hvw hw hneeded (List.getElem?_eq_getElem hv)
  constructor
  case length => exact hkeeps.length
  case operands =>
    intro j hj a ha w hwj haw
    have hneeded := neededFrom_of_operand (List.getElem?_eq_getElem hj) ha
    exact happart a w haw (by omega) (hneeded.mono hwj)
  case outputs =>
    intro v hv w hw hvw
    exact happart v w hvw hw (.inl hv)

/-- **Values are kept in as few registers as possible.** All registers of the scan are below its count,
no operand is overwritten in front of an operation that reads it, and no output is overwritten. The
count is the largest number of values that are kept over an operation and one more for its result, and
registers chosen in any other way that keeps the values are at least as many.

**Proof sketch.** The values that are kept over an operation and its result have different registers, so
that the pressure is a lower bound for all choices. For the scan it is an upper bound too: a register that
is not free holds a value that is still needed, so that a new one is handed out only if all others
are kept over the operation. -/
theorem registers_fewest (program : Program) :
    (∀ r ∈ program.registers.registers, r < program.registers.count) ∧
      program.KeepsValues program.registers.registers ∧
      program.registers.count = (Finset.range program.ops.length).sup program.pressure ∧
      ∀ registers, program.KeepsValues registers →
        program.registers.count ≤ registers.toFinset.card := by
  have hlower : ∀ registers, program.KeepsValues registers →
      (Finset.range program.ops.length).sup program.pressure ≤ registers.toFinset.card := by
    intro registers hkeeps
    exact Finset.sup_le fun position hposition => hkeeps.pressure_le (Finset.mem_range.1 hposition)
  have hbelow : program.registers.registers.toFinset.card ≤ program.registers.count := by
    calc program.registers.registers.toFinset.card
      _ ≤ (Finset.range program.registers.count).card := by
        apply Finset.card_le_card
        intro r hr
        exact Finset.mem_range.2 (program.mem_registers_iff.1 (List.mem_toFinset.1 hr))
      _ = program.registers.count := Finset.card_range _
  refine ⟨fun r => program.mem_registers_iff.1, program.keepsValues_registers, ?_, ?_⟩
  · exact program.count_registers_le.antisymm ((hlower _ program.keepsValues_registers).trans hbelow)
  · exact fun registers hkeeps => program.count_registers_le.trans (hlower registers hkeeps)

/-- A program that squares one input, adds the other one to it and uses one of its results for nothing. -/
def shiftedSquare : Program where
  ops := [.input 0, .input 1, .binary .mul 0 0, .unary .neg 1, .binary .add 2 1]
  outputs := [4, 2]
  inputs := 2
  wellFormed := {
    ops_ne_nil := by decide
    outputs_ne_nil := by decide
    operands_lt := by decide
    outputs_lt := by decide
    input_mem_iff := fun p => by
      have hinputs : p < 2 ↔ p = 0 ∨ p = 1 := by omega
      rw [hinputs]
      simp
    params_le := by decide }

/-- Three registers are enough, because the square replaces the first input; one that does without
replacing any value takes five. -/
theorem registers_fewest_of_shiftedSquare :
    shiftedSquare.registers.registers = [0, 1, 0, 2, 1] ∧ shiftedSquare.registers.count = 3 ∧
      shiftedSquare.KeepsValues [4, 1, 2, 0, 3] ∧
      shiftedSquare.registers.count ≤ [4, 1, 2, 0, 3].toFinset.card :=
  ⟨by decide, by decide, by decide, shiftedSquare.registers_fewest.2.2.2 _ (by decide)⟩

end Program

end Pointwise
