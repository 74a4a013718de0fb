import Mathlib.Algebra.Order.Group.Nat
import Mathlib.Data.List.Pairwise
import Mathlib.Tactic.Tauto
import Pointwise.Program.Registers

/-!
# Values that are needed keep their registers

A register that is free again holds no value that is still needed. A result therefore never lands
in the register of a value that a later operation reads or that is an output.

## Main definitions

* `Program.NeededFrom` — the value is read at a position or later, or is an output.
* `RegisterScan.Keeps` — what holds of the scan in front of an operation.

## Main results

* `ascending_spec` — lists of registers are sorted.
* `Program.keeps_registers` — the scan keeps it up to the end.
* `Program.mem_registers_iff` — the registers that hold values.
* `Program.registers_apart` — a result leaves the values alone that are needed behind it.
-/

set_option autoImplicit false

namespace Pointwise

/-! ## Ascending lists -/

/-- An entry added to an ascending list keeps it ascending. -/
theorem pairwise_insertAscending {list : List Nat} (h : list.Pairwise (· < ·)) (r : Nat) :
    (insertAscending r list).Pairwise (· < ·) := by
  induction list with
  | nil => simp [insertAscending]
  | cons s rest ih =>
    obtain ⟨hs, hrest⟩ := List.pairwise_cons.1 h
    unfold insertAscending
    split
    · rename_i hlt
      refine List.pairwise_cons.2 ⟨fun x hx => ?_, h⟩
      rcases List.mem_cons.1 hx with rfl | hx
      · exact hlt
      · exact hlt.trans (hs x hx)
    · split
      · exact h
      · rename_i hge hne
        refine List.pairwise_cons.2 ⟨fun x hx => ?_, ih hrest⟩
        rcases mem_insertAscending.1 hx with rfl | hx
        · omega
        · exact hs x hx

/-- Several entries added to an ascending list. -/
theorem foldl_insertAscending {free : List Nat} (h : free.Pairwise (· < ·)) (f : Nat → Nat)
    (values : List Nat) :
    (values.foldl (fun free a => insertAscending (f a) free) free).Pairwise (· < ·) ∧
      ∀ x, x ∈ values.foldl (fun free a => insertAscending (f a) free) free ↔
        x ∈ free ∨ ∃ a ∈ values, x = f a := by
  induction values generalizing free with
  | nil => simpa using h
  | cons a values ih =>
    obtain ⟨hsorted, hmem⟩ := ih (pairwise_insertAscending h (f a))
    refine ⟨hsorted, fun x => ?_⟩
    rw [List.foldl_cons, hmem, mem_insertAscending]
    simp only [List.mem_cons, exists_eq_or_imp]
    tauto

/-- **Sorted numbers** are ascending, and the same ones. -/
theorem ascending_spec (numbers : List Nat) :
    (ascending numbers).Pairwise (· < ·) ∧ ∀ x, x ∈ ascending numbers ↔ x ∈ numbers := by
  obtain ⟨hsorted, hmem⟩ := foldl_insertAscending List.Pairwise.nil (fun r => r) numbers
  exact ⟨hsorted, fun x => (hmem x).trans (by simp)⟩

namespace Program

/-! ## Needs -/

/-- The value is read by an operation at a position or behind it, or is an output. -/
def NeededFrom (program : Program) (position value : Nat) : Prop :=
  value ∈ program.outputs ∨
    ∃ (j : Nat) (op : MicroOp), position ≤ j ∧ program.ops[j]? = some op ∧ value ∈ op.operands

variable {program : Program}

/-- The operands of an operation are needed up to it. -/
theorem neededFrom_of_operand {position value : Nat} {op : MicroOp}
    (hop : program.ops[position]? = some op) (h : value ∈ op.operands) :
    program.NeededFrom position value :=
  .inr ⟨position, op, le_rfl, hop, h⟩

theorem NeededFrom.mono {position position' value : Nat} (h : program.NeededFrom position value)
    (hle : position' ≤ position) : program.NeededFrom position' value := by
  rcases h with h | ⟨j, op, hj, hop, hmem⟩
  · exact .inl h
  · exact .inr ⟨j, op, hle.trans hj, hop, hmem⟩

/-- A value that is needed has its last use not before. -/
theorem NeededFrom.le_lastUse {position value : Nat} (h : program.NeededFrom position value)
    (hle : position ≤ program.ops.length) : ∃ q, program.lastUse value = some q ∧ position ≤ q := by
  unfold lastUse
  split
  · exact ⟨_, rfl, hle⟩
  · rename_i hout
    obtain ⟨j, op, hj, hop, hmem⟩ := h.resolve_left hout
    change ∃ q, (program.ops.zipIdx.filter fun x => decide (value ∈ x.1.operands)).getLast?.map (·.2) =
      some q ∧ position ≤ q
    generalize huses : program.ops.zipIdx.filter (fun x => decide (value ∈ x.1.operands)) = uses
    have hin : (op, j) ∈ uses := by
      rw [← huses, List.mem_filter]
      exact ⟨List.mem_zipIdx_iff_getElem?.2 hop, by simpa using hmem⟩
    have hsorted : (uses.map (·.2)).Pairwise (· ≤ ·) := by
      have hpositions : (program.ops.zipIdx.map (·.2)).Pairwise (· ≤ ·) := by
        rw [List.zipIdx_map_snd]
        exact List.pairwise_le_range'
      rw [← huses]
      exact hpositions.sublist (List.filter_sublist.map _)
    have hne : uses ≠ [] := List.ne_nil_of_mem hin
    refine ⟨(uses.getLast hne).2, by rw [List.getLast?_eq_some_getLast hne]; rfl, hj.trans ?_⟩
    have hlast := hsorted.rel_getLast (List.mem_map.2 ⟨_, hin, rfl⟩)
    rwa [List.getLast_map] at hlast

end Program

/-! ## The scan -/

/-- What holds of the scan in front of the operation at a position. -/
structure RegisterScan.Keeps (program : Program) (position : Nat) (scan : RegisterScan) : Prop where
  length : scan.registers.length = position
  registers_lt : ∀ r ∈ scan.registers, r < scan.count
  free_lt : ∀ r ∈ scan.free, r < scan.count
  ascending : scan.free.Pairwise (· < ·)
  /-- The register of a value that is still needed is not free. -/
  not_free : ∀ (v r q : Nat), scan.registers[v]? = some r → program.lastUse v = some q →
    position ≤ q → r ∉ scan.free
  /-- No value lands in the register of an earlier one that is needed behind it. -/
  apart : ∀ (v w r q : Nat), v < w → scan.registers[v]? = some r → program.lastUse v = some q →
    w < q → scan.registers[w]? ≠ some r

namespace Program

variable {program : Program}

/-- **Both ways to take a register.** The result takes the lowest register of those that are free and
those that operands release, or, if there is none, a new one. -/
theorem assignStep_cases {scan : RegisterScan} (hascending : scan.free.Pairwise (· < ·)) (op : MicroOp) :
    ∃ free : List Nat, free.Pairwise (· < ·) ∧
      (∀ r, r ∈ free ↔ r ∈ scan.free ∨ ∃ a ∈ op.operands,
        program.lastUse a = some scan.registers.length ∧ r = scan.registers.getD a 0) ∧
      ∃ target rest count,
        (free = target :: rest ∧ count = scan.count ∨
          free = [] ∧ rest = [] ∧ target = scan.count ∧ count = scan.count + 1) ∧
        program.assignStep scan op = ⟨scan.registers ++ [target],
          if program.lastUse scan.registers.length = none then insertAscending target rest else rest,
          count⟩ := by
  obtain ⟨hsorted, hmem⟩ := foldl_insertAscending hascending (fun a => scan.registers.getD a 0)
    (op.operands.filter fun a => program.lastUse a = some scan.registers.length)
  generalize hfree : (op.operands.filter fun a =>
    program.lastUse a = some scan.registers.length).foldl
      (fun free a => insertAscending (scan.registers.getD a 0) free) scan.free = free at hsorted hmem
  refine ⟨free, hsorted, fun r => (hmem r).trans (or_congr_right ?_), ?_⟩
  · simp only [List.mem_filter, decide_eq_true_eq, and_assoc]
  · cases free with
    | nil => exact ⟨_, _, _, .inr ⟨rfl, rfl, rfl, rfl⟩, by simp only [assignStep, hfree]⟩
    | cons target rest => exact ⟨_, _, _, .inl ⟨rfl, rfl⟩, by simp only [assignStep, hfree]⟩

/-- The registers that are free for the result of an operation hold no value that is needed behind it. -/
theorem keeps_released {scan : RegisterScan} (h : scan.Keeps program scan.registers.length)
    {op : MicroOp} (hoperands : ∀ a ∈ op.operands, a < scan.registers.length) {free : List Nat}
    (hmem : ∀ r, r ∈ free ↔ r ∈ scan.free ∨ ∃ a ∈ op.operands,
      program.lastUse a = some scan.registers.length ∧ r = scan.registers.getD a 0) :
    (∀ r ∈ free, r < scan.count) ∧
      ∀ (v r q : Nat), scan.registers[v]? = some r → program.lastUse v = some q →
        scan.registers.length < q → r ∉ free := by
  have hregister : ∀ a ∈ op.operands, scan.registers[a]? = some (scan.registers.getD a 0) := by
    intro a ha
    simp [List.getElem?_eq_getElem (hoperands a ha)]
  refine ⟨fun r hr => ?_, fun v r q hv huse hq hr => ?_⟩
  · rcases (hmem r).1 hr with hr | ⟨a, ha, -, rfl⟩
    · exact h.free_lt r hr
    · exact h.registers_lt _ (List.mem_of_getElem? (hregister a ha))
  · rcases (hmem r).1 hr with hr | ⟨a, ha, huse', rfl⟩
    · exact h.not_free v r q hv huse (by omega) hr
    · -- both values are needed here, so that they have different registers
      have hvlt := (List.getElem?_eq_some_iff.1 hv).1
      have halt := hoperands a ha
      rcases Nat.lt_trichotomy v a with hlt | rfl | hlt
      · exact h.apart v a _ q hlt hv huse (by omega) (hregister a ha)
      · rw [huse, Option.some.injEq] at huse'
        omega
      · exact h.apart a v _ _ hlt (hregister a ha) huse' hvlt hv

/-- What an operation does to a scan: its result takes a register, some registers stay free, and there
may be one register more. A value that is needed behind the operation loses its register to neither. -/
structure Takes (program : Program) (scan : RegisterScan) (target : Nat) (rest : List Nat)
    (count : Nat) : Prop where
  count_le : scan.count ≤ count
  target_lt : target < count
  rest_lt : ∀ r ∈ rest, r < count
  ascending : rest.Pairwise (· < ·)
  target_not_mem : target ∉ rest
  needed : ∀ (v r q : Nat), scan.registers[v]? = some r → program.lastUse v = some q →
    scan.registers.length < q → r ≠ target ∧ r ∉ rest

/-- **What one operation does to the scan.** -/
theorem exists_assignStep {scan : RegisterScan} (h : scan.Keeps program scan.registers.length)
    {op : MicroOp} (hoperands : ∀ a ∈ op.operands, a < scan.registers.length) :
    ∃ target rest count, Takes program scan target rest count ∧ program.assignStep scan op =
      ⟨scan.registers ++ [target], if program.lastUse scan.registers.length = none then
        insertAscending target rest else rest, count⟩ := by
  obtain ⟨free, hsorted, hmem, target, rest, count, hcases, hstep⟩ := assignStep_cases h.ascending op
  obtain ⟨hlt, hnot⟩ := keeps_released h hoperands hmem
  refine ⟨target, rest, count, ?_, hstep⟩
  rcases hcases with ⟨rfl, rfl⟩ | ⟨-, rfl, rfl, rfl⟩
  · obtain ⟨hfirst, hrest⟩ := List.pairwise_cons.1 hsorted
    refine ⟨le_rfl, hlt _ (by simp), fun r hr => hlt r (by simp [hr]), hrest,
      fun hmem => (hfirst _ hmem).ne rfl, fun v r q hv huse hq => ?_⟩
    have hnotmem := hnot v r q hv huse hq
    rwa [List.mem_cons, not_or] at hnotmem
  · refine ⟨by omega, by omega, by simp, .nil, by simp, fun v r q hv _ _ => ⟨?_, by simp⟩⟩
    exact (h.registers_lt r (List.mem_of_getElem? hv)).ne

/-- The register of a value after one more operation. -/
theorem getElem?_concat {registers : List Nat} {target v r : Nat}
    (hv : (registers ++ [target])[v]? = some r) :
    registers[v]? = some r ∨ v = registers.length ∧ r = target := by
  rcases Nat.lt_or_ge v registers.length with hlt | hge
  · rw [List.getElem?_append_left hlt] at hv
    exact .inl hv
  · obtain ⟨hlt, -⟩ := List.getElem?_eq_some_iff.1 hv
    obtain rfl : v = registers.length := by
      simp only [List.length_append, List.length_singleton] at hlt
      omega
    rw [List.getElem?_concat_length, Option.some.injEq] at hv
    exact .inr ⟨rfl, hv.symm⟩

/-- What is free after one more operation: a register that stayed free, or that of the result, if
nothing reads it. -/
theorem mem_free_assignStep {unused : Prop} [Decidable unused] {target r : Nat} {rest : List Nat}
    (h : r ∈ if unused then insertAscending target rest else rest) :
    r ∈ rest ∨ unused ∧ r = target := by
  split at h
  · rename_i hunused
    exact (mem_insertAscending.1 h).symm.imp_right fun heq => ⟨hunused, heq⟩
  · exact .inl h

/-- **One operation keeps what holds of the scan.** -/
theorem keeps_assignStep {scan : RegisterScan} {position : Nat} (h : scan.Keeps program position)
    {op : MicroOp} (hoperands : ∀ a ∈ op.operands, a < position) :
    (program.assignStep scan op).Keeps program (position + 1) := by
  obtain rfl := h.length
  obtain ⟨target, rest, count, htakes, hstep⟩ := exists_assignStep h hoperands
  rw [hstep]
  constructor
  case length => simp
  case registers_lt =>
    intro r hr
    rcases List.mem_append.1 hr with hr | hr
    · exact (h.registers_lt r hr).trans_le htakes.count_le
    · rw [List.mem_singleton.1 hr]
      exact htakes.target_lt
  case free_lt =>
    intro r hr
    rcases mem_free_assignStep hr with hr | ⟨-, rfl⟩
    · exact htakes.rest_lt r hr
    · exact htakes.target_lt
  case ascending =>
    dsimp only
    split
    · exact pairwise_insertAscending htakes.ascending target
    · exact htakes.ascending
  case not_free =>
    intro v r q hv huse hq hr
    rcases getElem?_concat hv with hv | ⟨rfl, rfl⟩
    · obtain ⟨hne, hnotmem⟩ := htakes.needed v r q hv huse (by omega)
      rcases mem_free_assignStep hr with hr | ⟨-, rfl⟩
      · exact hnotmem hr
      · exact hne rfl
    · rcases mem_free_assignStep hr with hr | ⟨hnone, -⟩
      · exact htakes.target_not_mem hr
      · rw [hnone] at huse
        cases huse
  case apart =>
    intro v w r q hvw hv huse hq hw
    rcases getElem?_concat hw with hw | ⟨rfl, rfl⟩
    · have hwlt := (List.getElem?_eq_some_iff.1 hw).1
      rcases getElem?_concat hv with hv | ⟨rfl, -⟩
      · exact h.apart v w r q hvw hv huse hq hw
      · omega
    · rcases getElem?_concat hv with hv | ⟨rfl, -⟩
      · exact (htakes.needed v r q hv huse hq).1 rfl
      · omega

/-- **What every operation keeps holds of the whole scan.** -/
theorem registers_induction {P : Nat → RegisterScan → Prop} (program : Program)
    (hstart : P 0 ⟨[], [], 0⟩)
    (hstep : ∀ {position : Nat} {op : MicroOp} {scan : RegisterScan},
      program.ops[position]? = some op → (∀ a ∈ op.operands, a < position) → P position scan →
        P (position + 1) (program.assignStep scan op)) :
    P program.ops.length program.registers := by
  have hprefix : ∀ position ≤ program.ops.length,
      P position ((program.ops.take position).foldl program.assignStep ⟨[], [], 0⟩) := by
    intro position
    induction position with
    | zero => exact fun _ => hstart
    | succ position ih =>
      intro hle
      have hlt : position < program.ops.length := hle
      rw [List.take_succ_eq_append_getElem hlt, List.foldl_append]
      exact hstep (List.getElem?_eq_getElem hlt) (program.wellFormed.operands_lt position hlt)
        (ih hlt.le)
  have hall := hprefix program.ops.length le_rfl
  rwa [List.take_length] at hall

/-- **The scan keeps it up to the end.** -/
theorem keeps_registers (program : Program) :
    program.registers.Keeps program program.ops.length :=
  registers_induction (P := fun position scan => scan.Keeps program position) program
    ⟨rfl, by simp, by simp, .nil, by simp, by simp⟩
    fun _ hoperands h => keeps_assignStep h hoperands

/-- An operation takes a register that was handed out before, or the next one. -/
theorem mem_assignStep {scan : RegisterScan} (h : ∀ r < scan.count, r ∈ scan.registers)
    (op : MicroOp) :
    ∀ r < (program.assignStep scan op).count, r ∈ (program.assignStep scan op).registers := by
  unfold assignStep
  dsimp only
  generalize (op.operands.filter _).foldl _ scan.free = free
  intro r hr
  rw [List.mem_append]
  cases free with
  | nil =>
    rcases Nat.lt_succ_iff_lt_or_eq.1 hr with hlt | rfl
    · exact .inl (h r hlt)
    · exact .inr (List.mem_singleton.2 rfl)
  | cons first rest => exact .inl (h r hr)

/-- **The registers that hold values** are all those that were handed out. -/
theorem mem_registers_iff (program : Program) {r : Nat} :
    r ∈ program.registers.registers ↔ r < program.registers.count := by
  refine ⟨program.keeps_registers.registers_lt r, ?_⟩
  exact registers_induction (P := fun _ scan => ∀ r < scan.count, r ∈ scan.registers) program
    (by simp) (fun {_ op _} _ _ h => mem_assignStep h op) r

/-- **A result leaves the values alone that are needed behind it.** -/
theorem registers_apart {position value r : Nat} (hlt : value < position)
    (hle : position < program.ops.length) (hneeded : program.NeededFrom (position + 1) value)
    (hr : program.registers.registers[value]? = some r) :
    program.registers.registers[position]? ≠ some r := by
  obtain ⟨q, huse, hq⟩ := hneeded.le_lastUse hle
  exact program.keeps_registers.apart value position r q hlt hr huse hq

end Program

end Pointwise
