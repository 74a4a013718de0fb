import Pointwise.Proofs.Machine.Path

/-!
# Registers that code names and writes

An instruction writes at most one general register, apart from the stack pointer. A register that no
instruction of code writes has the same value in all states of a run.

## Main definitions

* `Instruction.operands` — the general registers that an instruction names.
* `Instruction.writes` — the general registers that an instruction writes.

## Main results

* `Instruction.get_exec` — an instruction leaves the registers alone that it does not write.
* `Machine.get_visited` — so does a run.
-/

set_option autoImplicit false

namespace Pointwise

/-! ## Registers that are named -/

/-- The general registers that an instruction names. Pushes, pops and `ret` name the stack pointer. -/
def Instruction.operands : Instruction → List Register
  | .loadWord d m | .mulLoad d m | .addLoad d m => [d, m.base]
  | .setWord d _ | .setHalf d _ | .addImmediate d _ | .subImmediate d _ | .compare d _ => [d]
  | .addWord d r => [d, r]
  | .push r | .pop r => [.rsp, r]
  | .ret => [.rsp]
  | .loadVector _ _ base | .storeVector _ base _ | .loadLane _ base | .storeLane base _
  | .splatLoad _ _ base => [base]
  | .laneFromWord _ r => [r]
  | .zeroUpper | .jump _ | .jumpIf _ _ | .splat _ _ _ | .moveVector _ _ _ | .binary _ _ _ _ _
  | .sqrt _ _ _ | .bitwise _ _ _ _ _ | .mulAddTarget _ _ _ _ | .mulAddOnto _ _ _ _ => []

/-! ## Registers that are written -/

/-- The general registers that an instruction writes. -/
def Instruction.writes : Instruction → List Register
  | .loadWord d _ | .setWord d _ | .setHalf d _ | .mulLoad d _ | .addWord d _ | .addLoad d _
  | .addImmediate d _ | .subImmediate d _ => [d]
  | .push _ => [.rsp]
  | .pop d => [.rsp, d]
  | _ => []

/-- An instruction names the registers that it writes. -/
theorem Instruction.writes_subset_operands (i : Instruction) : i.writes ⊆ i.operands := by
  cases i <;> simp [writes, operands]

/-- **An instruction keeps to the registers that it writes.** -/
theorem Instruction.get_exec {i : Instruction} {r : Register} (h : r ∉ i.writes) (s : MachineState) :
    (i.exec s).words.get r = s.words.get r := by
  cases i with
  | loadWord d | setWord d | setHalf d | mulLoad d | addWord d | addLoad d | addImmediate d
  | subImmediate d =>
    exact RegisterFile.get_set_of_ne fun hd => h (by simp [writes, hd])
  | push => exact RegisterFile.get_set_of_ne fun hd => h (by simp [writes, hd])
  | pop d =>
    simp only [writes, List.mem_cons, List.not_mem_nil, or_false, not_or] at h
    exact (RegisterFile.get_set_of_ne (Ne.symm h.2)).trans (RegisterFile.get_set_of_ne (Ne.symm h.1))
  | _ => rfl

namespace Machine

/-- So does a step. -/
theorem get_step {code : Code} {position next : Nat} {s t : MachineState} {i : Instruction}
    (hi : code[position]? = some i) (hstep : step code position s = .goOn next t) {r : Register}
    (h : r ∉ i.writes) : t.words.get r = s.words.get r := by
  simp only [step, hi] at hstep
  split at hstep
  · cases hstep
  · cases hstep
  · rw [eq_of_branch hstep]
  · split at hstep
    · cases hstep
    · split at hstep
      · rw [eq_of_branch hstep]
      · simp only [Next.goOn.injEq] at hstep
        rw [hstep.2]
  · rename_i j _ _ _ hj
    obtain rfl := Option.some.inj hj
    simp only [Next.goOn.injEq] at hstep
    rw [← hstep.2]
    exact Instruction.get_exec h s

/-- **A register that is not written keeps its value** in all states of a run. -/
theorem get_visited {code : Code} {r : Register} (h : ∀ i ∈ code, r ∉ i.writes) {bound position : Nat}
    {s : MachineState} {v : Instruction × MachineState} (hv : v ∈ visited code bound position s) :
    v.2.words.get r = s.words.get r := by
  induction bound generalizing position s with
  | zero => cases hv
  | succ bound ih =>
    rw [visited] at hv
    cases hi : code[position]? with
    | none => simp [hi] at hv
    | some i =>
      simp only [hi, List.mem_cons] at hv
      rcases hv with rfl | hv
      · rfl
      · cases hstep : step code position s with
        | done t => simp [hstep] at hv
        | stuck => simp [hstep] at hv
        | goOn next t =>
          rw [hstep] at hv
          exact (ih hv).trans (get_step hi hstep (h i (List.mem_of_getElem? hi)))

/-- Nor does code without branches change it. -/
theorem get_execAll {piece : Code} {r : Register} (h : ∀ i ∈ piece, r ∉ i.writes) (s : MachineState) :
    (execAll piece s).words.get r = s.words.get r := by
  induction piece generalizing s with
  | nil => rfl
  | cons i piece ih =>
    exact (ih (fun j hj => h j (List.mem_cons_of_mem _ hj)) _).trans
      (Instruction.get_exec (h i List.mem_cons_self) s)

end Machine

end Pointwise
