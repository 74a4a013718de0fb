import Pointwise.Machine.Run

/-!
# Memory accesses of a run

Each instruction reads and writes few bytes, and which ones depends on the state in which it is
executed. A run passes through a sequence of instructions with the states before them, and accesses
what they access.

## Main definitions

* `Span` — a row of bytes.
* `Instruction.loads`, `Instruction.stores` — the bytes that an instruction reads and writes.
* `Machine.visited` — the instructions of a run with the states before them.

## Main results

* `Instruction.read_exec` — an instruction leaves all bytes alone that it does not write.
-/

set_option autoImplicit false

namespace Pointwise

/-- A row of bytes in memory. -/
structure Span where
  start : Address
  length : Nat
  deriving DecidableEq

/-- Whether an address belongs to a row of bytes. -/
def Span.Covers (span : Span) (a : Address) : Prop :=
  ∃ i, i < span.length ∧ a = span.start + BitVec.ofNat 64 i

namespace Memory

variable {memory : Memory} {a b : Address}

/-- Writes to other addresses do not change a byte. -/
theorem read_foldl_write (addressOf : Nat → Address) (byteOf : Nat → BitVec 8) (steps : List Nat)
    (h : ∀ i ∈ steps, addressOf i ≠ b) :
    (steps.foldl (fun memory i => memory.write (addressOf i) (byteOf i)) memory).read b =
      memory.read b := by
  induction steps generalizing memory with
  | nil => rfl
  | cons i steps ih =>
    rw [List.foldl_cons, ih fun j hj => h j (by simp [hj]), read_write, if_neg (h i (by simp))]

/-- A word changes no byte but its own. -/
theorem read_writeWord {value : BitVec 64} (h : ¬ Span.Covers ⟨a, 8⟩ b) :
    (memory.writeWord a value).read b = memory.read b :=
  read_foldl_write _ _ _ fun i hi e => h ⟨i, List.mem_range.1 hi, e.symm⟩

/-- A number changes no byte but its own. -/
theorem read_writeNumber {value : Binary32} (h : ¬ Span.Covers ⟨a, 4⟩ b) :
    (memory.writeNumber a value).read b = memory.read b :=
  read_foldl_write _ _ _ fun i hi e => h ⟨i, List.mem_range.1 hi, e.symm⟩

/-- A row of numbers changes no byte but its own. -/
theorem read_writeNumbers {values : List Binary32} (h : ¬ Span.Covers ⟨a, 4 * values.length⟩ b) :
    (memory.writeNumbers a values).read b = memory.read b := by
  induction values generalizing memory a with
  | nil => rfl
  | cons value values ih =>
    rw [writeNumbers, ih, read_writeNumber]
    · rintro ⟨i, hi, e⟩
      exact h ⟨i, by simp only [List.length_cons] at hi ⊢; omega, e⟩
    · rintro ⟨i, hi, e⟩
      refine h ⟨i + 4, by simp only [List.length_cons] at hi ⊢; omega, ?_⟩
      rw [e, Nat.add_comm i 4, BitVec.ofNat_add, ← BitVec.add_assoc]
      rfl

end Memory

namespace Instruction

/-- The bytes that an instruction reads in a state. -/
def loads (i : Instruction) (s : MachineState) : List Span :=
  match i with
  | .loadWord _ m | .mulLoad _ m | .addLoad _ m => [⟨s.address m, 8⟩]
  | .pop _ => [⟨s.words.get .rsp, 8⟩]
  | .loadVector w _ base => [⟨s.words.get base, 4 * w.lanes⟩]
  | .loadLane _ base | .splatLoad _ _ base => [⟨s.words.get base, 4⟩]
  | _ => []

/-- The bytes that an instruction writes in a state. -/
def stores (i : Instruction) (s : MachineState) : List Span :=
  match i with
  | .push _ => [⟨s.words.get .rsp - 8, 8⟩]
  | .storeVector w base _ => [⟨s.words.get base, 4 * w.lanes⟩]
  | .storeLane base _ => [⟨s.words.get base, 4⟩]
  | _ => []

/-- **An instruction keeps to its stores.** It leaves all other bytes alone. -/
theorem read_exec (i : Instruction) (s : MachineState) {a : Address}
    (h : ∀ span ∈ i.stores s, ¬ span.Covers a) :
    (i.exec s).memory.read a = s.memory.read a := by
  cases i with
  | push r => exact Memory.read_writeWord (h _ (by simp [stores]))
  | storeLane base r => exact Memory.read_writeNumber (h _ (by simp [stores]))
  | storeVector w base r =>
    refine Memory.read_writeNumbers (fun hcovers => h ⟨s.words.get base, 4 * w.lanes⟩
      (by simp [stores]) ?_)
    have hlength : ((s.vectors.get r).values.toList.take w.lanes).length = w.lanes := by
      simp [Nat.min_eq_left w.lanes_le]
    rwa [hlength] at hcovers
  | _ => rfl

end Instruction

namespace Machine

/-- The instructions of a run with the states before them, up to a bound on the number of steps. -/
def visited (code : Code) :
    (bound position : Nat) → MachineState → List (Instruction × MachineState)
  | 0, _, _ => []
  | bound + 1, position, s =>
    match code[position]? with
    | none => []
    | some i =>
      (i, s) :: match step code position s with
        | .goOn next t => visited code bound next t
        | .done _ | .stuck => []

/-- A branch does nothing to the state. -/
theorem eq_of_branch {position next : Nat} {distance : Int} {s t : MachineState}
    (h : branch position distance s = .goOn next t) : t = s := by
  simp only [branch] at h
  split at h
  · simp only [Next.goOn.injEq] at h
    exact h.2.symm
  · simp at h

/-- A step leaves all bytes alone that its instruction does not write. -/
theorem read_step {code : Code} {position next : Nat} {s t : MachineState} {i : Instruction}
    (hi : code[position]? = some i) (hstep : step code position s = .goOn next t) {a : Address}
    (h : ∀ span ∈ i.stores s, ¬ span.Covers a) : t.memory.read a = s.memory.read a := by
  simp only [step, hi] at hstep
  split at hstep
  · simp at hstep
  · simp at hstep
  · rw [eq_of_branch hstep]
  · split at hstep
    · simp at hstep
    · split at hstep
      · rw [eq_of_branch hstep]
      · simp only [Next.goOn.injEq] at hstep
        rw [hstep.2]
  · rename_i j _ _ _ hj
    simp only [Option.some.injEq] at hj
    simp only [Next.goOn.injEq] at hstep
    rw [← hstep.2, ← hj]
    exact i.read_exec s h

/-- The last step of a run does nothing to the state. -/
theorem eq_of_step_done {code : Code} {position : Nat} {s t : MachineState}
    (h : step code position s = .done t) : t = s := by
  have hbranch : ∀ distance, branch position distance s ≠ .done t := by
    intro distance
    simp only [branch]
    split <;> simp
  unfold step at h
  split at h
  · simp at h
  · simpa using h.symm
  · exact absurd h (hbranch _)
  · split at h
    · simp at h
    · split at h
      · exact absurd h (hbranch _)
      · simp at h
  · simp at h

end Machine

end Pointwise
