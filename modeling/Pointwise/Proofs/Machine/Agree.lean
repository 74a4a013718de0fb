import Pointwise.Proofs.Machine.Span

/-!
# States that agree on what is known

What an instruction does depends on the registers and on the bytes that it reads only. Two states with
the same registers whose memories agree on some bytes go on to do so, as long as nothing else is read.

## Main definitions

* `MachineState.Agrees` — states that differ at most in bytes that are not known.

## Main results

* `Instruction.agrees_exec` — an instruction that reads known bytes only keeps the agreement.
* `MachineState.Agrees.goOn`, `MachineState.Agrees.done` — so does a step.
-/

set_option autoImplicit false

namespace Pointwise

/-! ## Writing to memories that agree -/

namespace Memory

variable {memory memory' : Memory} {a b : Address}

/-- The same bytes written. -/
theorem read_foldl_write_congr (addressOf : Nat → Address) (byteOf : Nat → BitVec 8) (steps : List Nat)
    (h : memory.read b = memory'.read b) :
    (steps.foldl (fun memory i => memory.write (addressOf i) (byteOf i)) memory).read b =
      (steps.foldl (fun memory i => memory.write (addressOf i) (byteOf i)) memory').read b := by
  induction steps generalizing memory memory' with
  | nil => exact h
  | cons i steps ih =>
    refine ih ?_
    rw [read_write, read_write, h]

/-- The same word written. -/
theorem read_writeWord_congr (value : BitVec 64) (h : memory.read b = memory'.read b) :
    (memory.writeWord a value).read b = (memory'.writeWord a value).read b :=
  read_foldl_write_congr _ _ _ h

/-- The same number written. -/
theorem read_writeNumber_congr (value : Binary32) (h : memory.read b = memory'.read b) :
    (memory.writeNumber a value).read b = (memory'.writeNumber a value).read b :=
  read_foldl_write_congr _ _ _ h

/-- The same row of numbers written. -/
theorem read_writeNumbers_congr (values : List Binary32) (h : memory.read b = memory'.read b) :
    (memory.writeNumbers a values).read b = (memory'.writeNumbers a values).read b := by
  induction values generalizing memory memory' a with
  | nil => exact h
  | cons value values ih =>
    rw [writeNumbers, writeNumbers]
    exact ih (read_writeNumber_congr value h)

/-- The same row of words written. -/
theorem read_writeWords_congr (values : List (BitVec 64)) (h : memory.read b = memory'.read b) :
    (memory.writeWords a values).read b = (memory'.writeWords a values).read b := by
  induction values generalizing memory memory' a with
  | nil => exact h
  | cons value values ih =>
    rw [writeWords_cons, writeWords_cons]
    exact ih (read_writeWord_congr value h)

end Memory

/-- Registers whose lanes below a number are the same, and zero from there on. -/
theorem Lanes.upTo_congr {count : Nat} {f g : Nat → Binary32} (h : ∀ k < count, f k = g k) :
    Lanes.upTo count (fun i => f i) = Lanes.upTo count fun i => g i := by
  refine ext_get fun i => ?_
  rw [get_upTo, get_upTo]
  split
  · exact h i (by assumption)
  · rfl

/-! ## Agreement -/

/-- States that differ at most in bytes that are not known. -/
structure MachineState.Agrees (known : Address → Prop) (s t : MachineState) : Prop where
  words : s.words = t.words
  vectors : s.vectors = t.vectors
  outcome : s.outcome = t.outcome
  read : ∀ a, known a → s.memory.read a = t.memory.read a

namespace MachineState.Agrees

variable {known : Address → Prop} {s t : MachineState}

/-- The same word assigned. -/
theorem setWord (h : s.Agrees known t) (r : Register) {value value' : BitVec 64}
    (hvalue : value = value') :
    (s.setWord r value).Agrees known (t.setWord r value') :=
  ⟨by rw [MachineState.setWord, MachineState.setWord, h.words, hvalue], h.vectors, h.outcome, h.read⟩

/-- The same word assigned by arithmetic. -/
theorem setSum (h : s.Agrees known t) (r : Register) {value value' : BitVec 64}
    (hvalue : value = value') :
    (s.setSum r value).Agrees known (t.setSum r value') :=
  ⟨by rw [MachineState.setSum, MachineState.setSum, h.words, hvalue], h.vectors, rfl, h.read⟩

/-- The same vector assigned. -/
theorem setVector (h : s.Agrees known t) (r : Register) {lanes lanes' : Lanes}
    (hlanes : lanes = lanes') :
    (s.setVector r lanes).Agrees known (t.setVector r lanes') :=
  ⟨h.words, by rw [MachineState.setVector, MachineState.setVector, h.vectors, hlanes], h.outcome, h.read⟩

end MachineState.Agrees

namespace Instruction

variable {known : Address → Prop} {s t : MachineState}

/-- Which bytes an instruction reads and writes depends on the registers only. -/
theorem accesses_congr (h : s.words = t.words) (i : Instruction) :
    i.loads s = i.loads t ∧ i.stores s = i.stores t := by
  cases i <;> simp [loads, stores, MachineState.address, h]

/-- A word that is read is known. -/
theorem readWord_congr (h : s.Agrees known t) {i : Instruction} {a : Address} (hmem : ⟨a, 8⟩ ∈ i.loads s)
    (hloads : ∀ span ∈ i.loads s, ∀ b, span.Covers b → known b) :
    s.memory.readWord a = t.memory.readWord a :=
  Memory.readWord_congr fun b hb => h.read b (hloads _ hmem b hb)

/-- The numbers in a row that is read are known. -/
theorem element_congr (h : s.Agrees known t) {i : Instruction} {base : Register} {lanes k : Nat}
    (hk : k < lanes) (hmem : ⟨s.words.get base, 4 * lanes⟩ ∈ i.loads s)
    (hloads : ∀ span ∈ i.loads s, ∀ b, span.Covers b → known b) : s.element base k = t.element base k := by
  rw [MachineState.element, MachineState.element, ← h.words]
  refine Memory.readNumber_congr fun b hb => h.read b (hloads _ hmem b ?_)
  exact Span.within_of_le (by omega) b hb

/-- **An instruction that reads known bytes only keeps the agreement.** -/
theorem agrees_exec (h : s.Agrees known t) (i : Instruction)
    (hloads : ∀ span ∈ i.loads s, ∀ a, span.Covers a → known a) :
    (i.exec s).Agrees known (i.exec t) := by
  have hword : ∀ a, ⟨a, 8⟩ ∈ i.loads s → s.memory.readWord a = t.memory.readWord a :=
    fun a hmem => readWord_congr h hmem hloads
  have helement : ∀ base lanes, ⟨s.words.get base, 4 * lanes⟩ ∈ i.loads s → ∀ k < lanes,
      s.element base k = t.element base k := fun base lanes hmem k hk =>
    element_congr h hk hmem hloads
  have hread := h.read
  obtain ⟨memory, rfl⟩ : ∃ memory, t = { s with memory } := ⟨t.memory, by
    obtain ⟨hwords, hvectors, houtcome, -⟩ := h
    rw [hwords, hvectors, houtcome]⟩
  cases i with
  | push r =>
    exact ⟨rfl, rfl, rfl, fun a ha => Memory.read_writeWord_congr _ (hread a ha)⟩
  | storeVector w base r =>
    exact ⟨rfl, rfl, rfl, fun a ha => Memory.read_writeNumbers_congr _ (hread a ha)⟩
  | storeLane base r =>
    exact ⟨rfl, rfl, rfl, fun a ha => Memory.read_writeNumber_congr _ (hread a ha)⟩
  | loadWord d m => exact h.setWord d (hword (s.address m) (by simp [loads]))
  | mulLoad d m =>
    exact h.setSum d (congrArg (s.words.get d * ·) (hword (s.address m) (by simp [loads])))
  | addLoad d m =>
    exact h.setSum d (congrArg (s.words.get d + ·) (hword (s.address m) (by simp [loads])))
  | pop r => exact (h.setWord .rsp rfl).setWord r (hword (s.words.get .rsp) (by simp [loads]))
  | loadVector w d base =>
    have hlanes := Lanes.upTo_congr (helement base w.lanes (by simp [loads]))
    exact h.setVector d hlanes
  | loadLane d base =>
    have hlanes := Lanes.upTo_congr (helement base 1 (by simp [loads]))
    exact h.setVector d hlanes
  | splatLoad w d base =>
    have hfirst := helement base 1 (by simp [loads]) 0 Nat.one_pos
    exact h.setVector d (congrArg (fun value => Lanes.upTo w.lanes fun _ => value) hfirst)
  | _ => exact ⟨rfl, rfl, rfl, hread⟩

end Instruction

namespace MachineState.Agrees

variable {known : Address → Prop} {s s' t : MachineState} {code : Code} {position next : Nat}

/-- A branch goes the same way. -/
theorem branch (h : s.Agrees known t) {distance : Int}
    (hstep : Machine.branch position distance s = .goOn next s') :
    ∃ t', Machine.branch position distance t = .goOn next t' ∧ s'.Agrees known t' := by
  rw [Machine.branch] at hstep ⊢
  split at hstep
  · rename_i hpos
    cases hstep
    exact ⟨t, by rw [if_pos hpos], h⟩
  · cases hstep

/-- **A step keeps the agreement** if it reads known bytes only. -/
theorem goOn (h : s.Agrees known t)
    (hloads : ∀ i, code[position]? = some i → ∀ span ∈ i.loads s, ∀ a, span.Covers a → known a)
    (hstep : Machine.step code position s = .goOn next s') :
    ∃ t', Machine.step code position t = .goOn next t' ∧ s'.Agrees known t' := by
  rw [Machine.step] at hstep ⊢
  cases hi : code[position]? with
  | none =>
    rw [hi] at hstep
    cases hstep
  | some i =>
    rw [hi] at hstep
    have hexec := Instruction.agrees_exec h i (hloads i hi)
    cases i with
    | ret => cases hstep
    | jump distance => exact h.branch hstep
    | jumpIf condition distance =>
      dsimp only at hstep ⊢
      rw [← h.outcome]
      split at hstep
      · cases hstep
      · split at hstep
        · rename_i hholds
          rw [if_pos hholds]
          exact h.branch hstep
        · rename_i hholds
          rw [if_neg hholds]
          cases hstep
          exact ⟨t, rfl, h⟩
    | _ =>
      cases hstep
      exact ⟨_, rfl, hexec⟩

/-- **So does the last one.** -/
theorem done (h : s.Agrees known t) (hstep : Machine.step code position s = .done s') :
    ∃ t', Machine.step code position t = .done t' ∧ s'.Agrees known t' := by
  have hbranch : ∀ distance, Machine.branch position distance s ≠ .done s' := by
    intro distance
    rw [Machine.branch]
    split <;> simp
  rw [Machine.step] at hstep ⊢
  cases hi : code[position]? with
  | none =>
    rw [hi] at hstep
    cases hstep
  | some i =>
    rw [hi] at hstep
    cases i with
    | ret =>
      cases hstep
      exact ⟨t, rfl, h⟩
    | jump distance => exact absurd hstep (hbranch distance)
    | jumpIf condition distance =>
      dsimp only at hstep
      split at hstep
      · cases hstep
      · split at hstep
        · exact absurd hstep (hbranch distance)
        · cases hstep
    | _ => cases hstep

end MachineState.Agrees

end Pointwise
