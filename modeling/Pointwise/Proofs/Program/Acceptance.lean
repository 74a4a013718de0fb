import Pointwise.Program.Value
import Pointwise.Proofs.Strict.Code

/-!
# Acceptance of programs

Operations and outputs are accepted as a program after a sequence of checks, each of which scans them for one
kind of mistake. Here the sequence is compared with what is asked of them as a whole: they are accepted exactly
if they are well formed, and the number of parameters is what they are refused for only if nothing else is
wrong with them.

Later computations look up values, registers and flags by position. A position behind the end of a list is a
fault there, so that a computation that succeeds makes no such look-up. Programs that are accepted never come
to one: an operand has its value, or its register, by the time it is read.

## Main definitions

* `Program.Formed` — what is asked of operations and outputs, apart from the number of parameters.
* `Strict.body` — the body of a tile, with all registers looked up by position.
* `Program.Served` — what later computations on a program come to.

## Main results

* `Program.ofOps_cases` — the three ways in which the checks end.
* `Program.served` — no later computation on a program looks up a position that is not there.
* `Program.ofOps_accepts_wellFormed` — what is accepted, what it is refused for otherwise, and what acceptance
  means for later computations.
-/

set_option autoImplicit false

namespace Pointwise

/-! ## Well-formed programs -/

/-- What a list of operations and a list of outputs have to satisfy, apart from the number of parameters, to
form a program that reads the inputs below `inputs`. -/
structure Program.Formed (ops : List MicroOp) (outputs : List Nat) (inputs : Nat) : Prop where
  ops_ne_nil : ops ≠ []
  outputs_ne_nil : outputs ≠ []
  operands_lt : ∀ (i : Nat) (h : i < ops.length), ∀ a ∈ ops[i].operands, a < i
  outputs_lt : ∀ v ∈ outputs, v < ops.length
  input_mem_iff : ∀ p, MicroOp.input p ∈ ops ↔ p < inputs

namespace Program

variable {ops : List MicroOp} {outputs : List Nat} {inputs : Nat}

/-- The two parts of well-formedness. -/
theorem wellFormed_iff :
    WellFormed ops outputs inputs ↔
      Formed ops outputs inputs ∧ inputs + outputs.length ≤ maxParams :=
  ⟨fun h => ⟨⟨h.ops_ne_nil, h.outputs_ne_nil, h.operands_lt, h.outputs_lt, h.input_mem_iff⟩, h.params_le⟩,
    fun ⟨h, hparams⟩ =>
      ⟨h.ops_ne_nil, h.outputs_ne_nil, h.operands_lt, h.outputs_lt, h.input_mem_iff, hparams⟩⟩

/-- The number of inputs does not exceed a bound of all inputs that are read. -/
theorem inputCount_le (h : ∀ p, MicroOp.input p ∈ ops → p < inputs) : inputCount ops ≤ inputs := by
  have hparams : ∀ p ∈ ops.filterMap MicroOp.inputParam?, p < inputs := by
    intro p hp
    obtain ⟨op, hop, hparam⟩ := List.mem_filterMap.1 hp
    cases op with
    | input q =>
      cases hparam
      exact h p hop
    | _ => cases hparam
  rw [inputCount]
  -- the maximum so far never exceeds the bound
  generalize ops.filterMap MicroOp.inputParam? = params at hparams
  have hfold : ∀ count ≤ inputs, params.foldl (fun count p => max count (p + 1)) count ≤ inputs := by
    induction params with
    | nil => exact fun _ hle => hle
    | cons p params ih =>
      rw [List.forall_mem_cons] at hparams
      intro count hle
      exact ih hparams.2 _ (max_le hle hparams.1)
  exact hfold 0 (Nat.zero_le inputs)

/-- The number of inputs of a program that is formed is the one that is counted. -/
theorem Formed.inputs_eq (h : Formed ops outputs inputs) : inputs = inputCount ops := by
  refine Nat.le_antisymm (Nat.le_of_not_lt fun hlt => ?_)
    (inputCount_le fun p hp => (h.input_mem_iff p).1 hp)
  exact absurd (lt_inputCount ((h.input_mem_iff _).2 hlt)) (Nat.lt_irrefl _)

/-! ## Acceptance -/

/-- Operations and outputs are formed exactly if no check finds a mistake. -/
theorem formed_iff :
    Formed ops outputs (inputCount ops) ↔
      ops ≠ [] ∧ outputs ≠ [] ∧ findForward 0 ops = none ∧ outputs.find? (ops.length ≤ ·) = none ∧
        firstUnread ops (inputCount ops) 0 = none := by
  have hforward : findForward 0 ops = none ↔
      ∀ (i : Nat) (h : i < ops.length), ∀ a ∈ ops[i].operands, a < i := by
    simpa using @findForward_eq_none ops 0
  have hunknown : outputs.find? (ops.length ≤ ·) = none ↔ ∀ v ∈ outputs, v < ops.length := by simp
  have hunread : firstUnread ops (inputCount ops) 0 = none ↔
      ∀ p, MicroOp.input p ∈ ops ↔ p < inputCount ops := by
    rw [firstUnread_eq_none, Nat.zero_add]
    exact ⟨fun h p => ⟨lt_inputCount, h p (Nat.zero_le p)⟩, fun h p _ hp => (h p).2 hp⟩
  rw [hforward, hunknown, hunread]
  exact ⟨fun h => ⟨h.ops_ne_nil, h.outputs_ne_nil, h.operands_lt, h.outputs_lt, h.input_mem_iff⟩,
    fun ⟨hops, houtputs, hoperands, hvalues, hinputs⟩ => ⟨hops, houtputs, hoperands, hvalues, hinputs⟩⟩

/-- **The three ways in which the checks end.** A mistake is reported as such, too many parameters are
reported only if there is none, and everything else is a program. -/
theorem ofOps_cases (ops : List MicroOp) (outputs : List Nat) :
    (¬ Formed ops outputs (inputCount ops) ∧ ∃ cause, ofOps ops outputs = .error (.invalid cause)) ∨
      (Formed ops outputs (inputCount ops) ∧ maxParams < inputCount ops + outputs.length ∧
        ofOps ops outputs = .error (.capacity (.params (inputCount ops) outputs.length))) ∨
      (Formed ops outputs (inputCount ops) ∧ inputCount ops + outputs.length ≤ maxParams ∧
        ∃ program, ofOps ops outputs = .ok program ∧ program.ops = ops ∧ program.outputs = outputs) := by
  rw [formed_iff]
  unfold ofOps
  -- one case for each check that finds a mistake, and two for the number of parameters
  split
  · exact .inl ⟨fun h => h.1 ‹_›, _, rfl⟩
  split
  · exact .inl ⟨fun h => h.2.1 ‹_›, _, rfl⟩
  split
  · exact .inl ⟨by simp_all, _, rfl⟩
  split
  · exact .inl ⟨by simp_all, _, rfl⟩
  split
  · exact .inl ⟨by simp_all, _, rfl⟩
  split
  · exact .inr (.inr ⟨⟨‹_›, ‹_›, ‹_›, ‹_›, ‹_›⟩, ‹_›, _, rfl, rfl, rfl⟩)
  · exact .inr (.inl ⟨⟨‹_›, ‹_›, ‹_›, ‹_›, ‹_›⟩, Nat.lt_of_not_le ‹_›, rfl⟩)

end Program

/-! ## Bodies with every register looked up -/

namespace Strict

/-- The strict form of `Program.body`. The register of a result is looked up, too, and the outputs are
numbered behind the inputs. -/
def body (program : Program) (w : VectorWidth) (kind : BodyKind) (broadcast : List Bool)
    (registers : List Nat) : Except Error Region := do
  let computed ← program.ops.zipIdx.mapM fun (op, position) => do
    Program.entryOf w kind broadcast registers op (← Checked.get registers position)
  let stored ← program.outputs.zipIdx.mapM fun (value, k) => do
    Program.storeEntry w kind registers value (← Checked.add program.inputs k)
  return computed ++ stored

variable {program : Program} {w : VectorWidth} {kind : BodyKind} {flags : List Bool} {registers : List Nat}

/-- Operations with their registers are operations whose registers are looked up by position. -/
theorem mapM_zip_eq {α : Type} (f : MicroOp → Nat → Except Error α) {ops : List MicroOp}
    (hlength : registers.length = ops.length) :
    (ops.zip registers).mapM (fun (op, target) => f op target) =
      ops.zipIdx.mapM fun (op, position) => Checked.get registers position >>= f op := by
  have hzip : ops.zip registers = ops.zipIdx.map fun (op, position) => (op, registers.getD position 0) := by
    refine List.ext_getElem (by simp [hlength]) fun i hi _ => ?_
    have hlt : i < registers.length := by
      simp only [List.length_zip] at hi
      omega
    simp [hlt]
  rw [hzip, List.mapM_map]
  refine Checked.mapM_congr fun (op, position) hmem => ?_
  have hlt : position < registers.length := hlength ▸ List.snd_lt_of_mem_zipIdx hmem
  have hget : Checked.get registers position = .ok (registers.getD position 0) :=
    Checked.get_eq_ok.2 (by simp [hlt])
  simp only [hget, Checked.ok_bind]
  rfl

/-- **The body of a tile** comes to the same with every register looked up. -/
theorem body_eq (hlength : registers.length = program.ops.length) :
    body program w kind flags registers = program.body w kind flags registers := by
  have hparams := program.wellFormed.params_le
  have hstored : (program.outputs.zipIdx.mapM fun (value, k) => do
        Program.storeEntry w kind registers value (← Checked.add program.inputs k)) =
      program.outputs.zipIdx.mapM fun (value, k) =>
        Program.storeEntry w kind registers value (program.inputs + k) := by
    refine Checked.mapM_congr fun (value, k) hmem => ?_
    have hk := List.snd_lt_of_mem_zipIdx hmem
    have hadd : Checked.add program.inputs k = .ok (program.inputs + k) :=
      Checked.add_eq_ok.2 ⟨rfl, by rw [maxParams] at hparams; omega⟩
    simp only [hadd, Checked.ok_bind]
  rw [body, Program.body, hstored, mapM_zip_eq _ hlength]

end Strict

namespace Program

variable {program : Program} {w : VectorWidth} {kind : BodyKind} {flags : List Bool} {registers : List Nat}

/-- The entry of an operation is made if its operands have registers and its input has a flag. -/
theorem exists_entryOf {op : MicroOp} (hoperands : ∀ a ∈ op.operands, a < registers.length)
    (hinput : ∀ p, op = .input p → p < flags.length) (target : Nat) :
    ∃ entry, entryOf w kind flags registers op target = .ok entry := by
  obtain ⟨sources, hsources⟩ : ∃ sources, op.operands.mapM (Checked.get registers) = .ok sources :=
    Checked.exists_mapM fun a ha =>
      ⟨_, Checked.get_eq_ok.2 (List.getElem?_eq_getElem (hoperands a ha))⟩
  cases op with
  | input p =>
    have hflag := Checked.get_eq_ok.2 (List.getElem?_eq_getElem (hinput p rfl))
    exact ⟨_, by simp only [entryOf, hflag, Checked.ok_bind]; rfl⟩
  | _ => exact ⟨_, by simp only [entryOf, hsources, pure_bind, Checked.ok_bind]; rfl⟩

/-- **The body of a tile** is made if every value has a register and every input has a flag. -/
theorem exists_body_of_length (hlength : registers.length = program.ops.length)
    (hflags : flags.length = program.inputs) :
    ∃ region, program.body w kind flags registers = .ok region := by
  have hwell := program.wellFormed
  obtain ⟨computed, hcomputed⟩ : ∃ computed, (program.ops.zip registers).mapM (fun (op, target) =>
      entryOf w kind flags registers op target) = .ok computed := by
    refine Checked.exists_mapM fun (op, target) hmem => ?_
    obtain ⟨hop, -⟩ := List.of_mem_zip hmem
    refine exists_entryOf (fun a ha => ?_) (fun p hp => ?_) target
    · obtain ⟨i, hi, rfl⟩ := List.getElem_of_mem hop
      exact hlength ▸ (hwell.operands_lt i hi a ha).trans hi
    · exact hflags ▸ (hwell.input_mem_iff p).1 (hp ▸ hop)
  obtain ⟨stored, hstored⟩ : ∃ stored, (program.outputs.zipIdx.mapM fun (value, k) =>
      storeEntry w kind registers value (program.inputs + k)) = .ok stored := by
    refine Checked.exists_mapM fun (value, k) hmem => ?_
    have hlt : value < registers.length := hlength ▸ hwell.outputs_lt value (List.fst_mem_of_mem_zipIdx hmem)
    have hget := Checked.get_eq_ok.2 (List.getElem?_eq_getElem hlt)
    exact ⟨_, by simp only [storeEntry, hget, Checked.ok_bind]; rfl⟩
  exact ⟨computed ++ stored, by rw [body, hcomputed, Checked.ok_bind, hstored]; rfl⟩

/-! ## What acceptance means -/

/-- What later computations on a program come to. None of them looks up a position that is not there. -/
structure Served (program : Program) : Prop where
  /-- Evaluation yields, for every output, the value that recursion on its operands gives it. -/
  eval : ∀ (arith : Arithmetic) (row : List Binary32), program.inputs ≤ row.length →
    program.eval arith row =
      .ok (program.outputs.map fun v => program.valueAt (.ofRow arith row) v 0)
  /-- All values get their registers, unless there are too many to count. -/
  registers : Strict.registers program = .ok program.registers ∨
    0x10000000000000000 ≤ program.ops.length ∧ Strict.registers program = .error (.fault .overflow)
  /-- Both bodies are made from these registers, whatever inputs are broadcast. -/
  body : ∀ (w : VectorWidth) (kind : BodyKind) (flags : List Bool), flags.length = program.inputs →
    ∃ region, Strict.body program w kind flags program.registers.registers = .ok region ∧
      program.body w kind flags program.registers.registers = .ok region

/-- **No later computation on a program looks up a position that is not there.** -/
theorem served (program : Program) : program.Served where
  eval _ _ hrow := eval_eq_valueAt program hrow
  registers := Strict.registers_eq_or program
  body w kind flags hflags := by
    have hlength := program.keeps_registers.length
    obtain ⟨region, hregion⟩ := @exists_body_of_length program w kind flags _ hlength hflags
    exact ⟨region, by rw [Strict.body_eq hlength, hregion], hregion⟩

/-- **Exactly the well-formed programs are accepted**, and all later computations can rely on that. The number
of parameters is the cause of a refusal exactly if nothing else is wrong, and any other one is a mistake.

**Proof sketch.** The checks end in one of three ways (`ofOps_cases`). Each of them comes with a condition on
operations and outputs, and these conditions exclude each other. The number of inputs that they speak of is
the one that the checks count (`Formed.inputs_eq`). -/
theorem ofOps_accepts_wellFormed (ops : List MicroOp) (outputs : List Nat) :
    ((∃ program, ofOps ops outputs = .ok program) ↔ ∃ inputs, WellFormed ops outputs inputs) ∧
      ((∃ cause, ofOps ops outputs = .error (.capacity cause)) ↔
        ∃ inputs, Formed ops outputs inputs ∧ maxParams < inputs + outputs.length) ∧
      ((∃ cause, ofOps ops outputs = .error (.invalid cause)) ↔ ¬ ∃ inputs, Formed ops outputs inputs) ∧
      ∀ program, ofOps ops outputs = .ok program →
        program.ops = ops ∧ program.outputs = outputs ∧ program.Served := by
  have hexists {P : Nat → Prop} :
      (∃ inputs, Formed ops outputs inputs ∧ P inputs) ↔
        Formed ops outputs (inputCount ops) ∧ P (inputCount ops) :=
    ⟨fun ⟨_, h, hP⟩ => h.inputs_eq ▸ ⟨h, hP⟩, fun h => ⟨_, h⟩⟩
  have hformed : (∃ inputs, Formed ops outputs inputs) ↔ Formed ops outputs (inputCount ops) := by
    simpa using hexists (P := fun _ => True)
  simp only [wellFormed_iff, hexists, hformed]
  rcases ofOps_cases ops outputs with
    ⟨hnot, _, hresult⟩ | ⟨hformed, hlt, hresult⟩ | ⟨hformed, hle, program, hresult, hops, houtputs⟩
  · simp [hresult, hnot]
  · simp [hresult, hformed, hlt, Nat.not_le.2 hlt]
  · rw [hresult]
    refine ⟨by simp [hformed, hle], by simp [Nat.not_lt.2 hle], by simp [hformed], ?_⟩
    rintro _ ⟨⟩
    exact ⟨hops, houtputs, program.served⟩

/-- Twelve inputs leave no parameter for the output. -/
example : ofOps ((List.range 12).map .input) [0] = .error (.capacity (.params 12 1)) := rfl

end Program

end Pointwise
