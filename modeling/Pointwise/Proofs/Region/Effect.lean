import Pointwise.Proofs.Machine.Span
import Pointwise.Proofs.Region.Leaf

/-!
# Effects of leaf operations

The code of a leaf operation has one effect: it puts its result, on the values that the sources have before
it, into the lanes of a vector register or into memory. Everything else stays as it is, apart from the registers
that the operation takes besides its operands. The target may be one of the sources. An instruction reads its
operands before it writes, and where there are several instructions, none of them reads a source from a
register that an earlier one has written.

## Main definitions

* `LeafOp.laneValue`, `LeafOp.lanes` — the result of an operation, lane by lane.
* `LeafOp.auxiliaryVec?`, `LeafOp.auxiliaryGpr?` — the registers that it takes besides its operands.
* `LeafOp.Performs` — what running its code does to a state.

## Main results

* `LeafOp.emit_auxiliary` — code depends on those registers of the pools only.
* `LeafOp.emit_performs` — the code of a leaf operation performs it and changes nothing else.
-/

set_option autoImplicit false

namespace Pointwise

open Machine

namespace LeafOp

/-! ## Effects -/

/-- The number of lanes that the result of an operation has. That of loading a single number has all lanes of a
register. -/
def lanes : LeafOp → Nat
  | .load w | .splatLoad w | .store w | .const w _ | .splat w | .binary w _ | .fma w | .unary w _ => w.lanes
  | .laneLoad => 16
  | .laneStore => 1

/-- No result has more lanes than a register. -/
theorem lanes_le (op : LeafOp) : op.lanes ≤ 16 := by
  cases op <;> first | exact VectorWidth.lanes_le _ | decide

/-- The result of an operation in a lane, from the values that its sources have in a state. The target matters
for the order of the factors of a fused operation only. -/
def laneValue (op : LeafOp) (sources : List Register) (target : Register) (s : MachineState) (i : Fin 16) :
    Binary32 :=
  match op, sources with
  | .load _, [p] => s.element p i
  | .splatLoad _, [p] => s.element p 0
  | .laneLoad, [p] => if i.val = 0 then s.element p 0 else .zero
  | .store _, [a] | .laneStore, [a] => (s.vectors.get a).get i
  | .const _ value, [] => value
  | .splat _, [a] => (s.vectors.get a).first
  | .binary _ op, [a, b] => Arithmetic.vector.binary op ((s.vectors.get a).get i) ((s.vectors.get b).get i)
  | .fma _, [a, b, c] => Arithmetic.vector.fma (target = a ∧ target ≠ c) ((s.vectors.get a).get i)
    ((s.vectors.get b).get i) ((s.vectors.get c).get i)
  | .unary _ op, [a] => Arithmetic.vector.unary op ((s.vectors.get a).get i)
  | _, _ => .zero

/-- The vector register that an operation takes besides its operands. -/
def auxiliaryVec? (vecs : List Nat) : LeafOp → Option Nat
  | .unary _ .neg | .unary _ .abs | .unary _ .relu => vecs.getLast?
  | _ => none

/-- The general register that an operation takes besides its operands. -/
def auxiliaryGpr? (gprs : List Nat) : LeafOp → Option Nat
  | .const _ _ | .unary _ .neg | .unary _ .abs => gprs.getLast?
  | _ => none

/-- What running the code of an operation does to a state. The target is a vector register that gets the
result, or a general one with the address where it is stored. -/
structure Performs (op : LeafOp) (sources : List Register) (target : Register) (vec gpr : Option Nat)
    (s t : MachineState) : Prop where
  result : op.dataFlow.outputKind = .vec → ∀ i : Fin 16, i.val < op.lanes →
    (t.vectors.get target).get i = op.laneValue sources target s i
  stored : op.dataFlow.outputKind = .gpr → ∀ i : Fin 16, i.val < op.lanes →
    t.memory.readNumber (s.words.get target + BitVec.ofNat 64 (4 * i)) = op.laneValue sources target s i
  words : ∀ r : Register, gpr ≠ some r.val → t.words.get r = s.words.get r
  vectors : ∀ r : Register, (op.dataFlow.outputKind = .vec → r ≠ target) → vec ≠ some r.val →
    t.vectors.get r = s.vectors.get r
  memory : ∀ a : Address,
    (op.dataFlow.outputKind = .gpr → ¬ Span.Covers ⟨s.words.get target, 4 * op.lanes⟩ a) →
      t.memory.read a = s.memory.read a
  outcome : t.outcome = s.outcome

/-! ## Operands and auxiliary registers -/

variable {op : LeafOp} {input output vecs gprs : List Nat} {code : Code}

/-- Code has as many operands as its operation. -/
theorem arity_of_emit (h : op.emit input output vecs gprs = .ok code) :
    input.length = op.arity.1 ∧ output.length = op.arity.2 := by
  unfold emit at h
  split at h
  case h_11 => cases h
  all_goals exact ⟨rfl, rfl⟩

/-- The code of an operation depends on the registers that it takes from the pools only. -/
theorem emit_auxiliary (op : LeafOp) (input output vecs gprs : List Nat) :
    op.emit input output (op.auxiliaryVec? vecs).toList (op.auxiliaryGpr? gprs).toList =
      op.emit input output vecs gprs := by
  unfold emit
  split
  case h_6 => simp only [auxiliaryGpr?, Leaf.auxiliaryGpr_getLast?]
  case h_10 op _ _ =>
    cases op <;> simp only [auxiliaryVec?, auxiliaryGpr?, Leaf.unary, Leaf.auxiliaryVec_getLast?,
      Leaf.auxiliaryGpr_getLast?]
  all_goals rfl

/-! ## The ways to perform an operation -/

variable {sources : List Register} {target : Register} {vec gpr : Option Nat}

/-- Code that computes the result of an operation performs it. -/
theorem performs_of_computes {value : (Register → Lanes) → Fin 16 → Binary32}
    (hkind : op.dataFlow.outputKind = .vec)
    (h : Leaf.Computes code vec.toList gpr.toList target op.lanes value)
    (hvalue : ∀ s i, value s.vectors.get i = op.laneValue sources target s i) (s : MachineState) :
    ∃ trace t, Runs code s trace t ∧ op.Performs sources target vec gpr s t := by
  refine ⟨traceAll code s, execAll code s, runs_plain h.plain s, ?_⟩
  constructor
  case result => exact fun _ i hi => (h.result s i hi).trans (hvalue s i)
  case stored => exact fun hgpr => absurd (hkind.symm.trans hgpr) (by decide)
  case words => exact fun r hr => h.words s r (by simpa using hr)
  case vectors => exact fun r hne hr => h.vectors s r (hne hkind) (by simpa using hr)
  case memory => exact fun a _ => by rw [h.memory s]
  case outcome => exact h.outcome s

/-- An instruction that loads the result of an operation performs it. -/
theorem performs_of_load {i : Instruction} {lanes : MachineState → Lanes}
    (hkind : op.dataFlow.outputKind = .vec) (hplain : i.Plain)
    (hexec : ∀ s, i.exec s = s.setVector target (lanes s))
    (hlanes : ∀ s, ∀ j : Fin 16, j.val < op.lanes → (lanes s).get j = op.laneValue sources target s j)
    (s : MachineState) :
    ∃ trace t, Runs [i] s trace t ∧ op.Performs sources target vec gpr s t := by
  refine ⟨_, _, runs_single hplain s, ?_⟩
  rw [hexec]
  constructor
  case result =>
    intro _ j hj
    rw [MachineState.setVector, RegisterFile.get_set_self, hlanes s j hj]
  case stored => exact fun hgpr => absurd (hkind.symm.trans hgpr) (by decide)
  case vectors => exact fun r hne _ => RegisterFile.get_set_of_ne (hne hkind).symm
  case words => exact fun _ _ => rfl
  case memory => exact fun _ _ => rfl
  case outcome => rfl

/-- An instruction that writes the result of an operation to memory performs it. -/
theorem performs_of_store {i : Instruction} {values : MachineState → List Binary32}
    (hkind : op.dataFlow.outputKind = .gpr) (hplain : i.Plain)
    (hexec : ∀ s, i.exec s = { s with memory := s.memory.writeNumbers (s.words.get target) (values s) })
    (hlength : ∀ s, (values s).length = op.lanes)
    (hvalues : ∀ s, ∀ j : Fin 16, j.val < op.lanes → (values s)[j]? = some (op.laneValue sources target s j))
    (s : MachineState) :
    ∃ trace t, Runs [i] s trace t ∧ op.Performs sources target vec gpr s t := by
  have hlanes := op.lanes_le
  refine ⟨_, _, runs_single hplain s, ?_⟩
  rw [hexec]
  constructor
  case result => exact fun hvec => absurd (hkind.symm.trans hvec) (by decide)
  case stored =>
    intro _ j hj
    have hlt : j.val < (values s).length := (hlength s).symm ▸ hj
    rw [Memory.readNumber_writeNumbers (by rw [hlength s]; omega) hlt]
    exact Option.some.inj ((List.getElem?_eq_getElem hlt).symm.trans (hvalues s j hj))
  case words => exact fun _ _ => rfl
  case vectors => exact fun _ _ _ => rfl
  case memory => exact fun a ha => Memory.read_writeNumbers (by rw [hlength s]; exact ha hkind)
  case outcome => rfl

/-- **The code of a leaf operation performs it and changes nothing else**, from every state. Its operands may
coincide in any way, as long as the vector register that it takes besides them is none of its sources.

**Proof sketch.** Operands whose code exists are registers, as many as the operation has
(`arity_of_emit`). Of the pools only the auxiliary registers matter (`emit_auxiliary`), so that only these can
change besides the target. An operation then computes its result (`Leaf.Computes`), or it is a single
instruction that loads or stores it. -/
theorem emit_performs (h : op.emit input output vecs gprs = .ok code)
    (haux : ∀ r ∈ input, op.auxiliaryVec? vecs ≠ some r) :
    ∃ (sources : List Register) (target : Register),
      input = sources.map (·.val) ∧ output = [target.val] ∧ sources.length = op.arity.1 ∧
        ∀ s, ∃ trace t, Runs code s trace t ∧
          op.Performs sources target (op.auxiliaryVec? vecs) (op.auxiliaryGpr? gprs) s t := by
  obtain ⟨hinput, houtput⟩ := arity_of_emit h
  obtain ⟨out, rfl⟩ : ∃ out, output = [out] := by
    refine List.length_eq_one_iff.1 (houtput.trans ?_)
    cases op <;> rfl
  -- what code may change besides its target is bounded by the pools, so they are cut down first
  rw [← emit_auxiliary] at h
  cases op with
  | load w =>
    obtain ⟨pointer, rfl⟩ := List.length_eq_one_iff.1 hinput
    obtain ⟨p, d, rfl, rfl, rfl⟩ := Leaf.load_eq_ok.1 h
    refine ⟨[p], d, rfl, rfl, rfl, performs_of_load rfl trivial (fun _ => rfl) fun s j hj => ?_⟩
    exact (Lanes.get_upTo _ _ j).trans (if_pos hj)
  | splatLoad w =>
    obtain ⟨pointer, rfl⟩ := List.length_eq_one_iff.1 hinput
    obtain ⟨p, d, rfl, rfl, rfl⟩ := Leaf.splatLoad_eq_ok.1 h
    refine ⟨[p], d, rfl, rfl, rfl, performs_of_load rfl trivial (fun _ => rfl) fun s j hj => ?_⟩
    exact (Lanes.get_upTo _ _ j).trans (if_pos hj)
  | laneLoad =>
    obtain ⟨pointer, rfl⟩ := List.length_eq_one_iff.1 hinput
    obtain ⟨p, d, rfl, rfl, rfl⟩ := Leaf.laneLoad_eq_ok.1 h
    refine ⟨[p], d, rfl, rfl, rfl, performs_of_load rfl trivial (fun _ => rfl) fun s j _ => ?_⟩
    simp only [Lanes.get_upTo, Nat.lt_one_iff, laneValue]
    split
    · rename_i hzero
      rw [hzero]
    · rfl
  | store w =>
    obtain ⟨source, rfl⟩ := List.length_eq_one_iff.1 hinput
    obtain ⟨p, a, rfl, rfl, rfl⟩ := Leaf.store_eq_ok.1 h
    have hlanes := w.lanes_le
    refine ⟨[a], p, rfl, rfl, rfl, performs_of_store rfl trivial (fun _ => rfl) (fun s => ?_)
      fun s j hj => ?_⟩
    · simpa [lanes] using hlanes
    · rw [lanes] at hj
      simp [laneValue, Lanes.get, hj]
  | laneStore =>
    obtain ⟨source, rfl⟩ := List.length_eq_one_iff.1 hinput
    obtain ⟨p, a, rfl, rfl, rfl⟩ := Leaf.laneStore_eq_ok.1 h
    have hexec (s : MachineState) : (Instruction.storeLane p a).exec s =
        { s with memory := s.memory.writeNumbers (s.words.get p) [(s.vectors.get a).first] } := rfl
    refine ⟨[a], p, rfl, rfl, rfl, performs_of_store rfl trivial hexec (fun _ => rfl) fun s j hj => ?_⟩
    obtain rfl : j = Lanes.firstLane := Fin.ext (Nat.lt_one_iff.1 hj)
    rfl
  | const w value =>
    obtain rfl := List.eq_nil_of_length_eq_zero hinput
    obtain ⟨d, rfl, hcomputes⟩ := Leaf.computes_const h
    exact ⟨[], d, rfl, rfl, rfl, performs_of_computes rfl hcomputes fun _ _ => rfl⟩
  | splat w =>
    obtain ⟨source, rfl⟩ := List.length_eq_one_iff.1 hinput
    obtain ⟨d, a, rfl, rfl, hcomputes⟩ := Leaf.computes_splat h
    exact ⟨[a], d, rfl, rfl, rfl, performs_of_computes rfl hcomputes fun _ _ => rfl⟩
  | binary w op =>
    obtain ⟨left, right, rfl⟩ := List.length_eq_two.1 hinput
    obtain ⟨d, a, b, rfl, rfl, rfl, hcomputes⟩ := Leaf.computes_binary h
    exact ⟨[a, b], d, rfl, rfl, rfl, performs_of_computes rfl hcomputes fun _ _ => rfl⟩
  | fma w =>
    obtain ⟨left, right, addend, rfl⟩ := List.length_eq_three.1 hinput
    obtain ⟨d, a, b, c, rfl, rfl, rfl, rfl, hcomputes⟩ := Leaf.computes_fma h
    exact ⟨[a, b, c], d, rfl, rfl, rfl, performs_of_computes rfl hcomputes fun _ _ => rfl⟩
  | unary w op =>
    obtain ⟨source, rfl⟩ := List.length_eq_one_iff.1 hinput
    have hfree : source ∉ (auxiliaryVec? vecs (.unary w op)).toList := by
      simpa using haux source (by simp)
    obtain ⟨d, a, rfl, rfl, hcomputes⟩ := Leaf.computes_unary hfree h
    exact ⟨[a], d, rfl, rfl, rfl, performs_of_computes rfl hcomputes fun _ _ => rfl⟩

/-- Negation of a register in its place. The mask goes to the last free registers. -/
theorem emit_performs_of_negation :
    ∃ code, (LeafOp.unary .ymm .neg).emit [2] [2] [14, 15] [0, 3] = .ok code ∧
      (∀ r ∈ [2], (LeafOp.unary .ymm .neg).auxiliaryVec? [14, 15] ≠ some r) ∧
      ∃ (sources : List Register) (target : Register), [2] = sources.map (·.val) ∧ [2] = [target.val] ∧
        sources.length = 1 ∧ ∀ s, ∃ trace t, Runs code s trace t ∧
          (LeafOp.unary .ymm .neg).Performs sources target (some 15) (some 3) s t := by
  have h : (LeafOp.unary .ymm .neg).emit [2] [2] [14, 15] [0, 3] =
      .ok [.setHalf 3 0x80000000, .laneFromWord 15 3, .splat .ymm 15 15, .bitwise .ymm .xor 2 2 15] := rfl
  have haux : ∀ r ∈ [2], (LeafOp.unary .ymm .neg).auxiliaryVec? [14, 15] ≠ some r := by decide
  exact ⟨_, h, haux, emit_performs h haux⟩

end LeafOp

end Pointwise
