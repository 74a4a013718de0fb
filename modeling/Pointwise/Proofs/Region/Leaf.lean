import Pointwise.Proofs.Checked
import Pointwise.Proofs.Machine.Path
import Pointwise.Region.Leaf

/-!
# What the code of a leaf operation does

A leaf operation that computes writes its value to every lane of its target. Besides the target it
changes at most the auxiliary registers, which are the last ones of the free pools, and it does not
touch the memory. A fused operation exchanges its factors in the one of its forms that overwrites the first
factor.

## Main definitions

* `Leaf.Computes` — code that computes a value in the lanes of its target.

## Main results

* `Leaf.computes_const`, `computes_splat`, `computes_binary`, `computes_fma`, `computes_unary` — the
  operations that compute.
* `Leaf.load_eq_ok`, … — the code of the operations that access memory.
-/

set_option autoImplicit false

namespace Pointwise

namespace Leaf

open Machine

/-- Code that computes a value in the lanes of its target, from the vector registers as they are
before. The pools hold the registers that it may change besides. -/
structure Computes (code : Code) (vecs gprs : List Nat) (target : Register) (lanes : Nat)
    (value : (Register → Lanes) → Fin 16 → Binary32) : Prop where
  plain : ∀ i ∈ code, i.Plain
  silent : ∀ s, ∀ v ∈ traceAll code s, v.1.loads v.2 = [] ∧ v.1.stores v.2 = []
  memory : ∀ s, (execAll code s).memory = s.memory
  outcome : ∀ s, (execAll code s).outcome = s.outcome
  words : ∀ s (r : Register), r.val ∉ gprs → (execAll code s).words.get r = s.words.get r
  vectors : ∀ s (r : Register), r ≠ target → r.val ∉ vecs →
    (execAll code s).vectors.get r = s.vectors.get r
  result : ∀ s (i : Fin 16), i.val < lanes →
    ((execAll code s).vectors.get target).get i = value s.vectors.get i

variable {w : VectorWidth} {vecs gprs : List Nat} {code : Code} {target : Nat}

theorem auxiliaryVec_eq_ok {owner : String} {r : Nat} :
    auxiliaryVec owner vecs = .ok r ↔ vecs.getLast? = some r := by
  unfold auxiliaryVec
  split <;> simp_all

theorem auxiliaryGpr_eq_ok {owner : String} {r : Nat} :
    auxiliaryGpr owner gprs = .ok r ↔ gprs.getLast? = some r := by
  unfold auxiliaryGpr
  split <;> simp_all

/-- The auxiliary registers are the last ones of their pools. -/
theorem auxiliaryVec_getLast? (owner : String) (vecs : List Nat) :
    auxiliaryVec owner vecs.getLast?.toList = auxiliaryVec owner vecs := by
  rw [auxiliaryVec, auxiliaryVec]
  cases vecs.getLast? <;> rfl

theorem auxiliaryGpr_getLast? (owner : String) (gprs : List Nat) :
    auxiliaryGpr owner gprs.getLast?.toList = auxiliaryGpr owner gprs := by
  rw [auxiliaryGpr, auxiliaryGpr]
  cases gprs.getLast? <;> rfl

/-- A bit pattern is put into all lanes in three instructions. -/
theorem splatBits_eq_ok {bits : BitVec 32} {scratch : Nat} :
    splatBits w target bits scratch = .ok code ↔ ∃ d r : Register, target = d.val ∧ scratch = r.val ∧
      code = [.setHalf r bits, .laneFromWord d r, .splat w d d] := by
  simp only [splatBits, VectorWidth.pick, Checked.bind_eq_ok, RegisterClass.pick_eq_ok,
    Checked.pure_eq_ok]
  constructor
  · rintro ⟨r, rfl, d, rfl, d', hd, rfl⟩
    obtain rfl : d = d' := Fin.ext hd
    exact ⟨d, r, rfl, rfl, rfl⟩
  · rintro ⟨d, r, rfl, rfl, rfl⟩
    exact ⟨r, rfl, d, rfl, d, rfl, rfl⟩

/-- A bit pattern in all lanes of a register. -/
theorem computes_splatBits {d r : Register} {bits : BitVec 32} (hr : r.val ∈ gprs) :
    Computes [.setHalf r bits, .laneFromWord d r, .splat w d d] vecs gprs d w.lanes
      fun _ _ => ⟨bits⟩ where
  plain := by simp [Instruction.Plain]
  silent := by simp [traceAll, Instruction.loads, Instruction.stores]
  memory _ := rfl
  outcome _ := rfl
  words s r' hr' := RegisterFile.get_set_of_ne fun h => hr' (h ▸ hr)
  vectors s r' hne _ := by
    simp [execAll, Instruction.exec, MachineState.setVector, MachineState.setWord,
      RegisterFile.get_set, hne.symm]
  result s i hi := by
    simp [execAll, Instruction.exec, MachineState.setVector, MachineState.setWord, hi, Lanes.first,
      Lanes.firstLane]

/-- A single instruction that overwrites its target. -/
theorem computes_single {d : Register} {i : Instruction}
    {value : (Register → Lanes) → Fin 16 → Binary32} (hplain : i.Plain)
    (hsilent : ∀ s, i.loads s = [] ∧ i.stores s = [])
    (hexec : ∀ s, i.exec s = s.setVector d (.upTo w.lanes (value s.vectors.get))) :
    Computes [i] vecs gprs d w.lanes value where
  plain := by simpa using hplain
  silent := by simpa [traceAll] using hsilent
  memory s := by simp [execAll, hexec, MachineState.setVector]
  outcome s := by simp [execAll, hexec, MachineState.setVector]
  words s r _ := by simp [execAll, hexec, MachineState.setVector]
  vectors s r hne _ := by
    simp [execAll, hexec, MachineState.setVector, RegisterFile.get_set_of_ne hne.symm]
  result s i hi := by simp [execAll, hexec, MachineState.setVector, hi]

/-- A constant. -/
theorem computes_const {value : Binary32}
    (h : (LeafOp.const w value).emit [] [target] vecs gprs = .ok code) :
    ∃ d : Register, target = d.val ∧ Computes code vecs gprs d w.lanes fun _ _ => value := by
  obtain ⟨scratch, hscratch, h⟩ := Checked.bind_eq_ok.1 h
  obtain ⟨d, r, rfl, rfl, rfl⟩ := splatBits_eq_ok.1 h
  exact ⟨d, rfl, computes_splatBits (List.mem_of_getLast? (auxiliaryGpr_eq_ok.1 hscratch))⟩

/-- The first lane in all lanes. -/
theorem computes_splat {source : Nat}
    (h : (LeafOp.splat w).emit [source] [target] vecs gprs = .ok code) :
    ∃ d a : Register, target = d.val ∧ source = a.val ∧
      Computes code vecs gprs d w.lanes fun read _ => (read a).first := by
  simp only [LeafOp.emit, VectorWidth.pick, Checked.bind_eq_ok, RegisterClass.pick_eq_ok,
    Checked.pure_eq_ok] at h
  obtain ⟨d, rfl, a, rfl, rfl⟩ := h
  exact ⟨d, a, rfl, rfl, computes_single trivial (fun _ => ⟨rfl, rfl⟩) fun _ => rfl⟩

/-- An operation on two vectors. -/
theorem computes_binary {op : BinaryOp} {left right : Nat}
    (h : (LeafOp.binary w op).emit [left, right] [target] vecs gprs = .ok code) :
    ∃ d a b : Register, target = d.val ∧ left = a.val ∧ right = b.val ∧
      Computes code vecs gprs d w.lanes fun read i =>
        Arithmetic.vector.binary op ((read a).get i) ((read b).get i) := by
  simp only [LeafOp.emit, VectorWidth.pick, Checked.bind_eq_ok, RegisterClass.pick_eq_ok,
    Checked.pure_eq_ok] at h
  obtain ⟨d, rfl, a, rfl, b, rfl, rfl⟩ := h
  exact ⟨d, a, b, rfl, rfl, rfl, computes_single trivial (fun _ => ⟨rfl, rfl⟩) fun _ => rfl⟩

/-- The form of a fused operation that moves the addend to the target first. -/
theorem computes_moveAddend {d a b c : Register} (ha : d ≠ a) (hb : d ≠ b) :
    Computes [.moveVector w d c, .mulAddOnto w d a b] vecs gprs d w.lanes fun read i =>
      .fma ((read a).get i) ((read b).get i) ((read c).get i) where
  plain := by simp [Instruction.Plain]
  silent := by simp [traceAll, Instruction.loads, Instruction.stores]
  memory _ := rfl
  outcome _ := rfl
  words _ _ _ := rfl
  vectors s r hne _ := by
    simp [execAll, Instruction.exec, MachineState.setVector, RegisterFile.get_set, hne.symm]
  result s i hi := by
    simp [execAll, Instruction.exec, MachineState.setVector, RegisterFile.get_set, ha, hb, hi]

/-- **A fused operation.** The factors are exchanged if the first one, and not also the addend, is
overwritten. -/
theorem computes_fma {left right addend : Nat}
    (h : (LeafOp.fma w).emit [left, right, addend] [target] vecs gprs = .ok code) :
    ∃ d a b c : Register, target = d.val ∧ left = a.val ∧ right = b.val ∧ addend = c.val ∧
      Computes code vecs gprs d w.lanes fun read i =>
        Arithmetic.vector.fma (d = a ∧ d ≠ c) ((read a).get i) ((read b).get i) ((read c).get i) := by
  simp only [LeafOp.emit, fma] at h
  obtain ⟨d, hd, h⟩ := Checked.bind_eq_ok.1 h
  obtain rfl := RegisterClass.pick_eq_ok.1 hd
  split at h
  · rename_i hc
    simp only [VectorWidth.pick, Checked.bind_eq_ok, RegisterClass.pick_eq_ok,
      Checked.pure_eq_ok] at h
    obtain ⟨a, rfl, b, rfl, rfl⟩ := h
    refine ⟨d, a, b, d, rfl, rfl, rfl, hc.symm, ?_⟩
    simp only [ne_eq, not_true_eq_false, and_false, decide_false, Arithmetic.vector_fma_false]
    exact computes_single trivial (fun _ => ⟨rfl, rfl⟩) fun _ => rfl
  · rename_i hc
    split at h
    · rename_i ha
      simp only [VectorWidth.pick, Checked.bind_eq_ok, RegisterClass.pick_eq_ok,
        Checked.pure_eq_ok] at h
      obtain ⟨b, rfl, c, rfl, rfl⟩ := h
      have hne : d ≠ c := fun h => hc (by rw [h])
      refine ⟨d, d, b, c, rfl, ha.symm, rfl, rfl, ?_⟩
      simp only [ne_eq, hne, not_false_eq_true, and_self, decide_true, Arithmetic.vector_fma_true]
      exact computes_single trivial (fun _ => ⟨rfl, rfl⟩) fun _ => rfl
    · rename_i ha
      split at h
      · rename_i hb
        simp only [VectorWidth.pick, Checked.bind_eq_ok, RegisterClass.pick_eq_ok,
          Checked.pure_eq_ok] at h
        obtain ⟨a, rfl, c, rfl, rfl⟩ := h
        have hne : d ≠ a := fun h => ha (by rw [h])
        refine ⟨d, a, d, c, rfl, rfl, hb.symm, rfl, ?_⟩
        simp only [hne, false_and, decide_false, Arithmetic.vector_fma_false]
        exact computes_single trivial (fun _ => ⟨rfl, rfl⟩) fun _ => rfl
      · rename_i hb
        simp only [VectorWidth.pick, Checked.bind_eq_ok, RegisterClass.pick_eq_ok,
          Checked.pure_eq_ok] at h
        obtain ⟨c, rfl, a, rfl, b, rfl, rfl⟩ := h
        have hne : d ≠ a := fun h => ha (by rw [h])
        refine ⟨d, a, b, c, rfl, rfl, rfl, rfl, ?_⟩
        simp only [hne, false_and, decide_false, Arithmetic.vector_fma_false]
        exact computes_moveAddend hne fun h => hb (by rw [h])

/-- A bitwise operation with a mask, which is put into an auxiliary register. -/
theorem computes_mask {op : BitwiseOp} {bits : BitVec 32} {d a x r : Register}
    (ha : a.val ∉ vecs) (hx : x.val ∈ vecs) (hr : r.val ∈ gprs) :
    Computes ([.setHalf r bits, .laneFromWord x r, .splat w x x] ++ [.bitwise w op d a x]) vecs gprs
      d w.lanes fun read i => op.apply ((read a).get i) ⟨bits⟩ where
  plain := by simp [Instruction.Plain]
  silent := by simp [traceAll, Instruction.loads, Instruction.stores]
  memory _ := rfl
  outcome _ := rfl
  words s r' hr' := RegisterFile.get_set_of_ne fun h => hr' (h ▸ hr)
  vectors s r' hne hr' := by
    have hxr : x ≠ r' := fun h => hr' (h ▸ hx)
    simp [execAll, Instruction.exec, MachineState.setVector, MachineState.setWord,
      RegisterFile.get_set, hne.symm, hxr]
  result s i hi := by
    have hxa : x ≠ a := fun h => ha (h ▸ hx)
    simp [execAll, Instruction.exec, MachineState.setVector, MachineState.setWord, hi,
      RegisterFile.get_set, hxa, Lanes.first, Lanes.firstLane]

/-- The maximum with zero, which is put into an auxiliary register. -/
theorem computes_rectify {d a x : Register} (ha : a.val ∉ vecs) (hx : x.val ∈ vecs) :
    Computes [.bitwise w .xor x x x, .binary w .max d a x] vecs gprs d w.lanes
      fun read i => .selectMax ((read a).get i) .zero where
  plain := by simp [Instruction.Plain]
  silent := by simp [traceAll, Instruction.loads, Instruction.stores]
  memory _ := rfl
  outcome _ := rfl
  words _ _ _ := rfl
  vectors s r hne hr := by
    have hxr : x ≠ r := fun h => hr (h ▸ hx)
    simp [execAll, Instruction.exec, MachineState.setVector, RegisterFile.get_set, hne.symm, hxr]
  result s i hi := by
    have hxa : x ≠ a := fun h => ha (h ▸ hx)
    simp [execAll, Instruction.exec, MachineState.setVector, RegisterFile.get_set, hxa, hi,
      Arithmetic.vector, BitwiseOp.apply, Binary32.zero]

/-- **An operation on one vector**, whose register is not a free one. -/
theorem computes_unary {op : UnaryOp} {source : Nat} (hsource : source ∉ vecs)
    (h : (LeafOp.unary w op).emit [source] [target] vecs gprs = .ok code) :
    ∃ d a : Register, target = d.val ∧ source = a.val ∧
      Computes code vecs gprs d w.lanes fun read i =>
        Arithmetic.vector.unary op ((read a).get i) := by
  cases op with
  | sqrt =>
    simp only [LeafOp.emit, unary, VectorWidth.pick, Checked.bind_eq_ok, RegisterClass.pick_eq_ok,
      Checked.pure_eq_ok] at h
    obtain ⟨d, rfl, a, rfl, rfl⟩ := h
    exact ⟨d, a, rfl, rfl, computes_single trivial (fun _ => ⟨rfl, rfl⟩) fun _ => rfl⟩
  | neg =>
    simp only [LeafOp.emit, unary, VectorWidth.pick, Checked.bind_eq_ok, RegisterClass.pick_eq_ok,
      Checked.pure_eq_ok, auxiliaryVec_eq_ok, auxiliaryGpr_eq_ok, splatBits_eq_ok] at h
    obtain ⟨_, hx, _, hr, _, ⟨x, r, rfl, rfl, rfl⟩, d, rfl, a, rfl, x', hx', rfl⟩ := h
    obtain rfl : x = x' := Fin.ext hx'
    exact ⟨d, a, rfl, rfl,
      computes_mask hsource (List.mem_of_getLast? hx) (List.mem_of_getLast? hr)⟩
  | abs =>
    simp only [LeafOp.emit, unary, VectorWidth.pick, Checked.bind_eq_ok, RegisterClass.pick_eq_ok,
      Checked.pure_eq_ok, auxiliaryVec_eq_ok, auxiliaryGpr_eq_ok, splatBits_eq_ok] at h
    obtain ⟨_, hx, _, hr, _, ⟨x, r, rfl, rfl, rfl⟩, d, rfl, a, rfl, x', hx', rfl⟩ := h
    obtain rfl : x = x' := Fin.ext hx'
    exact ⟨d, a, rfl, rfl,
      computes_mask hsource (List.mem_of_getLast? hx) (List.mem_of_getLast? hr)⟩
  | relu =>
    simp only [LeafOp.emit, unary, VectorWidth.pick, Checked.bind_eq_ok, RegisterClass.pick_eq_ok,
      Checked.pure_eq_ok, auxiliaryVec_eq_ok] at h
    obtain ⟨_, hx, x, rfl, d, rfl, a, rfl, rfl⟩ := h
    exact ⟨d, a, rfl, rfl, computes_rectify hsource (List.mem_of_getLast? hx)⟩

/-! ## Access to memory -/

section Access

variable {pointer source : Nat}

theorem load_eq_ok : (LeafOp.load w).emit [pointer] [target] vecs gprs = .ok code ↔
    ∃ p d : Register, pointer = p.val ∧ target = d.val ∧ code = [.loadVector w d p] := by
  simp only [LeafOp.emit, VectorWidth.pick, Checked.bind_eq_ok, RegisterClass.pick_eq_ok,
    Checked.pure_eq_ok]
  constructor
  · rintro ⟨p, rfl, d, rfl, rfl⟩
    exact ⟨p, d, rfl, rfl, rfl⟩
  · rintro ⟨p, d, rfl, rfl, rfl⟩
    exact ⟨p, rfl, d, rfl, rfl⟩

theorem splatLoad_eq_ok : (LeafOp.splatLoad w).emit [pointer] [target] vecs gprs = .ok code ↔
    ∃ p d : Register, pointer = p.val ∧ target = d.val ∧ code = [.splatLoad w d p] := by
  simp only [LeafOp.emit, VectorWidth.pick, Checked.bind_eq_ok, RegisterClass.pick_eq_ok,
    Checked.pure_eq_ok]
  constructor
  · rintro ⟨p, rfl, d, rfl, rfl⟩
    exact ⟨p, d, rfl, rfl, rfl⟩
  · rintro ⟨p, d, rfl, rfl, rfl⟩
    exact ⟨p, rfl, d, rfl, rfl⟩

theorem laneLoad_eq_ok : LeafOp.laneLoad.emit [pointer] [target] vecs gprs = .ok code ↔
    ∃ p d : Register, pointer = p.val ∧ target = d.val ∧ code = [.loadLane d p] := by
  simp only [LeafOp.emit, Checked.bind_eq_ok, RegisterClass.pick_eq_ok, Checked.pure_eq_ok]
  constructor
  · rintro ⟨d, rfl, p, rfl, rfl⟩
    exact ⟨p, d, rfl, rfl, rfl⟩
  · rintro ⟨p, d, rfl, rfl, rfl⟩
    exact ⟨d, rfl, p, rfl, rfl⟩

theorem store_eq_ok : (LeafOp.store w).emit [source] [pointer] vecs gprs = .ok code ↔
    ∃ p a : Register, pointer = p.val ∧ source = a.val ∧ code = [.storeVector w p a] := by
  simp only [LeafOp.emit, VectorWidth.pick, Checked.bind_eq_ok, RegisterClass.pick_eq_ok,
    Checked.pure_eq_ok]
  constructor
  · rintro ⟨p, rfl, a, rfl, rfl⟩
    exact ⟨p, a, rfl, rfl, rfl⟩
  · rintro ⟨p, a, rfl, rfl, rfl⟩
    exact ⟨p, rfl, a, rfl, rfl⟩

theorem laneStore_eq_ok : LeafOp.laneStore.emit [source] [pointer] vecs gprs = .ok code ↔
    ∃ p a : Register, pointer = p.val ∧ source = a.val ∧ code = [.storeLane p a] := by
  simp only [LeafOp.emit, Checked.bind_eq_ok, RegisterClass.pick_eq_ok, Checked.pure_eq_ok]
  constructor
  · rintro ⟨p, rfl, a, rfl, rfl⟩
    exact ⟨p, a, rfl, rfl, rfl⟩
  · rintro ⟨p, a, rfl, rfl, rfl⟩
    exact ⟨p, rfl, a, rfl, rfl⟩

end Access

end Leaf

end Pointwise
