import Pointwise.Proofs.Region.Code
import Pointwise.Proofs.Region.Setting

/-!
# Bodies simulate their program

The body of a tile computes the values of consecutive positions in the lanes of the vector registers
and stores them. A scalar body does the same for a single position, in the first lane. A value that
is still needed stays in its register, as no later result is put there. What a body stores depends on
the memory and on the pointers of the parameters alone, and it loads all that it needs before it stores
anything.

## Main definitions

* `BodyKind.width` — the number of positions that a body processes.
* `Program.BodySource.Separate` — registers of a body that do not get in each other's way.
* `Program.BodySource.Reads`, `Program.BodySource.Writes` — what a body finds and what it has to store.
* `Program.BodySource.Computed`, `Program.BodySource.Stored` — the state behind a number of operations
  and of stores.

## Main results

* `Program.BodySource.triple_opCode` — an operation computes its value in all lanes.
* `Program.BodySource.triple_storeCode` — a store writes the values of an output.
* `Program.IsBody.exists_run` — a body stores the values of all outputs.
-/

set_option autoImplicit false

namespace Pointwise

open Machine

/-- The number of positions that a body processes. -/
def BodyKind.width (w : VectorWidth) : BodyKind → Nat
  | .scalar => 1
  | .vector => w.lanes

theorem BodyKind.width_pos (w : VectorWidth) (kind : BodyKind) : 0 < kind.width w := by
  cases kind
  · exact w.lanes_pos
  · exact Nat.one_pos

theorem BodyKind.width_le (w : VectorWidth) (kind : BodyKind) : kind.width w ≤ w.lanes := by
  cases kind
  · exact le_rfl
  · exact w.lanes_pos

/-! ## The instructions that access memory -/

section Instructions

variable {w : VectorWidth} {kind : BodyKind} {flag : Bool} {d q r : Register}

theorem loadInstruction_plain : (loadInstruction w kind flag d q).Plain := by
  unfold loadInstruction
  split <;> trivial

theorem storeInstruction_plain : (storeInstruction w kind q r).Plain := by
  unfold storeInstruction
  split <;> trivial

theorem stores_loadInstruction (s : MachineState) :
    (loadInstruction w kind flag d q).stores s = [] := by
  unfold loadInstruction
  split <;> rfl

theorem loads_storeInstruction (s : MachineState) : (storeInstruction w kind q r).loads s = [] := by
  unfold storeInstruction
  split <;> rfl

/-- A load fills its target's lanes with the numbers behind the pointer, or with the one at the
pointer if the input is broadcast. -/
theorem exec_loadInstruction (s : MachineState) : ∃ lanes : Lanes,
    (loadInstruction w kind flag d q).exec s = s.setVector d lanes ∧
      ∀ j : Fin 16, j.val < kind.width w → lanes.get j = s.element q (if flag then 0 else j) := by
  cases kind with
  | scalar =>
    refine ⟨_, rfl, fun j hj => ?_⟩
    rw [BodyKind.width] at hj
    have hzero : j.val = 0 := Nat.lt_one_iff.1 hj
    rw [Lanes.get_upTo, if_pos hj, hzero, ite_self]
  | vector =>
    cases flag <;>
    · refine ⟨_, rfl, fun j hj => ?_⟩
      rw [BodyKind.width] at hj
      rw [Lanes.get_upTo, if_pos hj]
      rfl

/-- The first lanes of a register as a list. -/
theorem toList_take_eq {pass : Pass} {lanes : Lanes} {target : Target} (hle : pass.width ≤ 16)
    (h : ∀ j : Fin 16, j.val < pass.width → lanes.get j = target.value (pass.first + j)) :
    lanes.values.toList.take pass.width = pass.values target := by
  refine List.ext_getElem (by simp [hle]) fun j hj hj' => ?_
  rw [Pass.length_values] at hj'
  have hlane := h ⟨j, by omega⟩ hj'
  simpa [Pass.values, Lanes.get] using hlane

/-- What the instruction of a store writes. -/
theorem exec_storeInstruction {pass : Pass} (target : Target) (hwidth : pass.width = kind.width w)
    {s : MachineState} (hstart : s.words.get q = (pass.span target).start)
    (hvalue : ∀ j : Fin 16, j.val < pass.width →
      (s.vectors.get r).get j = target.value (pass.first + j)) :
    (storeInstruction w kind q r).exec s = { s with
        memory := s.memory.writeNumbers (pass.span target).start (pass.values target) } ∧
      (storeInstruction w kind q r).stores s = [pass.span target] := by
  have hspan : pass.span target = ⟨s.words.get q, 4 * pass.width⟩ := by
    rw [hstart]
    rfl
  cases kind with
  | scalar =>
    rw [BodyKind.width] at hwidth
    have hone : pass.values target = [(s.vectors.get r).first] := by
      have hlane := hvalue Lanes.firstLane (by rw [hwidth]; exact Nat.one_pos)
      rw [Lanes.first, hlane, Pass.values, hwidth]
      rfl
    constructor
    · rw [hone, ← hstart]
      rfl
    · rw [hspan, hwidth]
      rfl
  | vector =>
    rw [BodyKind.width] at hwidth
    have hlanes := w.lanes_le
    have hall := toList_take_eq (by omega) hvalue
    constructor
    · rw [← hall, hwidth, ← hstart]
      rfl
    · rw [hspan, hwidth]
      rfl

end Instructions

namespace Program

/-! ## What a body finds and what it leaves -/

namespace BodySource

variable (source : BodySource) (program : Program)

/-- Registers of a body that do not get in each other's way. -/
structure Separate : Prop where
  shares : source.Shares program
  free : ∀ r ∈ source.registers, r ∉ source.vecs
  pointers : ∀ (p : Nat) (q : Register), p < program.params →
    source.pointers[p]? = some q.val → q.val ∉ source.gprs

/-- A state in which a body finds what a reading says of the positions of a pass: through the pointers
of the inputs it finds their elements, or a single one for all positions. -/
structure Reads (reading : Reading) (pass : Pass) (s : MachineState) : Prop where
  width : pass.width = source.kind.width source.w
  arith : reading.arith = .vector
  start : ∀ j < pass.width, reading.start (pass.first + j) = pass.first
  input : ∀ (p : Nat) (q : Register) (flag : Bool), p < program.inputs →
    source.pointers[p]? = some q.val → source.broadcast[p]? = some flag → ∀ j < pass.width,
      reading.input p (pass.first + j) = s.element q (if flag then 0 else j)

/-- The outputs that a body has to store: the values of the program, at the pointers of a state. -/
structure Writes (reading : Reading) (pass : Pass) (s : MachineState) (targets : List Target) :
    Prop where
  value : targets.map (·.value) = program.outputs.map (program.valueAt reading)
  start : ∀ (k : Nat) (target : Target) (q : Register), targets[k]? = some target →
    source.pointers[program.inputs + k]? = some q.val → s.words.get q = (pass.span target).start

/-- An instruction that does not access memory, or loads an input through its pointer. -/
def Loads (s : MachineState) (v : Instruction × MachineState) : Prop :=
  v.1.stores v.2 = [] ∧ (v.1.loads v.2 = [] ∨ ∃ (p : Nat) (flag : Bool) (d q : Register),
    p < program.inputs ∧ source.pointers[p]? = some q.val ∧ source.broadcast[p]? = some flag ∧
      v.1 = loadInstruction source.w source.kind flag d q ∧ v.2.words.get q = s.words.get q)

/-- An instruction that stores an output through its pointer. -/
def Stores (s : MachineState) (v : Instruction × MachineState) : Prop :=
  ∃ (k : Nat) (q r : Register), k < program.outputs.length ∧
    source.pointers[program.inputs + k]? = some q.val ∧
      v.1 = storeInstruction source.w source.kind q r ∧ v.2.words.get q = s.words.get q

/-- The state behind a number of operations, if the body began in state `s`: the values that are still
needed are in their registers. -/
structure Computed (reading : Reading) (pass : Pass) (s : MachineState) (position : Nat)
    (trace : Trace) (t : MachineState) : Prop where
  memory : t.memory = s.memory
  words : ∀ r : Register, r.val ∉ source.gprs → t.words.get r = s.words.get r
  value : ∀ v < position, program.NeededFrom position v → ∀ r, source.Holds v r →
    ∀ j : Fin 16, j.val < pass.width →
      (t.vectors.get r).get j = program.valueAt reading v (pass.first + j)
  loads : ∀ v ∈ trace, source.Loads program s v

/-- The state behind a number of stores, if the body began in state `s`: these outputs have been
written, and the values of all outputs are in their registers. -/
structure Stored (reading : Reading) (pass : Pass) (s : MachineState) (targets : List Target)
    (count : Nat) (trace : Trace) (t : MachineState) : Prop where
  memory : t.memory = Pass.store (targets.take count) s.memory pass
  spans : storesOf trace = (targets.take count).map pass.span
  words : ∀ r : Register, r.val ∉ source.gprs → t.words.get r = s.words.get r
  value : ∀ v ∈ program.outputs, ∀ r, source.Holds v r → ∀ j : Fin 16, j.val < pass.width →
    (t.vectors.get r).get j = program.valueAt reading v (pass.first + j)
  stores : ∀ v ∈ trace, source.Stores program s v

variable {source program} {reading : Reading} {pass : Pass} {s : MachineState}

/-- A result leaves the values alone that are needed behind it. -/
theorem Separate.apart (hseparate : source.Separate program) {value position : Nat} {r : Register}
    (hlt : value < position) (hle : position < program.ops.length)
    (hneeded : program.NeededFrom (position + 1) value) (hr : source.Holds value r) :
    ¬ source.Holds position r := by
  intro hr'
  have hlength := program.keeps_registers.length
  have hnumber := List.getElem?_eq_getElem (by omega : value < program.registers.registers.length)
  exact registers_apart hlt hle hneeded hnumber (((hseparate.shares hr hr').1 rfl).symm.trans hnumber)

/-- The code of a fused operation exchanges the factors if the program says so. -/
theorem Separate.swapsFactors (hseparate : source.Separate program) {position a b c : Nat}
    {d ra rc : Register} (hop : program.ops[position]? = some (.fma a b c))
    (hd : source.Holds position d) (ha : source.Holds a ra) (hc : source.Holds c rc) :
    program.swapsFactors position = decide (d = ra ∧ d ≠ rc) := by
  rw [Program.swapsFactors, hop]
  simp only [hseparate.shares hd ha, ne_eq, hseparate.shares hd hc]

/-! ## Operations -/

section Operations

variable {position : Nat} {trace trace' : Trace} {t u : MachineState} {d : Register} {code : Code}

/-- The value of an operand is in its register. -/
theorem Computed.operand (h : source.Computed program reading pass s position trace t)
    (hlt : position < program.ops.length) {a : Nat} {ra : Register}
    (ha : a ∈ program.ops[position].operands) (hra : source.Holds a ra) {j : Fin 16}
    (hj : j.val < pass.width) :
    (t.vectors.get ra).get j = program.valueAt reading a (pass.first + j) :=
  h.value a (program.wellFormed.operands_lt position hlt a ha)
    (neededFrom_of_operand (List.getElem?_eq_getElem hlt) ha) ra hra j hj

/-- **The values behind an operation.** The result is that of the operation, and no other value that
is needed has been overwritten. -/
theorem Computed.next (hseparate : source.Separate program)
    (h : source.Computed program reading pass s position trace t)
    (hlt : position < program.ops.length) (hd : source.Holds position d)
    (hmemory : u.memory = t.memory)
    (hwords : ∀ r : Register, r.val ∉ source.gprs → u.words.get r = t.words.get r)
    (hvectors : ∀ r : Register, r ≠ d → r.val ∉ source.vecs → u.vectors.get r = t.vectors.get r)
    (hresult : ∀ j : Fin 16, j.val < pass.width → (u.vectors.get d).get j =
      program.ops[position].valueFrom reading (program.swapsFactors position) (program.valueAt reading)
        (pass.first + j))
    (hloads : ∀ v ∈ trace', source.Loads program s v) :
    source.Computed program reading pass s (position + 1) (trace ++ trace') u where
  memory := hmemory.trans h.memory
  words r hr := (hwords r hr).trans (h.words r hr)
  value v hv hneeded r hr j hj := by
    rcases Nat.lt_succ_iff_lt_or_eq.1 hv with hv | rfl
    · have hne : r ≠ d := by
        rintro rfl
        exact hseparate.apart hv hlt hneeded hr hd
      rw [hvectors r hne (hseparate.free r.val (List.mem_of_getElem? hr))]
      exact h.value v hv (hneeded.mono (Nat.le_succ _)) r hr j hj
    · obtain rfl : r = d := Fin.ext (Option.some.inj (hr.symm.trans hd))
      rw [hresult j hj, program.valueAt_eq _ hlt]
  loads v hv := by
    rcases List.mem_append.1 hv with hv | hv
    · exact h.loads v hv
    · exact hloads v hv

/-- An operation that does not access memory. -/
theorem triple_computes (hseparate : source.Separate program)
    (hwidth : pass.width = source.kind.width source.w) (hlt : position < program.ops.length)
    (hd : source.Holds position d) {value : (Register → Lanes) → Fin 16 → Binary32}
    (hcode : Leaf.Computes code source.vecs source.gprs d source.w.lanes value)
    (hvalue : ∀ trace t, source.Computed program reading pass s position trace t → ∀ j : Fin 16,
      j.val < pass.width → value t.vectors.get j =
        program.ops[position].valueFrom reading (program.swapsFactors position) (program.valueAt reading)
          (pass.first + j)) :
    Triple (source.Computed program reading pass s position) code code.length
      (source.Computed program reading pass s (position + 1)) := by
  have hlanes : pass.width ≤ source.w.lanes := hwidth.trans_le (BodyKind.width_le _ _)
  refine Triple.plain hcode.plain fun trace t h => ?_
  refine h.next hseparate hlt hd (hcode.memory t) (hcode.words t) (hcode.vectors t)
    (fun j hj => ?_) fun v hv => ?_
  · rw [hcode.result t j (hj.trans_le hlanes), hvalue trace t h j hj]
  · obtain ⟨hloads, hstores⟩ := hcode.silent t v hv
    exact ⟨hstores, .inl hloads⟩

/-- An operation that loads an input. -/
theorem triple_load (hseparate : source.Separate program)
    (hreads : source.Reads program reading pass s) (hlt : position < program.ops.length)
    (hd : source.Holds position d) {p : Nat} (hop : program.ops[position] = .input p) {q : Register}
    {flag : Bool} (hq : source.pointers[p]? = some q.val) (hflag : source.broadcast[p]? = some flag) :
    Triple (source.Computed program reading pass s position)
      [loadInstruction source.w source.kind flag d q] 1
      (source.Computed program reading pass s (position + 1)) := by
  have hp : p < program.inputs :=
    (program.wellFormed.input_mem_iff p).1 (hop ▸ List.getElem_mem hlt)
  have hpointer := hseparate.pointers p q (by rw [params]; omega) hq
  refine Triple.single loadInstruction_plain fun trace t h => ?_
  obtain ⟨lanes, hexec, hlanes⟩ : ∃ lanes : Lanes,
      (loadInstruction source.w source.kind flag d q).exec t = t.setVector d lanes ∧
        ∀ j : Fin 16, j.val < source.kind.width source.w →
          lanes.get j = t.element q (if flag then 0 else j) := exec_loadInstruction t
  have hwords := h.words q hpointer
  refine h.next hseparate hlt hd (by rw [hexec]; rfl) (fun r _ => by rw [hexec]; rfl)
    (fun r hr _ => ?_) (fun j hj => ?_) fun v hv => ?_
  · rw [hexec]
    exact RegisterFile.get_set_of_ne hr.symm
  · rw [hexec, MachineState.setVector, RegisterFile.get_set_self, hlanes j (hreads.width ▸ hj), hop,
      MicroOp.valueFrom, hreads.input p q flag hp hq hflag j hj, MachineState.element, h.memory, hwords]
    rfl
  · obtain rfl := List.mem_singleton.1 hv
    exact ⟨stores_loadInstruction t, .inr ⟨p, flag, d, q, hp, hq, hflag, rfl, hwords⟩⟩

/-- **An operation computes its value in all lanes.** -/
theorem triple_opCode (hseparate : source.Separate program)
    (hreads : source.Reads program reading pass s) (hlt : position < program.ops.length)
    (hd : source.Holds position d) (hcode : OpCode source program.ops[position] d code) :
    Triple (source.Computed program reading pass s position) code code.length
      (source.Computed program reading pass s (position + 1)) := by
  have hpos : 0 < pass.width := hreads.width ▸ BodyKind.width_pos _ _
  cases hop : program.ops[position] with
  | input p =>
    rw [hop] at hcode
    obtain ⟨q, flag, hq, hflag, rfl⟩ := hcode
    exact triple_load hseparate hreads hlt hd hop hq hflag
  | const value =>
    rw [hop] at hcode
    refine triple_computes hseparate hreads.width hlt hd hcode fun trace t h j hj => ?_
    rw [hop]
    rfl
  | broadcast a =>
    rw [hop] at hcode
    obtain ⟨ra, ha, hcode⟩ := hcode
    refine triple_computes hseparate hreads.width hlt hd hcode fun trace t h j hj => ?_
    have hvalue := h.operand hlt (by simp [hop, MicroOp.operands]) ha (j := Lanes.firstLane) hpos
    rw [hop, MicroOp.valueFrom, hreads.start j hj]
    exact hvalue
  | binary op a b =>
    rw [hop] at hcode
    obtain ⟨ra, rb, ha, hb, hcode⟩ := hcode
    refine triple_computes hseparate hreads.width hlt hd hcode fun trace t h j hj => ?_
    rw [h.operand hlt (by simp [hop, MicroOp.operands]) ha hj,
      h.operand hlt (by simp [hop, MicroOp.operands]) hb hj, hop, MicroOp.valueFrom, hreads.arith]
  | fma a b c =>
    rw [hop] at hcode
    obtain ⟨ra, rb, rc, ha, hb, hc, hcode⟩ := hcode
    refine triple_computes hseparate hreads.width hlt hd hcode fun trace t h j hj => ?_
    rw [h.operand hlt (by simp [hop, MicroOp.operands]) ha hj,
      h.operand hlt (by simp [hop, MicroOp.operands]) hb hj,
      h.operand hlt (by simp [hop, MicroOp.operands]) hc hj, hop, MicroOp.valueFrom, hreads.arith,
      hseparate.swapsFactors (List.getElem?_eq_some_iff.2 ⟨hlt, hop⟩) hd ha hc]
  | unary op a =>
    rw [hop] at hcode
    obtain ⟨ra, ha, hcode⟩ := hcode
    refine triple_computes hseparate hreads.width hlt hd hcode fun trace t h j hj => ?_
    rw [h.operand hlt (by simp [hop, MicroOp.operands]) ha hj, hop, MicroOp.valueFrom, hreads.arith]

end Operations

/-! ## Stores -/

/-- **A store writes the values of an output.** -/
theorem triple_storeCode (hseparate : source.Separate program)
    (hreads : source.Reads program reading pass s) {targets : List Target}
    (hwrites : source.Writes program reading pass s targets) {count value : Nat} {code : Code}
    (hvalue : program.outputs[count]? = some value)
    (hcode : StoreCode source value (program.inputs + count) code) :
    Triple (source.Stored program reading pass s targets count) code 1
      (source.Stored program reading pass s targets (count + 1)) := by
  obtain ⟨q, r, hq, hr, rfl⟩ := hcode
  obtain ⟨hlt, -⟩ := List.getElem?_eq_some_iff.1 hvalue
  obtain ⟨target, htarget, htargetValue⟩ :
      ∃ target, targets[count]? = some target ∧ target.value = program.valueAt reading value := by
    have hget := congrArg (·[count]?) hwrites.value
    simpa [hvalue] using hget
  have hpointer := hseparate.pointers _ q (by rw [params]; omega) hq
  have htake : targets.take (count + 1) = targets.take count ++ [target] := by
    rw [List.take_add_one, htarget]
    rfl
  refine Triple.single storeInstruction_plain fun trace t h => ?_
  have hwords := h.words q hpointer
  obtain ⟨hexec, hstores⟩ := exec_storeInstruction (q := q) (r := r) target hreads.width
    (hwords.trans (hwrites.start count target q htarget hq)) fun j hj => by
      rw [htargetValue]
      exact h.value value (List.mem_of_getElem? hvalue) r hr j hj
  rw [hexec]
  refine ⟨?_, ?_, h.words, h.value, fun v hv => ?_⟩
  · rw [htake, Pass.store_append, ← h.memory]
    rfl
  · rw [htake, storesOf_append, h.spans, storesOf_cons, hstores, List.map_append]
    rfl
  · rcases List.mem_append.1 hv with hv | hv
    · exact h.stores v hv
    · obtain rfl := List.mem_singleton.1 hv
      exact ⟨count, q, r, hlt, hq, rfl, hwords⟩

end BodySource

/-! ## Bodies -/

/-- **A body stores the values of all outputs.** It consists of code that does not store and of code that
does nothing else.

**Proof sketch.** The operations are executed in order, each of them leading from the state in front
of it to the state in front of the next one; then the outputs are stored one after the other. -/
theorem IsBody.exists_run {program : Program} {source : BodySource} {code : Code}
    (hcode : program.IsBody source code) (hseparate : source.Separate program) {reading : Reading}
    {pass : Pass} {s : MachineState} (hreads : source.Reads program reading pass s)
    {targets : List Target} (hwrites : source.Writes program reading pass s targets) :
    ∃ loading storing t, Runs code s (loading ++ storing) t ∧
      (loading ++ storing).length ≤ code.length ∧ (∀ v ∈ loading, source.Loads program s v) ∧
      source.Stored program reading pass s targets targets.length storing t := by
  obtain ⟨computed, stored, rfl, hcomputed, hstored⟩ := hcode.split hseparate.free
  have hlen : computed.length = program.ops.length := by
    rw [← hcomputed.length_eq, List.length_zipIdx]
  have hlen' : stored.length = program.outputs.length := by
    rw [← hstored.length_eq, List.length_zipIdx]
  have hbegin := Triple.flatten (source.Computed program reading pass s)
    fun k (hk : k < computed.length) => by
      have hlt : k < program.ops.length := by omega
      have hop := hcomputed.get (i := k) (by rw [List.length_zipIdx]; omega) (by omega)
      rw [List.get_eq_getElem, List.getElem_zipIdx, Nat.zero_add] at hop
      obtain ⟨d, hd, hop⟩ := hop
      exact BodySource.triple_opCode hseparate hreads hlt hd hop
  have hend := Triple.flatten (source.Stored program reading pass s targets)
    fun k (hk : k < stored.length) => by
      have hstore := hstored.get (i := k) (by rw [List.length_zipIdx]; omega) (by omega)
      rw [List.get_eq_getElem, List.getElem_zipIdx, Nat.zero_add] at hstore
      have hone : stored[k].length = 1 := by
        obtain ⟨_, _, _, _, hcode⟩ := hstore
        exact congrArg List.length hcode
      rw [hone]
      exact BodySource.triple_storeCode hseparate hreads hwrites
        (List.getElem?_eq_getElem (by omega)) hstore
  obtain ⟨loading, u, hruns, hle, hu⟩ := hbegin [] s ⟨rfl, fun _ _ => rfl, by simp, by simp⟩
  obtain ⟨storing, t, hruns', hle', ht⟩ := hend [] u ⟨hu.memory, rfl, hu.words,
    fun v hv => hu.value v (hlen ▸ program.wellFormed.outputs_lt v hv) (.inl hv), by simp⟩
  have htargets : targets.length = stored.length := by
    simpa [hlen'] using congrArg List.length hwrites.value
  rw [List.nil_append] at hu ht
  refine ⟨loading, storing, t, hruns.append hruns', ?_, hu.loads, htargets ▸ ht⟩
  rw [List.length_append, List.length_append]
  omega

end Program

end Pointwise
