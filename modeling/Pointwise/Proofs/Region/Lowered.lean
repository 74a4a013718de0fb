import Pointwise.Proofs.Region.Simulation

/-!
# Lowered programs

Whatever pools its registers are drawn from, the body of a lowered program computes what the program
says. The registers of the values are different as far as they have to be, since the numbers of the pool
are; the registers for auxiliary use are only required not to be among the allocated ones. Each pool is
asked for its last register, so that nothing is required of the others.

## Main definitions

* `LoweredProgram.body` — the body of a kind.
* `Program.drawnSource` — a body with registers from pools.
* `Program.laneReading`, `Program.laneTargets` — what a body finds in a state, lane by lane, and what it
  has to store.

## Main results

* `Region.emit_getLast?` — code depends on the last registers of the pools.
* `Program.lower_simulates` — the bodies of a lowered program compute it.
-/

set_option autoImplicit false

namespace Pointwise

open Machine

/-- The body of a kind. -/
def LoweredProgram.body (lowered : LoweredProgram) : BodyKind → Region
  | .vector => lowered.vector
  | .scalar => lowered.scalar

/-! ## Auxiliary registers -/

section Auxiliary

variable {vecs gprs : List Nat}

/-- The code of a leaf operation depends on the last registers of the pools only. -/
theorem LeafOp.emit_getLast? (op : LeafOp) (input output : List Nat) :
    op.emit input output vecs.getLast?.toList gprs.getLast?.toList = op.emit input output vecs gprs := by
  unfold LeafOp.emit
  split <;> simp only [Leaf.unary, Leaf.auxiliaryVec_getLast?, Leaf.auxiliaryGpr_getLast?]

/-- So does the code of a list of them. -/
theorem Region.emit_getLast? {body : Region}
    (hleaf : ∀ e ∈ body, ∃ op input output, e = .leaf op input output) :
    Region.emit vecs.getLast?.toList gprs.getLast?.toList body = Region.emit vecs gprs body := by
  induction body with
  | nil => rfl
  | cons e body ih =>
    rw [List.forall_mem_cons] at hleaf
    obtain ⟨⟨op, input, output, rfl⟩, hrest⟩ := hleaf
    rw [Region.emit, Region.emit, Entry.emit, Entry.emit, LeafOp.emit_getLast?, ih hrest]

end Auxiliary

namespace Program

/-! ## The registers of a body -/

section Registers

variable {program : Program} {w : VectorWidth} {kind : BodyKind} {flags : List Bool}
  {vecs gprs : List Nat} {region body : Region}
  (hregion : program.body w kind flags program.registers.registers = .ok region)
  (hbody : Region.allocateAll vecs gprs region = .ok body)
include hregion hbody

/-- The register of a value occurs in a body. -/
theorem mem_occurring_of_value {value number : Nat}
    (hvalue : program.registers.registers[value]? = some number) :
    ∃ d, vecs[number]? = some d ∧ d ∈ Region.occurring .vec body := by
  obtain ⟨hlt, -⟩ := List.getElem?_eq_some_iff.1 hvalue
  rw [program.keeps_registers.length] at hlt
  obtain ⟨target, e, e', htarget, he', hentry, hallocate⟩ :=
    entry_of_op hregion hbody (List.getElem?_eq_getElem hlt)
  obtain rfl := Option.some.inj (hvalue.symm.trans htarget)
  obtain ⟨d, hd, hload, hcompute⟩ := leaf_of_entryOf hentry hallocate
  refine ⟨d, hd, Region.mem_occurring.2 ⟨e', List.mem_of_getElem? he', ?_⟩⟩
  by_cases hinput : ∃ p, program.ops[value] = .input p
  · obtain ⟨p, hp⟩ := hinput
    obtain ⟨flag, pointer, -, -, rfl⟩ := hload p hp
    simp [Entry.occurring, dataFlow_loadOp, DataFlow.operandsOf, DataFlow.outputKind]
  · obtain ⟨leaf, input, input', hflow, -, -, rfl⟩ := hcompute fun p hp => hinput ⟨p, hp⟩
    simp [Entry.occurring, hflow, DataFlow.operandsOf, DataFlow.outputKind]

/-- The register of a parameter occurs in a body, as each input is read and each output stored. -/
theorem mem_occurring_of_param {p : Nat} (hp : p < program.params) :
    ∃ r, gprs[p]? = some r ∧ r ∈ Region.occurring .gpr body := by
  rcases Nat.lt_or_ge p program.inputs with hinput | houtput
  · obtain ⟨i, hi⟩ := List.mem_iff_getElem?.1 ((program.wellFormed.input_mem_iff p).2 hinput)
    obtain ⟨target, e, e', -, he', hentry, hallocate⟩ := entry_of_op hregion hbody hi
    obtain ⟨d, -, hload, -⟩ := leaf_of_entryOf hentry hallocate
    obtain ⟨flag, pointer, -, hpointer, rfl⟩ := hload p rfl
    refine ⟨pointer, hpointer, Region.mem_occurring.2 ⟨_, List.mem_of_getElem? he', ?_⟩⟩
    simp [Entry.occurring, dataFlow_loadOp, DataFlow.operandsOf, DataFlow.inputKind]
  · obtain ⟨k, rfl⟩ := Nat.exists_eq_add_of_le houtput
    rw [params] at hp
    obtain ⟨e, e', he', hentry, hallocate⟩ :=
      entry_of_store hregion hbody (List.getElem?_eq_getElem (by omega : k < program.outputs.length))
    obtain ⟨pointer, number, a, hpointer, -, -, rfl⟩ := leaf_of_storeEntry hentry hallocate
    refine ⟨pointer, hpointer, Region.mem_occurring.2 ⟨_, List.mem_of_getElem? he', ?_⟩⟩
    simp [Entry.occurring, dataFlow_storeOp, DataFlow.operandsOf, DataFlow.inputKind,
      DataFlow.outputKind]

/-- A body consists of leaf operations. -/
theorem leaf_of_body : ∀ e ∈ body, ∃ op input output, e = .leaf op input output := by
  intro e he
  obtain ⟨i, hi⟩ := List.mem_iff_getElem?.1 he
  obtain ⟨hlt, -⟩ := List.getElem?_eq_some_iff.1 hi
  rw [length_of_body hregion hbody] at hlt
  rcases Nat.lt_or_ge i program.ops.length with hop | hstore
  · obtain ⟨target, e, e', -, he', hentry, hallocate⟩ :=
      entry_of_op hregion hbody (List.getElem?_eq_getElem hop)
    obtain rfl := Option.some.inj (hi.symm.trans he')
    obtain ⟨d, -, hload, hcompute⟩ := leaf_of_entryOf hentry hallocate
    by_cases hinput : ∃ p, program.ops[i] = .input p
    · obtain ⟨p, hp⟩ := hinput
      obtain ⟨flag, pointer, -, -, rfl⟩ := hload p hp
      exact ⟨_, _, _, rfl⟩
    · obtain ⟨leaf, input, input', -, -, -, rfl⟩ := hcompute fun p hp => hinput ⟨p, hp⟩
      exact ⟨_, _, _, rfl⟩
  · obtain ⟨k, rfl⟩ := Nat.exists_eq_add_of_le hstore
    obtain ⟨e, e', he', hentry, hallocate⟩ :=
      entry_of_store hregion hbody (List.getElem?_eq_getElem (by omega : k < program.outputs.length))
    obtain rfl := Option.some.inj (hi.symm.trans he')
    obtain ⟨pointer, number, a, -, -, -, rfl⟩ := leaf_of_storeEntry hentry hallocate
    exact ⟨_, _, _, rfl⟩

end Registers

/-- Parameters are addressed through registers, if there is code for a body. -/
theorem IsBody.exists_pointer {program : Program} {source : BodySource} {code : Code}
    (hcode : program.IsBody source code) (hfree : ∀ r ∈ source.registers, r ∉ source.vecs) {p : Nat}
    (hp : p < program.params) : ∃ q : Register, source.pointers[p]? = some q.val := by
  obtain ⟨computed, stored, -, hcomputed, hstored⟩ := hcode.split hfree
  rcases Nat.lt_or_ge p program.inputs with hinput | houtput
  · obtain ⟨i, hi, hop⟩ := List.getElem_of_mem ((program.wellFormed.input_mem_iff p).2 hinput)
    have hlen := hcomputed.length_eq
    rw [List.length_zipIdx] at hlen
    have hcode := hcomputed.get (i := i) (by rw [List.length_zipIdx]; omega) (by omega)
    rw [List.get_eq_getElem, List.getElem_zipIdx] at hcode
    obtain ⟨d, -, hcode⟩ := hcode
    rw [hop] at hcode
    obtain ⟨q, -, hq, -, -⟩ := hcode
    exact ⟨q, hq⟩
  · obtain ⟨k, rfl⟩ := Nat.exists_eq_add_of_le houtput
    rw [params] at hp
    have hlen := hstored.length_eq
    rw [List.length_zipIdx] at hlen
    have hcode := hstored.get (i := k) (by rw [List.length_zipIdx]; omega) (by omega)
    rw [List.get_eq_getElem, List.getElem_zipIdx, Nat.zero_add] at hcode
    obtain ⟨q, r, hq, -, -⟩ := hcode
    exact ⟨q, hq⟩

/-! ## Lane by lane -/

/-- What a body finds in a state, lane by lane: the elements behind the pointers of the inputs, or the
one at the pointer of an input that is broadcast. A broadcast takes the value of the first lane. -/
def laneReading (broadcast : List Bool) (pointer : Nat → Register) (s : MachineState) : Reading where
  arith := .vector
  start _ := 0
  input p lane := s.element (pointer p) (if broadcast.getD p false then 0 else lane)

/-- What a body has to store: at the pointer of each output its values, lane by lane. -/
def laneTargets (program : Program) (broadcast : List Bool) (pointer : Nat → Register)
    (s : MachineState) : List Target :=
  program.outputs.zipIdx.map fun (value, k) =>
    ⟨s.words.get (pointer (program.inputs + k)),
      program.valueAt (laneReading broadcast pointer s) value⟩

section Lanes

variable {program : Program} {source : BodySource} {pointer : Nat → Register}
  (hpointer : ∀ p < program.params, source.pointers[p]? = some (pointer p).val) (s : MachineState)
include hpointer

/-- A body finds the elements at the pointers. -/
theorem reads_laneReading : source.Reads program (laneReading source.broadcast pointer s)
    ⟨0, source.kind.width source.w⟩ s where
  width := rfl
  arith := rfl
  start _ _ := rfl
  input p q flag hp hq hflag j _ := by
    have hsame := hpointer p (by rw [params]; omega)
    obtain rfl : pointer p = q := Fin.ext (Option.some.inj (hsame.symm.trans hq))
    simp [laneReading, hflag]

/-- It has to store the values of the outputs there. -/
theorem writes_laneTargets : source.Writes program (laneReading source.broadcast pointer s)
    ⟨0, source.kind.width source.w⟩ s (program.laneTargets source.broadcast pointer s) where
  value := by
    refine List.ext_getElem (by simp [laneTargets]) fun k _ _ => ?_
    simp [laneTargets]
  start k target q htarget hq := by
    obtain ⟨hk, rfl⟩ := List.getElem?_eq_some_iff.1 htarget
    have hlt : k < program.outputs.length := by simpa [laneTargets] using hk
    have hsame := hpointer (program.inputs + k) (by rw [params]; omega)
    obtain rfl : pointer (program.inputs + k) = q :=
      Fin.ext (Option.some.inj (hsame.symm.trans hq))
    simp [laneTargets, Pass.span]

end Lanes

/-! ## Lowering -/

section Lower

variable {program : Program} {broadcast : List Bool} {w : VectorWidth} {lowered : LoweredProgram}
  {vecPool gprPool vecs gprs : List Nat} {kind : BodyKind} {allocation : Allocation} {code : Code}

/-- The bodies of a lowered program. -/
theorem body_of_lower (h : program.lower broadcast w = .ok lowered) (kind : BodyKind) :
    program.body w kind broadcast program.registers.registers = .ok (lowered.body kind) := by
  obtain ⟨-, h⟩ := Checked.require_bind_eq_ok.1 h
  obtain ⟨-, h⟩ := Checked.require_bind_eq_ok.1 h
  obtain ⟨vector, hvector, h⟩ := Checked.bind_eq_ok.1 h
  obtain ⟨scalar, hscalar, h⟩ := Checked.bind_eq_ok.1 h
  obtain rfl := Checked.pure_eq_ok.1 h
  cases kind
  · exact hvector
  · exact hscalar

/-- A body whose values have the registers of a pool at their numbers, and which uses the last registers of
two other pools for itself. -/
def drawnSource (program : Program) (broadcast : List Bool) (w : VectorWidth) (kind : BodyKind)
    (vecPool gprPool vecs gprs : List Nat) : BodySource where
  w := w
  kind := kind
  broadcast := broadcast
  registers := program.registers.registers.map (vecPool.getD · 0)
  pointers := gprPool
  vecs := vecs.getLast?.toList
  gprs := gprs.getLast?.toList

section Drawn

variable {region body : Region}
  (hregion : program.body w kind broadcast program.registers.registers = .ok region)
  (hbody : Region.allocateAll vecPool gprPool region = .ok body)
include hregion hbody

/-- The register of a value is the one at its number, and it occurs in the body. -/
theorem exists_of_drawn {value r : Nat}
    (h : (program.drawnSource broadcast w kind vecPool gprPool vecs gprs).registers[value]? = some r) :
    ∃ number : Nat, program.registers.registers[value]? = some number ∧ vecPool[number]? = some r ∧
      r ∈ Region.occurring .vec body := by
  obtain ⟨number, hnumber, rfl⟩ := Option.map_eq_some_iff.1 (List.getElem?_map.symm.trans h)
  obtain ⟨d, hd, hoccurs⟩ := mem_occurring_of_value hregion hbody hnumber
  rw [List.getD_eq_getElem?_getD, hd]
  exact ⟨number, hnumber, hd, hoccurs⟩

/-- It is a body of the program. -/
theorem isBody_drawn (hemit : Region.emit vecs gprs body = .ok code) :
    program.IsBody (program.drawnSource broadcast w kind vecPool gprPool vecs gprs) code := by
  refine ⟨vecPool, _, body, ?_, hregion, hbody, ?_⟩
  · intro value number r hnumber hr
    rw [drawnSource, List.getElem?_map, hnumber, Option.map_some, List.getD_eq_getElem?_getD, hr]
    rfl
  · exact (Region.emit_getLast? (leaf_of_body hregion hbody)).trans hemit

/-- **Its registers do not get in each other's way.** Values share a register if they have the same number,
and only then, as the pool has no duplicates. The registers for auxiliary use are others, as
those of the values and of the parameters occur in the body. -/
theorem separate_drawn (hpool : vecPool.Nodup)
    (hvec : ∀ r ∈ Region.occurring .vec body, r ∉ vecs.getLast?.toList)
    (hgpr : ∀ r ∈ Region.occurring .gpr body, r ∉ gprs.getLast?.toList) :
    (program.drawnSource broadcast w kind vecPool gprPool vecs gprs).Separate program where
  shares {value value' r r'} hr hr' := by
    obtain ⟨number, hnumber, hget, -⟩ := exists_of_drawn hregion hbody hr
    obtain ⟨number', hnumber', hget', -⟩ := exists_of_drawn hregion hbody hr'
    obtain ⟨hlength, -⟩ := List.getElem?_eq_some_iff.1 hget
    rw [hnumber, hnumber', Option.some_inj, ← List.getElem?_inj hlength hpool, hget, hget',
      Option.some_inj, Fin.ext_iff]
  free r hr := by
    obtain ⟨value, hvalue⟩ := List.mem_iff_getElem?.1 hr
    obtain ⟨-, -, -, hoccurs⟩ := exists_of_drawn hregion hbody hvalue
    exact hvec r hoccurs
  pointers p q hp hq := by
    obtain ⟨r, hr, hoccurs⟩ := mem_occurring_of_param hregion hbody hp
    obtain rfl : r = q.val := Option.some.inj (hr.symm.trans hq)
    exact hgpr _ hoccurs

end Drawn

/-- **The bodies of a lowered program compute it.** Run from any state, the code of a body first loads and
then stores, at the pointer of each output the value of the program for each lane, and nothing else. The
values are those for the elements at the pointers of the inputs. Registers are drawn from any pool without
duplicates; the registers for auxiliary use, the last ones of their pools, are not among the allocated
ones.

**Proof sketch.** Every value has the register of the pool at its number. The numbers of two values that
are needed at the same time are different, and so are the registers; they occur in the allocated body, as
do the pointers of all parameters, so that the auxiliary registers are different from them. -/
theorem lower_simulates (hlower : program.lower broadcast w = .ok lowered) (hpool : vecPool.Nodup)
    (hallocate : Region.allocate vecPool gprPool (lowered.body kind) = .ok allocation)
    (hemit : Region.emit vecs gprs allocation.region = .ok code)
    (hvec : ∀ r, vecs.getLast? = some r → r ∉ allocation.vecs)
    (hgpr : ∀ r, gprs.getLast? = some r → r ∉ allocation.gprs) :
    ∃ pointer : Nat → Register, (∀ p < program.params, gprPool[p]? = some (pointer p).val) ∧
      ∀ s : MachineState, ∃ loading storing t, Runs code s (loading ++ storing) t ∧
        (∀ v ∈ loading, v.1.stores v.2 = []) ∧ (∀ v ∈ storing, v.1.loads v.2 = []) ∧
        storesOf storing =
          (program.laneTargets broadcast pointer s).map (Pass.span ⟨0, kind.width w⟩) ∧
        t.memory =
          Pass.store (program.laneTargets broadcast pointer s) s.memory ⟨0, kind.width w⟩ ∧
        ∀ p < program.params, t.words.get (pointer p) = s.words.get (pointer p) := by
  have hregion := body_of_lower hlower kind
  obtain ⟨-, hallocate⟩ := Checked.require_bind_eq_ok.1 hallocate
  obtain ⟨body, hbody, hallocate⟩ := Checked.bind_eq_ok.1 hallocate
  obtain rfl := Checked.pure_eq_ok.1 hallocate
  have hcode := isBody_drawn hregion hbody hemit
  -- the registers that are allocated are not the auxiliary ones
  have hseparate := separate_drawn hregion hbody hpool
    (fun r hr hlast => hvec r (Option.mem_toList.1 hlast) ((ascending_spec _).2 r |>.2 hr))
    (fun r hr hlast => hgpr r (Option.mem_toList.1 hlast) ((ascending_spec _).2 r |>.2 hr))
  choose! pointer hpointer using fun (p : Nat) (hp : p < program.params) =>
    hcode.exists_pointer hseparate.free hp
  refine ⟨pointer, hpointer, fun s => ?_⟩
  obtain ⟨loading, storing, t, hruns, -, hloads, ht⟩ := hcode.exists_run hseparate
    (reads_laneReading hpointer s) (writes_laneTargets hpointer s)
  have hmemory := ht.memory
  have hspans := ht.spans
  rw [List.take_length] at hmemory hspans
  refine ⟨loading, storing, t, hruns, fun v hv => (hloads v hv).1, fun v hv => ?_, hspans, hmemory,
    fun p hp => ht.words _ (hseparate.pointers p _ hp (hpointer p hp))⟩
  obtain ⟨k, q, r, -, -, hinstruction, -⟩ := ht.stores v hv
  rw [hinstruction, loads_storeInstruction]

theorem wellFormed_cutOff : WellFormed [.input 0, .input 1, .broadcast 1, .binary .sub 0 2,
    .unary .relu 3, .unary .neg 4, .fma 5 1 4] [6, 4] 2 where
  ops_ne_nil := by decide
  outputs_ne_nil := by decide
  operands_lt := by decide
  outputs_lt := by decide
  input_mem_iff p := by
    simp
    omega
  params_le := by decide

/-- The program that subtracts the first element of the second input in each pass, cuts the result off at
zero, and also adds to it its own negative multiple by the second input. -/
def cutOff : Program where
  ops := [.input 0, .input 1, .broadcast 1, .binary .sub 0 2, .unary .relu 3, .unary .neg 4,
    .fma 5 1 4]
  outputs := [6, 4]
  inputs := 2
  wellFormed := wellFormed_cutOff

/-- The vector body of a program whose second input is broadcast, with registers from pools in no
particular order. -/
theorem lower_simulates_of_cutOff : ∃ lowered allocation code,
    cutOff.lower [false, true] .ymm = .ok lowered ∧ [9, 2, 5, 11].Nodup ∧
      Region.allocate [9, 2, 5, 11] [7, 3, 10, 12] (lowered.body .vector) = .ok allocation ∧
      Region.emit [0, 15] [8] allocation.region = .ok code ∧
      (∀ r, [0, 15].getLast? = some r → r ∉ allocation.vecs) ∧
      (∀ r, [8].getLast? = some r → r ∉ allocation.gprs) ∧
      ∃ pointer : Nat → Register,
        (∀ p < cutOff.params, [7, 3, 10, 12][p]? = some (pointer p).val) ∧
        ∀ s : MachineState, ∃ loading storing t, Runs code s (loading ++ storing) t ∧
          (∀ v ∈ loading, v.1.stores v.2 = []) ∧ (∀ v ∈ storing, v.1.loads v.2 = []) ∧
          storesOf storing = (cutOff.laneTargets [false, true] pointer s).map
            (Pass.span ⟨0, BodyKind.vector.width .ymm⟩) ∧
          t.memory = Pass.store (cutOff.laneTargets [false, true] pointer s) s.memory
            ⟨0, BodyKind.vector.width .ymm⟩ ∧
          ∀ p < cutOff.params, t.words.get (pointer p) = s.words.get (pointer p) := by
  have hpool : [9, 2, 5, 11].Nodup := by decide
  have hsimulates := @lower_simulates cutOff [false, true] .ymm _ [9, 2, 5, 11] [7, 3, 10, 12] [0, 15]
    [8] .vector _ _ rfl hpool rfl rfl
  refine ⟨_, _, _, rfl, hpool, rfl, rfl, fun r hr => ?_, fun r hr => ?_,
    hsimulates (fun r hr => ?_) fun r hr => ?_⟩ <;>
  · obtain rfl := Option.some.inj hr
    decide

end Lower

end Program

end Pointwise
