import Pointwise.Kernel.Basic
import Pointwise.Program.Lowering
import Pointwise.Proofs.Program.Registers
import Pointwise.Proofs.Region.Leaf

/-!
# The code of bodies and schedulers

A body is lowered, gets its registers and becomes code entry by entry. What comes out is the code of
the operations, in order, followed by that of the stores. A value is kept in the register at the place of
its number in the pool of vector registers, and parameter `p` is addressed through the register at place
`p` of the general pool. A scheduler takes the last two registers of that pool for itself and leaves the
others to its bodies.

## Main definitions

* `Program.IsBody` — code that a body of the program becomes.
* `Program.OpCode`, `Program.StoreCode` — the code of an operation and of a store.

## Main results

* `Program.IsBody.split` — the code of a body by operations and stores.
* `Entry.emit_scheduler_eq_ok` — the registers in which a scheduler keeps the work amounts.
-/

set_option autoImplicit false

namespace Pointwise

open Machine

/-- Relations along two lists, one after the other. -/
theorem forall₂_comp {α β γ : Type} {R : α → β → Prop} {S : β → γ → Prop} {list : List α}
    {list' : List β} {list'' : List γ} (h : List.Forall₂ R list list')
    (h' : List.Forall₂ S list' list'') :
    List.Forall₂ (fun a c => ∃ b, R a b ∧ S b c) list list'' := by
  induction h generalizing list'' with
  | nil =>
    cases h'
    exact .nil
  | cons hab _ ih =>
    cases h' with
    | cons hbc hrest => exact .cons ⟨_, hab, hbc⟩ (ih hrest)

/-- A relation along a list and one that is found entry by entry. -/
theorem exists_forall₂ {α β : Type} {R : α → β → Prop} {list : List α} (h : ∀ a ∈ list, ∃ b, R a b) :
    ∃ list', List.Forall₂ R list list' := by
  induction list with
  | nil => exact ⟨[], .nil⟩
  | cons a list ih =>
    rw [List.forall_mem_cons] at h
    obtain ⟨b, hb⟩ := h.1
    obtain ⟨list', hlist⟩ := ih h.2
    exact ⟨b :: list', .cons hb hlist⟩

/-! ## Entries -/

/-- Entries get their registers one by one. -/
theorem Region.allocateAll_eq_ok {vecs gprs : List Nat} {entries allocated : List Entry} :
    Region.allocateAll vecs gprs entries = .ok allocated ↔
      List.Forall₂ (fun e e' => e.allocate vecs gprs = .ok e') entries allocated := by
  induction entries generalizing allocated with
  | nil =>
    rw [Region.allocateAll, Checked.pure_eq_ok]
    exact ⟨fun h => h ▸ .nil, fun h => by cases h; rfl⟩
  | cons e entries ih =>
    simp only [Region.allocateAll, Checked.bind_eq_ok, Checked.pure_eq_ok]
    constructor
    · rintro ⟨e', he, rest, hrest, rfl⟩
      exact .cons he (ih.1 hrest)
    · intro h
      cases h with
      | cons he hrest => exact ⟨_, he, _, ih.2 hrest, rfl⟩

/-- The code of a region is that of its entries, one after the other. -/
theorem Region.emit_eq_ok {vecs gprs : List Nat} {entries : List Entry} {code : Code} :
    Region.emit vecs gprs entries = .ok code ↔
      ∃ codes, List.Forall₂ (fun e c => e.emit vecs gprs = .ok c) entries codes ∧
        code = codes.flatten := by
  induction entries generalizing code with
  | nil =>
    rw [Region.emit, Checked.pure_eq_ok]
    constructor
    · rintro rfl
      exact ⟨[], .nil, rfl⟩
    · rintro ⟨codes, h, rfl⟩
      cases h
      rfl
  | cons e entries ih =>
    simp only [Region.emit, Checked.bind_eq_ok, Checked.pure_eq_ok]
    constructor
    · rintro ⟨c, hc, rest, hrest, rfl⟩
      obtain ⟨codes, hcodes, rfl⟩ := ih.1 hrest
      exact ⟨c :: codes, .cons hc hcodes, rfl⟩
    · rintro ⟨codes, h, rfl⟩
      cases h with
      | cons hc hcodes => exact ⟨_, hc, _, ih.2 ⟨_, hcodes, rfl⟩, rfl⟩

/-- The vector registers of a kernel keep their numbers. -/
theorem Kernel.getElem?_vecPool {i r : Nat} (h : Kernel.vecPool[i]? = some r) : r = i := by
  obtain ⟨hi, rfl⟩ := List.getElem?_eq_some_iff.1 h
  exact List.getElem_range _

/-- So do lists of them. -/
theorem Kernel.eq_of_map_vecPool {numbers registers : List Nat}
    (h : numbers.map (Kernel.vecPool[·]?) = registers.map some) : registers = numbers := by
  induction numbers generalizing registers with
  | nil => simpa using h.symm
  | cons i numbers ih =>
    cases registers with
    | nil => simp at h
    | cons r registers =>
      rw [List.map_cons, List.map_cons, List.cons.injEq] at h
      rw [Kernel.getElem?_vecPool h.1, ih h.2]

/-- A single number is replaced by the register at its place. -/
theorem Region.replaceRegisters_singleton {owner : String} {kind : RegisterKind}
    {pool registers : List Nat} {i : Nat}
    (h : Region.replaceRegisters owner kind pool [i] = .ok registers) :
    ∃ r, registers = [r] ∧ pool[i]? = some r := by
  rw [Region.replaceRegisters_eq_ok] at h
  obtain ⟨r, rfl⟩ : ∃ r, registers = [r] :=
    List.length_eq_one_iff.1 (by simpa using (congrArg List.length h).symm)
  exact ⟨r, rfl, by simpa using h⟩

/-- The registers of a region are those of its entries. -/
theorem Region.mem_occurring {kind : RegisterKind} {entries : List Entry} {r : Nat} :
    r ∈ Region.occurring kind entries ↔ ∃ e ∈ entries, r ∈ e.occurring kind := by
  induction entries with
  | nil => simp [Region.occurring]
  | cons e entries ih => simp [Region.occurring, ih]

section Allocate

variable {op : LeafOp} {vecs gprs input output : List Nat} {e : Entry}

/-- An operation that computes has all its registers from the pool of vector registers. -/
theorem Entry.allocate_vecToVec (hflow : op.dataFlow = .vecToVec)
    (h : (Entry.leaf op input output).allocate vecs gprs = .ok e) :
    ∃ input' output', input.map (vecs[·]?) = input'.map some ∧
      output.map (vecs[·]?) = output'.map some ∧ e = .leaf op input' output' := by
  simp only [Entry.allocate, hflow, Region.replaceInputs, Region.replaceOutputs,
    DataFlow.inputKind, DataFlow.outputKind, Checked.bind_eq_ok, Checked.pure_eq_ok,
    Region.replaceRegisters_eq_ok] at h
  obtain ⟨input', hinput, output', houtput, rfl⟩ := h
  exact ⟨input', output', hinput, houtput, rfl⟩

/-- An operation that loads addresses its parameter through the general pool. -/
theorem Entry.allocate_gprToVec {p target : Nat} (hflow : op.dataFlow = .gprToVec)
    (h : (Entry.leaf op [p] [target]).allocate vecs gprs = .ok e) :
    ∃ r d, gprs[p]? = some r ∧ vecs[target]? = some d ∧ e = .leaf op [r] [d] := by
  simp only [Entry.allocate, hflow, Region.replaceInputs, Region.replaceOutputs,
    DataFlow.inputKind, DataFlow.outputKind, Checked.bind_eq_ok, Checked.pure_eq_ok] at h
  obtain ⟨input', hinput, output', houtput, rfl⟩ := h
  obtain ⟨r, rfl, hr⟩ := Region.replaceRegisters_singleton hinput
  obtain ⟨d, rfl, hd⟩ := Region.replaceRegisters_singleton houtput
  exact ⟨r, d, hr, hd, rfl⟩

/-- An operation that stores does so as well. -/
theorem Entry.allocate_vecToGpr {value p : Nat} (hflow : op.dataFlow = .vecToGpr)
    (h : (Entry.leaf op [value] [p]).allocate vecs gprs = .ok e) :
    ∃ r a, gprs[p]? = some r ∧ vecs[value]? = some a ∧ e = .leaf op [a] [r] := by
  simp only [Entry.allocate, hflow, Region.replaceInputs, Region.replaceOutputs,
    DataFlow.inputKind, DataFlow.outputKind, Checked.bind_eq_ok, Checked.pure_eq_ok] at h
  obtain ⟨input', hinput, output', houtput, rfl⟩ := h
  obtain ⟨a, rfl, ha⟩ := Region.replaceRegisters_singleton hinput
  obtain ⟨r, rfl, hr⟩ := Region.replaceRegisters_singleton houtput
  exact ⟨r, a, hr, ha, rfl⟩

end Allocate

/-- Loads go from general registers to vectors. -/
theorem Program.dataFlow_loadOp (w : VectorWidth) (kind : BodyKind) (flag : Bool) :
    (loadOp w kind flag).dataFlow = .gprToVec := by
  unfold loadOp
  split <;> rfl

/-- Stores go the other way. -/
theorem Program.dataFlow_storeOp (w : VectorWidth) (kind : BodyKind) :
    (storeOp w kind).dataFlow = .vecToGpr := by
  unfold storeOp
  split <;> rfl

/-! ## The entries of a body -/

namespace Program

variable {program : Program} {w : VectorWidth} {kind : BodyKind} {flags : List Bool}
  {vecs gprs numbers : List Nat} {region body : Region}

/-- The entry of an operation, which accesses memory if it reads an input. -/
theorem leaf_of_entryOf {op : MicroOp} {target : Nat} {e e' : Entry}
    (hentry : entryOf w kind flags numbers op target = .ok e)
    (hallocate : e.allocate vecs gprs = .ok e') :
    ∃ d, vecs[target]? = some d ∧
      (∀ p, op = .input p → ∃ flag pointer, flags[p]? = some flag ∧ gprs[p]? = some pointer ∧
        e' = .leaf (loadOp w kind flag) [pointer] [d]) ∧
      ((∀ p, op ≠ .input p) → ∃ (leaf : LeafOp) (input input' : List Nat), leaf.dataFlow = .vecToVec ∧
        (∀ n ∈ input, n ∈ numbers) ∧ input.map (vecs[·]?) = input'.map some ∧
        e' = .leaf leaf input' [d]) := by
  cases op with
  | input p =>
    simp only [entryOf, Checked.bind_eq_ok, Checked.pure_eq_ok, Checked.get_eq_ok] at hentry
    obtain ⟨flag, hflag, _, rfl, _, rfl, rfl⟩ := hentry
    obtain ⟨r, d, hr, hd, rfl⟩ := Entry.allocate_gprToVec (dataFlow_loadOp w kind flag) hallocate
    refine ⟨d, hd, fun q hq => ?_, fun hne => absurd rfl (hne p)⟩
    cases hq
    exact ⟨flag, r, hflag, hr, rfl⟩
  | const | broadcast | binary | fma | unary =>
    simp only [entryOf, Checked.bind_eq_ok, Checked.pure_eq_ok] at hentry
    obtain ⟨_, rfl, input, hinput, rfl⟩ := hentry
    obtain ⟨input', output', hinput', houtput', rfl⟩ := Entry.allocate_vecToVec rfl hallocate
    obtain ⟨d, rfl⟩ : ∃ d, output' = [d] :=
      List.length_eq_one_iff.1 (by simpa using (congrArg List.length houtput').symm)
    refine ⟨d, by simpa using houtput', fun p hp => (by cases hp), fun _ =>
      ⟨_, input, input', rfl, fun n hn => ?_, hinput', rfl⟩⟩
    obtain ⟨a, -, ha⟩ := forall₂_mem_right (Checked.mapM_eq_ok.1 hinput) hn
    exact List.mem_of_getElem? (Checked.get_eq_ok.1 ha)

/-- The entry of a store. -/
theorem leaf_of_storeEntry {value param : Nat} {e e' : Entry}
    (hentry : storeEntry w kind numbers value param = .ok e)
    (hallocate : e.allocate vecs gprs = .ok e') :
    ∃ pointer number source, gprs[param]? = some pointer ∧ numbers[value]? = some number ∧
      vecs[number]? = some source ∧ e' = .leaf (storeOp w kind) [source] [pointer] := by
  simp only [storeEntry, Checked.bind_eq_ok, Checked.pure_eq_ok, Checked.get_eq_ok] at hentry
  obtain ⟨n, hn, rfl⟩ := hentry
  obtain ⟨r, a, hr, ha, rfl⟩ := Entry.allocate_vecToGpr (dataFlow_storeOp w kind) hallocate
  exact ⟨r, n, a, hr, hn, ha, rfl⟩

section Entries

variable (hregion : program.body w kind flags program.registers.registers = .ok region)
  (hbody : Region.allocateAll vecs gprs region = .ok body)
include hregion hbody

/-- The entries of a body, before and after they get their registers: those of the operations, and
behind them those of the stores. -/
theorem entries_of_body : ∃ entries stores, region = entries ++ stores ∧
    entries.length = program.ops.length ∧
    List.Forall₂ (fun (op, target) e =>
        entryOf w kind flags program.registers.registers op target = .ok e)
      (program.ops.zip program.registers.registers) entries ∧
    List.Forall₂ (fun (value, k) e =>
        storeEntry w kind program.registers.registers value (program.inputs + k) = .ok e)
      program.outputs.zipIdx stores ∧
    List.Forall₂ (fun e e' => e.allocate vecs gprs = .ok e') (entries ++ stores) body := by
  obtain ⟨entries, hentries, hregion⟩ := Checked.bind_eq_ok.1 hregion
  obtain ⟨stores, hstores, hregion⟩ := Checked.bind_eq_ok.1 hregion
  obtain rfl := Checked.pure_eq_ok.1 hregion
  have hentry := Checked.mapM_eq_ok.1 hentries
  refine ⟨entries, stores, rfl, ?_, hentry, Checked.mapM_eq_ok.1 hstores,
    Region.allocateAll_eq_ok.1 hbody⟩
  rw [← hentry.length_eq, List.length_zip, program.keeps_registers.length, Nat.min_self]

/-- A body has one entry for each operation and each output. -/
theorem length_of_body : body.length = program.ops.length + program.outputs.length := by
  obtain ⟨entries, stores, rfl, hlen, -, hstores, hall⟩ := entries_of_body hregion hbody
  rw [← hall.length_eq, List.length_append, hlen, ← hstores.length_eq, List.length_zipIdx]

/-- The entry of an operation, before and after it gets its registers. -/
theorem entry_of_op {i : Nat} {op : MicroOp} (hi : program.ops[i]? = some op) :
    ∃ (target : Nat) (e e' : Entry), program.registers.registers[i]? = some target ∧
      body[i]? = some e' ∧ entryOf w kind flags program.registers.registers op target = .ok e ∧
      e.allocate vecs gprs = .ok e' := by
  obtain ⟨entries, stores, rfl, hlen, hentries, -, hall⟩ := entries_of_body hregion hbody
  obtain ⟨hlt, rfl⟩ := List.getElem?_eq_some_iff.1 hi
  have hlength := length_of_body hregion hbody
  have hzip := hentries.length_eq
  have he := hentries.get (i := i) (by omega) (by omega)
  have ha := hall.get (i := i) (by rw [List.length_append]; omega) (by omega)
  simp only [List.get_eq_getElem, List.getElem_zip] at he ha
  rw [List.getElem_append_left (by omega)] at ha
  exact ⟨_, _, _, List.getElem?_eq_getElem _, List.getElem?_eq_getElem _, he, ha⟩

/-- The entry of a store, before and after it gets its registers. -/
theorem entry_of_store {k value : Nat} (hk : program.outputs[k]? = some value) :
    ∃ e e' : Entry, body[program.ops.length + k]? = some e' ∧
      storeEntry w kind program.registers.registers value (program.inputs + k) = .ok e ∧
      e.allocate vecs gprs = .ok e' := by
  obtain ⟨entries, stores, rfl, hlen, -, hstores, hall⟩ := entries_of_body hregion hbody
  obtain ⟨hlt, rfl⟩ := List.getElem?_eq_some_iff.1 hk
  have hlength := length_of_body hregion hbody
  have hlenStores : stores.length = program.outputs.length := by
    rw [← hstores.length_eq, List.length_zipIdx]
  have he := hstores.get (i := k) (by rw [List.length_zipIdx]; omega) (by omega)
  have ha := hall.get (i := program.ops.length + k) (by rw [List.length_append]; omega) (by omega)
  simp only [List.get_eq_getElem, List.getElem_zipIdx, Nat.zero_add] at he ha
  rw [List.getElem_append_right (by omega)] at ha
  simp only [hlen, Nat.add_sub_cancel_left] at ha
  exact ⟨_, _, List.getElem?_eq_getElem _, he, ha⟩

end Entries

end Program

/-! ## The code of operations and stores -/

/-- The instruction that loads an input. -/
def loadInstruction (w : VectorWidth) (kind : BodyKind) (broadcast : Bool) (target pointer : Register) :
    Instruction :=
  match kind, broadcast with
  | .scalar, _ => .loadLane target pointer
  | .vector, true => .splatLoad w target pointer
  | .vector, false => .loadVector w target pointer

/-- The instruction that stores an output. -/
def storeInstruction (w : VectorWidth) (kind : BodyKind) (pointer source : Register) : Instruction :=
  match kind with
  | .scalar => .storeLane pointer source
  | .vector => .storeVector w pointer source

namespace Program

/-- Where the code of a body comes from: the width, the kind of body, the inputs that are broadcast
along the rows, the registers of the values and of the parameters, and the free registers. -/
structure BodySource where
  w : VectorWidth
  kind : BodyKind
  broadcast : List Bool
  registers : List Nat
  pointers : List Nat
  vecs : List Nat
  gprs : List Nat

variable (source : BodySource)

/-- The register of a value. -/
def BodySource.Holds (value : Nat) (r : Register) : Prop := source.registers[value]? = some r.val

/-- Values share a register exactly if they have the same number. -/
def BodySource.Shares (program : Program) : Prop :=
  ∀ {value value' : Nat} {r r' : Register}, source.Holds value r → source.Holds value' r' →
    (r = r' ↔ program.registers.registers[value]? = program.registers.registers[value']?)

/-- The registers of the values are the ones of a pool with given numbers. -/
def BodySource.Draws (pool numbers : List Nat) : Prop :=
  ∀ value number r : Nat, numbers[value]? = some number → pool[number]? = some r →
    source.registers[value]? = some r

/-- The code of an operation whose result goes to a register. -/
def OpCode (op : MicroOp) (target : Register) (code : Code) : Prop :=
  let computes := Leaf.Computes code source.vecs source.gprs target source.w.lanes
  match op with
  | .input p => ∃ (pointer : Register) (broadcast : Bool), source.pointers[p]? = some pointer.val ∧
      source.broadcast[p]? = some broadcast ∧
      code = [loadInstruction source.w source.kind broadcast target pointer]
  | .const value => computes fun _ _ => value
  | .broadcast a => ∃ ra, source.Holds a ra ∧ computes fun read _ => (read ra).first
  | .binary op a b => ∃ ra rb, source.Holds a ra ∧ source.Holds b rb ∧
      computes fun read i => Arithmetic.vector.binary op ((read ra).get i) ((read rb).get i)
  | .fma a b c => ∃ ra rb rc, source.Holds a ra ∧ source.Holds b rb ∧ source.Holds c rc ∧
      computes fun read i => Arithmetic.vector.fma (target = ra ∧ target ≠ rc) ((read ra).get i)
        ((read rb).get i) ((read rc).get i)
  | .unary op a => ∃ ra, source.Holds a ra ∧
      computes fun read i => Arithmetic.vector.unary op ((read ra).get i)

/-- The code that stores a value to a parameter. -/
def StoreCode (value param : Nat) (code : Code) : Prop :=
  ∃ pointer r : Register, source.pointers[param]? = some pointer.val ∧ source.Holds value r ∧
    code = [storeInstruction source.w source.kind pointer r]

/-- Code that a body of the program becomes. -/
def IsBody (program : Program) (code : Code) : Prop :=
  ∃ pool region body, source.Draws pool program.registers.registers ∧
    program.body source.w source.kind source.broadcast program.registers.registers = .ok region ∧
    Region.allocateAll pool source.pointers region = .ok body ∧
    Region.emit source.vecs source.gprs body = .ok code

variable {source} {pool numbers : List Nat}

/-- The registers of operands are looked up one by one, and then in the pool. -/
theorem forall₂_of_operands (hdraws : source.Draws pool numbers) {operands input input' : List Nat}
    (h : operands.mapM (Checked.get numbers) = .ok input)
    (hpool : input.map (pool[·]?) = input'.map some) :
    List.Forall₂ (fun a r => source.registers[a]? = some r) operands input' := by
  have hinput : List.Forall₂ (fun n r => pool[n]? = some r) input input' := by
    have hboth := List.forall₂_eq_eq_eq ▸ hpool
    rwa [List.forall₂_map_left_iff, List.forall₂_map_right_iff] at hboth
  refine (forall₂_comp (Checked.mapM_eq_ok.1 h) hinput).imp ?_
  rintro a r ⟨n, ha, hn⟩
  exact hdraws a n r (Checked.get_eq_ok.1 ha) hn

/-- The code of an entry that reads the registers of operands. -/
theorem emit_of_operands (hdraws : source.Draws pool numbers) {leaf : LeafOp} (operands : List Nat)
    {target : Nat} {e e' : Entry} {code : Code} (hflow : leaf.dataFlow = .vecToVec)
    (hentry : (do return .leaf leaf (← operands.mapM (Checked.get numbers)) [target]) = Except.ok e)
    (hallocate : e.allocate pool source.pointers = .ok e')
    (hemit : e'.emit source.vecs source.gprs = .ok code) :
    ∃ input d, List.Forall₂ (fun a r => source.registers[a]? = some r) operands input ∧
      pool[target]? = some d ∧ leaf.emit input [d] source.vecs source.gprs = .ok code := by
  obtain ⟨input, hinput, hentry⟩ := Checked.bind_eq_ok.1 hentry
  obtain rfl := Except.ok.inj hentry
  obtain ⟨input', output', hpool, houtput, rfl⟩ := Entry.allocate_vecToVec hflow hallocate
  obtain ⟨d, rfl⟩ : ∃ d, output' = [d] :=
    List.length_eq_one_iff.1 (by simpa using (congrArg List.length houtput).symm)
  exact ⟨input', d, forall₂_of_operands hdraws hinput hpool, by simpa using houtput, hemit⟩

/-- The code that loads an input. -/
theorem opCode_of_loadOp {p target : Nat} {broadcast : Bool} {e' : Entry} {code : Code}
    (hbroadcast : source.broadcast[p]? = some broadcast)
    (hallocate : (Entry.leaf (loadOp source.w source.kind broadcast) [p] [target]).allocate
      pool source.pointers = .ok e')
    (hemit : e'.emit source.vecs source.gprs = .ok code) :
    ∃ d : Register, pool[target]? = some d.val ∧ OpCode source (.input p) d code := by
  obtain ⟨r, d, hr, hd, rfl⟩ := Entry.allocate_gprToVec (dataFlow_loadOp _ _ _) hallocate
  rw [Entry.emit] at hemit
  cases hkind : source.kind with
  | scalar =>
    rw [hkind] at hemit
    obtain ⟨q, d, rfl, rfl, rfl⟩ := Leaf.laneLoad_eq_ok.1 hemit
    exact ⟨d, hd, q, broadcast, hr, hbroadcast, by rw [hkind]; rfl⟩
  | vector =>
    rw [hkind] at hemit
    cases broadcast with
    | true =>
      obtain ⟨q, d, rfl, rfl, rfl⟩ := Leaf.splatLoad_eq_ok.1 hemit
      exact ⟨d, hd, q, true, hr, hbroadcast, by rw [hkind]; rfl⟩
    | false =>
      obtain ⟨q, d, rfl, rfl, rfl⟩ := Leaf.load_eq_ok.1 hemit
      exact ⟨d, hd, q, false, hr, hbroadcast, by rw [hkind]; rfl⟩

/-- **From the entry of an operation to its code.** -/
theorem opCode_of_entryOf (hdraws : source.Draws pool numbers)
    (hfree : ∀ r ∈ source.registers, r ∉ source.vecs) {op : MicroOp} {target : Nat} {e e' : Entry}
    {code : Code}
    (hentry : entryOf source.w source.kind source.broadcast numbers op target = .ok e)
    (hallocate : e.allocate pool source.pointers = .ok e')
    (hemit : e'.emit source.vecs source.gprs = .ok code) :
    ∃ d : Register, pool[target]? = some d.val ∧ OpCode source op d code := by
  cases op with
  | input p =>
    simp only [entryOf, Checked.bind_eq_ok, Checked.pure_eq_ok] at hentry
    obtain ⟨broadcast, hbroadcast, _, rfl, _, rfl, rfl⟩ := hentry
    exact opCode_of_loadOp (Checked.get_eq_ok.1 hbroadcast) hallocate hemit
  | const value =>
    obtain ⟨input, d, hinput, hd, hemit⟩ :=
      emit_of_operands hdraws [] rfl hentry hallocate hemit
    cases hinput with
    | nil =>
      obtain ⟨d, rfl, hcomputes⟩ := Leaf.computes_const hemit
      exact ⟨d, hd, hcomputes⟩
  | broadcast a =>
    obtain ⟨input, d, hinput, hd, hemit⟩ :=
      emit_of_operands hdraws [a] rfl hentry hallocate hemit
    cases hinput with
    | cons ha hnil =>
      cases hnil
      obtain ⟨d, ra, rfl, rfl, hcomputes⟩ := Leaf.computes_splat hemit
      exact ⟨d, hd, ra, ha, hcomputes⟩
  | binary op a b =>
    obtain ⟨input, d, hinput, hd, hemit⟩ :=
      emit_of_operands hdraws [a, b] rfl hentry hallocate hemit
    cases hinput with
    | cons ha hrest =>
      cases hrest with
      | cons hb hnil =>
        cases hnil
        obtain ⟨d, ra, rb, rfl, rfl, rfl, hcomputes⟩ := Leaf.computes_binary hemit
        exact ⟨d, hd, ra, rb, ha, hb, hcomputes⟩
  | fma a b c =>
    obtain ⟨input, d, hinput, hd, hemit⟩ :=
      emit_of_operands hdraws [a, b, c] rfl hentry hallocate hemit
    cases hinput with
    | cons ha hrest =>
      cases hrest with
      | cons hb hrest =>
        cases hrest with
        | cons hc hnil =>
          cases hnil
          obtain ⟨d, ra, rb, rc, rfl, rfl, rfl, rfl, hcomputes⟩ := Leaf.computes_fma hemit
          exact ⟨d, hd, ra, rb, rc, ha, hb, hc, hcomputes⟩
  | unary op a =>
    obtain ⟨input, d, hinput, hd, hemit⟩ :=
      emit_of_operands hdraws [a] rfl hentry hallocate hemit
    cases hinput with
    | @cons _ r _ _ ha hnil =>
      cases hnil
      have hr := hfree r (List.mem_of_getElem? ha)
      obtain ⟨d, ra, rfl, rfl, hcomputes⟩ := Leaf.computes_unary hr hemit
      exact ⟨d, hd, ra, ha, hcomputes⟩

/-- From the entry of a store to its code. -/
theorem storeCode_of_storeEntry (hdraws : source.Draws pool numbers) {value param : Nat}
    {e e' : Entry} {code : Code}
    (hentry : storeEntry source.w source.kind numbers value param = .ok e)
    (hallocate : e.allocate pool source.pointers = .ok e')
    (hemit : e'.emit source.vecs source.gprs = .ok code) :
    StoreCode source value param code := by
  simp only [storeEntry, Checked.bind_eq_ok, Checked.pure_eq_ok, Checked.get_eq_ok] at hentry
  obtain ⟨n, hn, rfl⟩ := hentry
  obtain ⟨q, r, hq, hr, rfl⟩ := Entry.allocate_vecToGpr (dataFlow_storeOp _ _) hallocate
  have hregister := hdraws value n r hn hr
  rw [Entry.emit] at hemit
  cases hkind : source.kind with
  | scalar =>
    rw [hkind] at hemit
    obtain ⟨p, a, rfl, rfl, rfl⟩ := Leaf.laneStore_eq_ok.1 hemit
    exact ⟨p, a, hq, hregister, by rw [hkind]; rfl⟩
  | vector =>
    rw [hkind] at hemit
    obtain ⟨p, a, rfl, rfl, rfl⟩ := Leaf.store_eq_ok.1 hemit
    exact ⟨p, a, hq, hregister, by rw [hkind]; rfl⟩

/-- **The code of a body by operations and stores.** -/
theorem IsBody.split (hfree : ∀ r ∈ source.registers, r ∉ source.vecs) {program : Program}
    {code : Code} (h : program.IsBody source code) :
    ∃ computed stored : List Code, code = computed.flatten ++ stored.flatten ∧
      List.Forall₂ (fun (op, k) c => ∃ d : Register, source.Holds k d ∧ OpCode source op d c)
        program.ops.zipIdx computed ∧
      List.Forall₂ (fun (value, k) c => StoreCode source value (program.inputs + k) c)
        program.outputs.zipIdx stored := by
  obtain ⟨pool, region, body, hdraws, hregion, hbody, hcode⟩ := h
  obtain ⟨entries, stores, rfl, -, hentries, hstores, hallocated⟩ := entries_of_body hregion hbody
  obtain ⟨codes, hcodes, rfl⟩ := Region.emit_eq_ok.1 hcode
  have hall := forall₂_comp hallocated hcodes
  obtain ⟨computed, stored, rfl, hcomputed, hstored⟩ :
      ∃ computed stored, codes = computed ++ stored ∧ List.Forall₂ _ entries computed ∧
        List.Forall₂ _ stores stored := by
    refine ⟨codes.take entries.length, codes.drop entries.length, (List.take_append_drop _ _).symm,
      ?_, ?_⟩
    · have htake := List.forall₂_take entries.length hall
      rwa [List.take_left' rfl] at htake
    · have hdrop := List.forall₂_drop entries.length hall
      rwa [List.drop_left' rfl] at hdrop
  refine ⟨computed, stored, by rw [List.flatten_append], ?_, ?_⟩
  · have hops := forall₂_comp hentries hcomputed
    have hlen : program.registers.registers.length = program.ops.length :=
      program.keeps_registers.length
    refine List.forall₂_iff_get.2 ⟨by simpa [hlen] using hops.length_eq, fun k hk hk' => ?_⟩
    rw [List.length_zipIdx] at hk
    obtain ⟨e, hentry, e', hallocate, hemit⟩ := hops.get (i := k) (by simp [hlen, hk]) hk'
    simp only [List.get_eq_getElem, List.getElem_zip, List.getElem_zipIdx, Nat.zero_add] at hentry ⊢
    obtain ⟨d, hd, hcode⟩ := opCode_of_entryOf hdraws hfree hentry hallocate hemit
    exact ⟨d, hdraws k _ d.val (List.getElem?_eq_getElem (hlen ▸ hk)) hd, hcode⟩
  · refine (forall₂_comp hstores hstored).imp ?_
    rintro ⟨value, k⟩ c ⟨e, hentry, e', hallocate, hemit⟩
    exact storeCode_of_storeEntry hdraws hentry hallocate hemit

end Program

/-! ## Schedulers -/

/-- The last register of a pool is taken off its end. -/
theorem Schedule.takeLast_eq_ok {pool rest : List Nat} {r : Nat} {cause : CapacityError} :
    takeLast pool cause = .ok (r, rest) ↔ pool = rest ++ [r] := by
  unfold takeLast
  cases hlast : pool.getLast? with
  | none => simp [List.getLast?_eq_none_iff.1 hlast]
  | some last =>
    obtain ⟨front, rfl⟩ := List.getLast?_eq_some_iff.1 hlast
    simp [and_comm]

/-- The registers that a scheduler does not take are left to its bodies. -/
theorem Schedule.bodyPool_concat (pool : List Nat) (inner outer : Nat) :
    bodyPool (pool ++ [inner, outer]) = pool := by
  have hsplit : pool ++ [inner, outer] = pool ++ [inner] ++ [outer] := by simp
  rw [hsplit, bodyPool, List.dropLast_concat, List.dropLast_concat]

/-- **The registers in which a scheduler keeps the work amounts** are the last two of its pool. -/
theorem Entry.emit_scheduler_eq_ok {mode : ScheduleMode} {vector scalar : Tile}
    {vectorBody scalarBody : Region} {input output vecs gprs : List Nat} {code : Code}
    (h : (Entry.scheduler mode [.tile vector vectorBody [] [], .tile scalar scalarBody [] []] input
      output).emit vecs gprs = .ok code) :
    ∃ lanes outer inner, input[2]? = some lanes ∧
      gprs = Schedule.bodyPool gprs ++ [inner, outer] ∧
      let context : Schedule.Context :=
        ⟨⟨vector, Region.emit vecs (Schedule.bodyPool gprs) vectorBody⟩,
          ⟨scalar, Region.emit vecs (Schedule.bodyPool gprs) scalarBody⟩, output, inner⟩
      match mode with
      | .static work rowOffsets => Schedule.staticCode context outer work lanes rowOffsets = .ok code
      | .dynamic => Schedule.dynamicCode context outer = .ok code := by
  rw [Entry.emit] at h
  obtain ⟨-, -, h⟩ := Checked.bind_eq_ok.1 h
  rw [Checked.ok_bind] at h
  obtain ⟨lanes, hlanes, h⟩ := Checked.bind_eq_ok.1 h
  obtain ⟨⟨outer, pool⟩, houter, h⟩ := Checked.bind_eq_ok.1 h
  obtain ⟨⟨inner, rest⟩, hinner, h⟩ := Checked.bind_eq_ok.1 h
  obtain rfl := Schedule.takeLast_eq_ok.1 houter
  obtain rfl := Schedule.takeLast_eq_ok.1 hinner
  refine ⟨lanes, outer, inner, Checked.get_eq_ok.1 hlanes, ?_, ?_⟩
  · rw [List.append_assoc, List.singleton_append, Schedule.bodyPool_concat]
  · cases mode with
    | static work rowOffsets => exact (Checked.require_bind_eq_ok.1 h).2
    | dynamic => exact h

end Pointwise
