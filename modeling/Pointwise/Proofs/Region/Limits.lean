import Pointwise.Proofs.Limited
import Pointwise.Proofs.Program.Registers
import Pointwise.Proofs.Region.Code

/-!
# Capacities that a region exhausts

The code of an operation needs a free register in some cases: a mask or a zero is kept in a vector
register, and a constant or a mask gets into vectors by way of a general one. If the registers of all
values exist, this is the only reason why the code of a body could be refused.

## Main definitions

* `MicroOp.needsVec`, `MicroOp.needsGpr` — the operations that need a free register.
* `Program.Spares` — pools that have what the operations of a program need.

## Main results

* `Program.exists_entry` — every operation gets an entry with registers, whose code is limited by what
  it needs.
* `Program.exists_body` — so does a whole body.
-/

set_option autoImplicit false

namespace Pointwise

open Checked

/-- Whether an operation needs a vector register besides those of its values. -/
def MicroOp.needsVec : MicroOp → Bool
  | .unary .neg _ | .unary .abs _ | .unary .relu _ => true
  | _ => false

/-- Whether an operation needs a general register. -/
def MicroOp.needsGpr : MicroOp → Bool
  | .const _ | .unary .neg _ | .unary .abs _ => true
  | _ => false

/-- Numbers of registers that exist. -/
def InRange (pool : List Nat) : Prop := ∀ r ∈ pool, r < registerCount

theorem RegisterClass.pick_of_lt {cls : RegisterClass} {index : Nat} (h : index < registerCount) :
    cls.pick index = .ok ⟨index, h⟩ := dif_pos h

/-! ## Leaf operations -/

namespace Leaf

variable {owner : String} {pool vecs gprs : List Nat} {w : VectorWidth} {target source : Nat}

/-- The last register of a pool can be had if there is one. -/
theorem limited_getLast {cause : CapacityError} :
    Limited (match pool.getLast? with
      | some r => Except.ok r
      | none => .error (.capacity cause)) (pool ≠ []) := by
  constructor
  · intro hne
    rw [List.getLast?_eq_some_getLast hne]
    exact ⟨_, rfl⟩
  · intro hnil
    rw [not_not] at hnil
    rw [hnil]
    exact ⟨cause, rfl⟩

theorem limited_auxiliaryVec : Limited (auxiliaryVec owner pool) (pool ≠ []) := limited_getLast

theorem limited_auxiliaryGpr : Limited (auxiliaryGpr owner pool) (pool ≠ []) := limited_getLast

/-- A bit pattern can be put into a vector register by way of a general one. -/
theorem exists_splatBits {bits : BitVec 32} {scratch : Nat} (htarget : target < registerCount)
    (hscratch : scratch < registerCount) : ∃ code, splatBits w target bits scratch = .ok code :=
  ⟨_, splatBits_eq_ok.2 ⟨⟨target, htarget⟩, ⟨scratch, hscratch⟩, rfl, rfl, rfl⟩⟩

/-- A mask needs a free register of each kind. -/
theorem limited_mask {bits : BitVec 32} {β : Type} {f : Nat → Code → Except Error β}
    (hvecs : InRange vecs) (hgprs : InRange gprs)
    (hf : ∀ aux < registerCount, ∀ mask, ∃ b, f aux mask = .ok b) :
    Limited (do
      let aux ← auxiliaryVec owner vecs
      let mask ← splatBits w aux bits (← auxiliaryGpr owner gprs)
      f aux mask) (vecs ≠ [] ∧ gprs ≠ []) := by
  refine limited_auxiliaryVec.bind fun aux haux => ?_
  have haux' := hvecs aux (List.mem_of_getLast? (auxiliaryVec_eq_ok.1 haux))
  refine (limited_auxiliaryGpr.bind fun scratch hscratch => ?_).congr (and_iff_left trivial)
  have hscratch' := hgprs scratch (List.mem_of_getLast? (auxiliaryGpr_eq_ok.1 hscratch))
  obtain ⟨mask, hmask⟩ : ∃ mask, splatBits w aux bits scratch = .ok mask :=
    exists_splatBits haux' hscratch'
  obtain ⟨b, hb⟩ := hf aux haux' mask
  exact .bind_of_ok hmask (.of_ok hb)

/-- **The code of an operation on one vector.** -/
theorem limited_unary {op : UnaryOp} {a : Nat} (htarget : target < registerCount)
    (hsource : source < registerCount) (hvecs : InRange vecs) (hgprs : InRange gprs) :
    Limited (unary w op target source vecs gprs)
      (((MicroOp.unary op a).needsVec = true → vecs ≠ []) ∧
        ((MicroOp.unary op a).needsGpr = true → gprs ≠ [])) := by
  cases op with
  | sqrt =>
    simp only [unary, VectorWidth.pick, RegisterClass.pick_of_lt htarget,
      RegisterClass.pick_of_lt hsource, ok_bind]
    exact (Limited.of_ok rfl).congr (by simp [MicroOp.needsVec, MicroOp.needsGpr])
  | neg | abs =>
    refine (limited_mask hvecs hgprs fun aux haux mask => ?_).congr
      (by simp [MicroOp.needsVec, MicroOp.needsGpr])
    simp only [VectorWidth.pick, RegisterClass.pick_of_lt htarget, RegisterClass.pick_of_lt hsource,
      RegisterClass.pick_of_lt haux, ok_bind]
    exact ⟨_, rfl⟩
  | relu =>
    refine (limited_auxiliaryVec.bind (Q := True) fun aux haux => ?_).congr
      (by simp [MicroOp.needsVec, MicroOp.needsGpr])
    have haux' := hvecs aux (List.mem_of_getLast? (auxiliaryVec_eq_ok.1 haux))
    simp only [VectorWidth.pick, RegisterClass.pick_of_lt htarget, RegisterClass.pick_of_lt hsource,
      RegisterClass.pick_of_lt haux', ok_bind]
    exact .of_ok rfl

/-- A fused operation needs nothing. -/
theorem exists_fma {left right addend : Nat} (htarget : target < registerCount)
    (hleft : left < registerCount) (hright : right < registerCount)
    (haddend : addend < registerCount) : ∃ code, fma w target left right addend = .ok code := by
  simp only [fma, VectorWidth.pick, RegisterClass.pick_of_lt htarget, RegisterClass.pick_of_lt hleft,
    RegisterClass.pick_of_lt hright, RegisterClass.pick_of_lt haddend, ok_bind]
  split_ifs <;> exact ⟨_, rfl⟩

end Leaf

/-! ## Entries -/

/-- Vector registers that exist keep their numbers. -/
theorem Region.replaceRegisters_vecPool {owner : String} {kind : RegisterKind} {numbers : List Nat}
    (h : InRange numbers) :
    Region.replaceRegisters owner kind Kernel.vecPool numbers = .ok numbers := by
  rw [Region.replaceRegisters_eq_ok, List.map_inj_left]
  intro r hr
  rw [Kernel.vecPool, List.getElem?_range (h r hr)]

/-- The register of a parameter exists. -/
theorem Region.exists_replaceRegisters_gprPool {owner : String} {kind : RegisterKind} {p : Nat}
    (hp : p < maxParams) : ∃ r < registerCount,
      Region.replaceRegisters owner kind Kernel.gprPool [p] = .ok [r] := by
  have hlen : Kernel.gprPool.length = maxParams := by decide
  have hall : ∀ r ∈ Kernel.gprPool, r < registerCount := by decide
  obtain ⟨r, hr⟩ : ∃ r, Kernel.gprPool[p]? = some r := ⟨_, List.getElem?_eq_getElem (hlen ▸ hp)⟩
  refine ⟨r, hall r (List.mem_of_getElem? hr), ?_⟩
  rw [Region.replaceRegisters_eq_ok]
  simp [hr]

section Allocate

variable {op : LeafOp} {input : List Nat} {target : Nat}

/-- An operation that computes keeps its registers. -/
theorem Entry.allocate_of_vecToVec (hflow : op.dataFlow = .vecToVec) (hinput : InRange input)
    (htarget : target < registerCount) :
    (Entry.leaf op input [target]).allocate Kernel.vecPool Kernel.gprPool =
      .ok (.leaf op input [target]) := by
  have houtput : InRange [target] := by simpa [InRange] using htarget
  rw [Entry.allocate, hflow, Region.replaceInputs, Region.replaceOutputs]
  dsimp only [DataFlow.inputKind, DataFlow.outputKind]
  rw [Region.replaceRegisters_vecPool hinput, Region.replaceRegisters_vecPool houtput]
  rfl

/-- An operation that loads gets the register of its parameter. -/
theorem Entry.allocate_of_gprToVec {p : Nat} (hflow : op.dataFlow = .gprToVec) (hp : p < maxParams)
    (htarget : target < registerCount) :
    ∃ r < registerCount, (Entry.leaf op [p] [target]).allocate Kernel.vecPool Kernel.gprPool =
      .ok (.leaf op [r] [target]) := by
  have houtput : InRange [target] := by simpa [InRange] using htarget
  obtain ⟨r, hr, hp⟩ := @Region.exists_replaceRegisters_gprPool op.name .gpr p hp
  refine ⟨r, hr, ?_⟩
  rw [Entry.allocate, hflow, Region.replaceInputs, Region.replaceOutputs]
  dsimp only [DataFlow.inputKind, DataFlow.outputKind]
  rw [hp, Region.replaceRegisters_vecPool houtput]
  rfl

/-- So does one that stores. -/
theorem Entry.allocate_of_vecToGpr {source p : Nat} (hflow : op.dataFlow = .vecToGpr)
    (hp : p < maxParams) (hsource : source < registerCount) :
    ∃ r < registerCount, (Entry.leaf op [source] [p]).allocate Kernel.vecPool Kernel.gprPool =
      .ok (.leaf op [source] [r]) := by
  have hinput : InRange [source] := by simpa [InRange] using hsource
  obtain ⟨r, hr, hp⟩ := @Region.exists_replaceRegisters_gprPool op.name .gpr p hp
  refine ⟨r, hr, ?_⟩
  rw [Entry.allocate, hflow, Region.replaceInputs, Region.replaceOutputs]
  dsimp only [DataFlow.inputKind, DataFlow.outputKind]
  rw [hp, Region.replaceRegisters_vecPool hinput]
  rfl

end Allocate

namespace Program

variable {w : VectorWidth} {kind : BodyKind} {flags : List Bool} {registers : List Nat}

/-- What the operations of a body need of the pools of free registers. -/
def Spares (ops : List MicroOp) (vecs gprs : List Nat) : Prop :=
  ∀ op ∈ ops, (op.needsVec = true → vecs ≠ []) ∧ (op.needsGpr = true → gprs ≠ [])

/-- **Every operation gets an entry with registers**, and the code of the entry is limited by what the
operation needs. -/
theorem exists_entry {op : MicroOp} {target : Nat} (hregisters : InRange registers)
    (hoperands : ∀ a ∈ op.operands, a < registers.length) (htarget : target < registerCount)
    (hinput : ∀ p, op = .input p → p < flags.length ∧ p < maxParams) :
    ∃ e e', entryOf w kind flags registers op target = .ok e ∧
      e.allocate Kernel.vecPool Kernel.gprPool = .ok e' ∧
      ∀ vecs gprs, InRange vecs → InRange gprs → Limited (e'.emit vecs gprs)
        ((op.needsVec = true → vecs ≠ []) ∧ (op.needsGpr = true → gprs ≠ [])) := by
  -- The register of an operand exists.
  have hget : ∀ a ∈ op.operands, ∃ r < registerCount, get registers a = .ok r := by
    intro a ha
    have hr := List.getElem?_eq_getElem (hoperands a ha)
    exact ⟨_, hregisters _ (List.mem_of_getElem? hr), get_eq_ok.2 hr⟩
  cases op with
  | input p =>
    obtain ⟨hflag, hp⟩ := hinput p rfl
    have hflag := List.getElem?_eq_getElem hflag
    generalize flags[p] = flag at hflag
    obtain ⟨r, hr, hallocate⟩ := Entry.allocate_of_gprToVec (dataFlow_loadOp w kind flag) hp htarget
    refine ⟨_, _, by rw [entryOf, get_eq_ok.2 hflag]; rfl, hallocate, fun vecs gprs _ _ => ?_⟩
    obtain ⟨code, hcode⟩ : ∃ code, (loadOp w kind flag).emit [r] [target] vecs gprs = .ok code := by
      unfold loadOp
      split <;> simp only [LeafOp.emit, VectorWidth.pick, RegisterClass.pick_of_lt htarget,
        RegisterClass.pick_of_lt hr, ok_bind] <;> exact ⟨_, rfl⟩
    exact (Limited.of_ok (by rw [Entry.emit]; exact hcode)).congr
      (by simp [MicroOp.needsVec, MicroOp.needsGpr])
  | const value =>
    refine ⟨_, _, rfl, Entry.allocate_of_vecToVec rfl (by simp [InRange]) htarget,
      fun vecs gprs _ hgprs => ?_⟩
    rw [Entry.emit]
    refine (Leaf.limited_auxiliaryGpr.bind fun scratch hscratch => ?_).congr
      ((and_iff_left trivial).trans (by simp [MicroOp.needsVec, MicroOp.needsGpr]))
    obtain ⟨code, hcode⟩ := Leaf.exists_splatBits htarget
      (hgprs scratch (List.mem_of_getLast? (Leaf.auxiliaryGpr_eq_ok.1 hscratch)))
    exact .of_ok hcode
  | broadcast a =>
    obtain ⟨ra, hra, ha⟩ := hget a (by simp [MicroOp.operands])
    refine ⟨.leaf (.splat w) [ra] [target], _, ?_,
      Entry.allocate_of_vecToVec rfl (by simpa [InRange] using hra) htarget, fun vecs gprs _ _ => ?_⟩
    · simp [entryOf, MicroOp.operands, ha, pure, Except.pure]
    · simp only [Entry.emit, LeafOp.emit, VectorWidth.pick, RegisterClass.pick_of_lt htarget,
        RegisterClass.pick_of_lt hra, ok_bind]
      exact (Limited.of_ok rfl).congr (by simp [MicroOp.needsVec, MicroOp.needsGpr])
  | binary op a b =>
    obtain ⟨ra, hra, ha⟩ := hget a (by simp [MicroOp.operands])
    obtain ⟨rb, hrb, hb⟩ := hget b (by simp [MicroOp.operands])
    refine ⟨.leaf (.binary w op) [ra, rb] [target], _, ?_,
      Entry.allocate_of_vecToVec rfl (by simp [InRange, hra, hrb]) htarget, fun vecs gprs _ _ => ?_⟩
    · simp [entryOf, MicroOp.operands, ha, hb, pure, Except.pure]
    · simp only [Entry.emit, LeafOp.emit, VectorWidth.pick, RegisterClass.pick_of_lt htarget,
        RegisterClass.pick_of_lt hra, RegisterClass.pick_of_lt hrb, ok_bind]
      exact (Limited.of_ok rfl).congr (by simp [MicroOp.needsVec, MicroOp.needsGpr])
  | fma a b c =>
    obtain ⟨ra, hra, ha⟩ := hget a (by simp [MicroOp.operands])
    obtain ⟨rb, hrb, hb⟩ := hget b (by simp [MicroOp.operands])
    obtain ⟨rc, hrc, hc⟩ := hget c (by simp [MicroOp.operands])
    refine ⟨.leaf (.fma w) [ra, rb, rc] [target], _, ?_,
      Entry.allocate_of_vecToVec rfl (by simp [InRange, hra, hrb, hrc]) htarget,
      fun vecs gprs _ _ => ?_⟩
    · simp [entryOf, MicroOp.operands, ha, hb, hc, pure, Except.pure]
    · obtain ⟨code, hcode⟩ := Leaf.exists_fma (w := w) htarget hra hrb hrc
      exact (Limited.of_ok (by rw [Entry.emit]; exact hcode)).congr
        (by simp [MicroOp.needsVec, MicroOp.needsGpr])
  | unary op a =>
    obtain ⟨ra, hra, ha⟩ := hget a (by simp [MicroOp.operands])
    refine ⟨.leaf (.unary w op) [ra] [target], _, ?_,
      Entry.allocate_of_vecToVec rfl (by simpa [InRange] using hra) htarget,
      fun vecs gprs hvecs hgprs => ?_⟩
    · simp [entryOf, MicroOp.operands, ha, pure, Except.pure]
    · rw [Entry.emit]
      exact Leaf.limited_unary htarget hra hvecs hgprs

/-- So does every store, whose code needs nothing. -/
theorem exists_storeEntry {value param : Nat} (hregisters : InRange registers)
    (hvalue : value < registers.length) (hparam : param < maxParams) :
    ∃ e e', storeEntry w kind registers value param = .ok e ∧
      e.allocate Kernel.vecPool Kernel.gprPool = .ok e' ∧
      ∀ vecs gprs, ∃ code, e'.emit vecs gprs = .ok code := by
  have hget := List.getElem?_eq_getElem hvalue
  have hsource := hregisters _ (List.mem_of_getElem? hget)
  generalize registers[value] = source at hget hsource
  obtain ⟨r, hr, hallocate⟩ := Entry.allocate_of_vecToGpr (dataFlow_storeOp w kind) hparam hsource
  refine ⟨_, _, by rw [storeEntry, get_eq_ok.2 hget]; rfl, hallocate, fun vecs gprs => ?_⟩
  rw [Entry.emit]
  cases kind <;> simp only [storeOp, LeafOp.emit, VectorWidth.pick, RegisterClass.pick_of_lt hsource,
    RegisterClass.pick_of_lt hr, ok_bind] <;> exact ⟨_, rfl⟩

end Program

/-! ## Bodies -/

/-- Entries that can be made and get registers one by one do so as a list. -/
theorem exists_entries {α : Type} {f : α → Except Error Entry} {list : List α}
    (P : α → Entry → Prop) (h : ∀ a ∈ list, ∃ e e', f a = .ok e ∧
      e.allocate Kernel.vecPool Kernel.gprPool = .ok e' ∧ P a e') :
    ∃ entries allocated, list.mapM f = .ok entries ∧
      List.Forall₂ (fun e e' => e.allocate Kernel.vecPool Kernel.gprPool = .ok e') entries allocated ∧
      List.Forall₂ P list allocated := by
  have hpairs : ∀ a ∈ list, ∃ pair : Entry × Entry, f a = .ok pair.1 ∧
      pair.1.allocate Kernel.vecPool Kernel.gprPool = .ok pair.2 ∧ P a pair.2 := by
    intro a ha
    obtain ⟨e, e', hentry⟩ := h a ha
    exact ⟨(e, e'), hentry⟩
  obtain ⟨pairs, hall⟩ := exists_forall₂ hpairs
  refine ⟨pairs.map (·.1), pairs.map (·.2), ?_, ?_, ?_⟩
  · rw [mapM_eq_ok, List.forall₂_map_right_iff]
    exact hall.imp fun _ _ hpair => hpair.1
  · rw [List.forall₂_map_left_iff, List.forall₂_map_right_iff, List.forall₂_same]
    intro pair hpair
    obtain ⟨a, -, -, hallocate, -⟩ := forall₂_mem_right hall hpair
    exact hallocate
  · rw [List.forall₂_map_right_iff]
    exact hall.imp fun _ _ hpair => hpair.2.2

/-- The code of a list of entries is limited by what all of them need. -/
theorem Region.limited_emit_append {α : Type} {vecs gprs : List Nat} {list : List α}
    (condition : α → Prop) {entries rest : List Entry} {Q : Prop}
    (h : List.Forall₂ (fun a e => Limited (Entry.emit vecs gprs e) (condition a)) list entries)
    (hrest : Limited (Region.emit vecs gprs rest) Q) :
    Limited (Region.emit vecs gprs (entries ++ rest)) ((∀ a ∈ list, condition a) ∧ Q) := by
  induction h with
  | nil => exact hrest.congr (by simp)
  | @cons a e list entries he _ ih =>
    rw [List.cons_append, Region.emit]
    refine (he.bind fun _ _ => ih.bind_pure).congr ?_
    rw [List.forall_mem_cons, and_assoc]

namespace Program

variable {program : Program} {w : VectorWidth} {kind : BodyKind} {flags : List Bool}

/-- **The body of a tile.** If the registers of all values exist, it gets its registers, and its code
is limited by what its operations need. -/
theorem exists_body (hcount : program.registers.count ≤ registerCount)
    (hflags : flags.length = program.inputs) :
    ∃ region body, program.body w kind flags program.registers.registers = .ok region ∧
      Region.allocateAll Kernel.vecPool Kernel.gprPool region = .ok body ∧
      ∀ vecs gprs, InRange vecs → InRange gprs →
        Limited (Region.emit vecs gprs body) (Spares program.ops vecs gprs) := by
  have hwell := program.wellFormed
  have hparams := hwell.params_le
  have hlen := program.keeps_registers.length
  have hrange : InRange program.registers.registers := fun r hr =>
    (program.keeps_registers.registers_lt r hr).trans_le hcount
  -- The operations.
  have hops : ∀ pair ∈ program.ops.zip program.registers.registers, ∃ e e',
      entryOf w kind flags program.registers.registers pair.1 pair.2 = .ok e ∧
        e.allocate Kernel.vecPool Kernel.gprPool = .ok e' ∧
        ∀ vecs gprs, InRange vecs → InRange gprs → Limited (Entry.emit vecs gprs e')
          ((pair.1.needsVec = true → vecs ≠ []) ∧ (pair.1.needsGpr = true → gprs ≠ [])) := by
    rintro ⟨op, target⟩ hmem
    obtain ⟨hop, htarget⟩ := List.of_mem_zip hmem
    refine exists_entry hrange (fun a ha => ?_) (hrange target htarget) fun p hp => ?_
    · obtain ⟨i, hi, rfl⟩ := List.getElem_of_mem hop
      have := hwell.operands_lt i hi a ha
      omega
    · have := (hwell.input_mem_iff p).1 (hp ▸ hop)
      omega
  obtain ⟨entries, allocated, hentries, hallocated, hemit⟩ := exists_entries _ hops
  -- The stores.
  have houtputs : ∀ pair ∈ program.outputs.zipIdx, ∃ e e',
      storeEntry w kind program.registers.registers pair.1 (program.inputs + pair.2) = .ok e ∧
        e.allocate Kernel.vecPool Kernel.gprPool = .ok e' ∧
        ∀ vecs gprs, ∃ code, Entry.emit vecs gprs e' = .ok code := by
    rintro ⟨value, k⟩ hmem
    have hvalue := hwell.outputs_lt value (List.fst_mem_of_mem_zipIdx hmem)
    have hk := List.snd_lt_of_mem_zipIdx hmem
    exact exists_storeEntry hrange (by omega) (by omega)
  obtain ⟨stores, allocated', hstores, hallocated', hemit'⟩ := exists_entries _ houtputs
  refine ⟨entries ++ stores, allocated ++ allocated', ?_,
    Region.allocateAll_eq_ok.2 (List.rel_append hallocated hallocated'),
    fun vecs gprs hvecs hgprs => ?_⟩
  · rw [body, hentries, ok_bind, hstores, ok_bind]
    rfl
  · have hnil : Region.emit vecs gprs [] = .ok [] := by
      rw [Region.emit]
      rfl
    have hrest := Region.limited_emit_append (fun _ => True)
      (hemit'.imp fun _ _ h => Limited.of_ok (h vecs gprs).choose_spec) (.of_ok hnil)
    rw [List.append_nil] at hrest
    have hall := Region.limited_emit_append _
      (hemit.imp fun _ _ h => h vecs gprs hvecs hgprs) hrest
    have hfst : (program.ops.zip program.registers.registers).map (·.1) = program.ops :=
      List.map_fst_zip hlen.ge
    refine hall.congr ?_
    rw [Spares]
    conv_rhs => rw [← hfst, List.forall_mem_map]
    simp

end Program

end Pointwise
