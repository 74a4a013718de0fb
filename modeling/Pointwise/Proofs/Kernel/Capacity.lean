import Pointwise.Proofs.Kernel.Allocation
import Pointwise.Proofs.Offset.Total
import Pointwise.Proofs.Region.StaticLimits

/-!
# Capacities that a static kernel exhausts

For a planned domain the code of a static kernel can be refused only because a capacity of the machine
is exhausted: the registers of the values, a free register for a mask or a constant, or the range of
the row offsets. Everything else that could go wrong does not: the tiles and the scheduler are made as
they have to be, all parameters have data pointers, and the registers of the arguments serve as
counters if no other ones are left.

## Main definitions

* `Program.FitsRegisters` — a program that has enough registers.

## Main results

* `Compiler.limited_schedulerRegion` — the scheduler of a program is limited by its registers.
* `Kernel.exists_staticPointers` — the data pointers can be computed.
* `Compiler.limited_generate_of_code`, `Compiler.limited_generate` — the code of a kernel is limited by
  the capacities.
-/

set_option autoImplicit false

namespace Pointwise

open Checked

/-! ## The scheduler of a program -/

namespace Program

variable {program : Program} {w : VectorWidth} {flags : List Bool}

/-- **Lowering** is limited by the registers of the values. -/
theorem limited_lower (hflags : flags.length = program.inputs) :
    Limited (program.lower flags w) (program.registers.count ≤ registerCount) := by
  refine .bind_of_ok (require_eq_ok.2 hflags) ?_
  refine (Limited.require.bind fun _ hrequire => ?_).congr (and_iff_left trivial)
  have hcount := require_eq_ok.1 hrequire
  obtain ⟨vector, -, hvector, -⟩ := @exists_body program w .vector flags hcount hflags
  obtain ⟨scalar, -, hscalar, -⟩ := @exists_body program w .scalar flags hcount hflags
  exact .bind_of_ok hvector (.bind_of_ok hscalar (.of_ok rfl))

/-- A body is not empty. -/
theorem ne_nil_of_body {kind : BodyKind} {registers : List Nat}
    (hlen : registers.length = program.ops.length) {region : Region}
    (h : program.body w kind flags registers = .ok region) : region ≠ [] := by
  obtain ⟨entries, hentries, h⟩ := bind_eq_ok.1 h
  obtain ⟨stores, -, h⟩ := bind_eq_ok.1 h
  obtain rfl := pure_eq_ok.1 h
  intro hnil
  have hlength := length_of_mapM hentries
  rw [(List.append_eq_nil_iff.1 hnil).1, List.length_zip, hlen, Nat.min_self] at hlength
  exact program.wellFormed.ops_ne_nil (List.length_eq_zero_iff.1 hlength.symm)

end Program

namespace Compiler

variable {program : Program} {domain : Domain} {w : VectorWidth} {mode : KernelMode}

/-- The last dimensions of planned tensors can be read. -/
theorem exists_inputDims (hplanned : domain.Planned program.outputs.length) :
    ∃ dims, domain.inputDims = .ok dims := by
  refine exists_mapM fun shape hshape => ?_
  have hrank := hplanned.rank
  rw [tensorRank, (hplanned.fits shape hshape).length_eq] at hrank
  exact ⟨_, getBack_eq_ok.2 ⟨by omega, List.getElem?_eq_getElem (by omega)⟩⟩

/-- A tile is made for a body that is not empty. -/
theorem exists_tile {body : Region} (hbody : body ≠ []) {increment : Nat} (hincrement : 0 < increment)
    {dims : List Nat} (hdims : dims.length = program.params) :
    ∃ tile, Tile.create body increment program.inputs program.outputs.length dims elementSize =
      .ok tile := by
  have hparams := program.wellFormed.params_le
  rw [maxParams] at hparams
  rw [Program.params] at hdims
  rw [Tile.create, require_eq_ok.2 (List.length_pos_iff.2 hbody).ne', ok_bind,
    require_eq_ok.2 hincrement.ne', ok_bind, add_eq_ok.2 ⟨rfl, by omega⟩, ok_bind,
    require_eq_ok.2 hdims]
  exact ⟨_, rfl⟩

/-- **The scheduler of a program** is limited by the registers of its values. -/
theorem limited_schedulerRegion (hplanned : domain.Planned program.outputs.length)
    (hlen : domain.inputShapes.length = program.inputs) :
    Limited (schedulerRegion program domain w mode) (program.registers.count ≤ registerCount) := by
  obtain ⟨inputDims, hinputDims⟩ := exists_inputDims hplanned
  have hinputs : inputDims.length = program.inputs := by rw [length_of_mapM hinputDims, hlen]
  obtain ⟨last, hlast⟩ : ∃ last, getBack domain.master 1 = .ok last := by
    have hrank := hplanned.rank
    rw [tensorRank] at hrank
    exact ⟨_, getBack_eq_ok.2 ⟨by omega, List.getElem?_eq_getElem (by omega)⟩⟩
  have hdims : (inputDims ++ List.replicate program.outputs.length last).length = program.params := by
    rw [List.length_append, List.length_replicate, hinputs, Program.params]
  have hflags : (inputDims.map (· = 1 : Nat → Bool)).length = program.inputs := by
    rw [List.length_map, hinputs]
  refine .bind_of_ok hinputDims (.bind_of_ok hlast ?_)
  refine ((Program.limited_lower hflags).bind fun lowered hlowered => ?_).congr (and_iff_left trivial)
  -- Lowered bodies are not empty, so that the tiles can be made.
  obtain ⟨-, hlowered⟩ := require_bind_eq_ok.1 hlowered
  obtain ⟨-, hlowered⟩ := require_bind_eq_ok.1 hlowered
  obtain ⟨vector, hvector, hlowered⟩ := bind_eq_ok.1 hlowered
  obtain ⟨scalar, hscalar, hlowered⟩ := bind_eq_ok.1 hlowered
  obtain rfl := pure_eq_ok.1 hlowered
  have hregisters := program.keeps_registers.length
  obtain ⟨long, hlong⟩ := exists_tile (Program.ne_nil_of_body hregisters hvector) w.lanes_pos hdims
  obtain ⟨short, hshort⟩ := exists_tile (Program.ne_nil_of_body hregisters hscalar) Nat.one_pos hdims
  exact .bind_of_ok hlong (.bind_of_ok hshort (.bind_of_ok rfl (.of_ok rfl)))

end Compiler

/-! ## Kernels -/

namespace Kernel

/-- A scheduler whose bodies get registers makes a kernel. -/
theorem exists_ofRegion {mode : KernelMode} {schedule : ScheduleMode} {vector scalar : Tile}
    {vectorBody scalarBody long short : Region} {input : List Nat}
    (hvector : vectorBody ≠ []) (hscalar : scalarBody ≠ [])
    (hlong : Region.allocateAll vecPool gprPool vectorBody = .ok long)
    (hshort : Region.allocateAll vecPool gprPool scalarBody = .ok short) :
    ∃ kernel, ofRegion mode [.scheduler schedule
      [.tile vector vectorBody [] [], .tile scalar scalarBody [] []] input []] = .ok kernel := by
  have htile : ∀ {tile : Tile} {body body' : Region}, body ≠ [] →
      Region.allocateAll vecPool gprPool body = .ok body' →
        (Entry.tile tile body [] []).allocate vecPool gprPool = .ok (.tile tile body' [] []) := by
    intro tile body body' hbody hallocate
    rw [Entry.allocate]
    refine bind_eq_ok.2 ⟨[], rfl, bind_eq_ok.2 ⟨(), require_eq_ok.2 (List.length_pos_iff.2 hbody).ne', ?_⟩⟩
    rw [filter_nil]
    exact bind_eq_ok.2 ⟨_, hallocate, rfl⟩
  have hscheduler : (Entry.scheduler schedule
      [.tile vector vectorBody [] [], .tile scalar scalarBody [] []] input []).allocate vecPool gprPool =
        .ok (.scheduler schedule [.tile vector long [] [], .tile scalar short [] []] input []) := by
    rw [Entry.allocate]
    refine bind_eq_ok.2 ⟨[], rfl, bind_eq_ok.2 ⟨(), require_eq_ok.2 (by simp), ?_⟩⟩
    rw [filter_nil]
    refine bind_eq_ok.2 ⟨_, Region.allocateAll_eq_ok.2 ?_, rfl⟩
    exact .cons (htile hvector hlong) (.cons (htile hscalar hshort) .nil)
  rw [ofRegion, require_eq_ok.2 (by simp), ok_bind, Region.allocate, require_eq_ok.2 (by simp), ok_bind,
    Region.allocateAll_eq_ok.2 (.cons hscheduler .nil)]
  exact ⟨_, rfl⟩

/-! ## Data pointers -/

section Pointers

/-- Every parameter has a place for its address in the argument block. -/
theorem exists_pointerSlot {param : Nat} (hparam : param < maxParams) (inputs : Nat) :
    ∃ slot, ArgumentBlock.pointerSlot param inputs = .ok slot ∧ slot ≤ 256 := by
  rw [maxParams] at hparam
  unfold ArgumentBlock.pointerSlot ArgumentBlock.targetsAt ArgumentBlock.sourcesAt maxParams
  split
  · exact ⟨_, by rw [mul_eq_ok.2 ⟨rfl, by omega⟩, ok_bind, add_eq_ok.2 ⟨rfl, by omega⟩], by omega⟩
  · exact ⟨_, by rw [mul_eq_ok.2 ⟨rfl, by omega⟩, ok_bind, add_eq_ok.2 ⟨rfl, by omega⟩], by omega⟩

/-- The address of a parameter can be loaded from the argument block. -/
theorem exists_loadPointer {param inputs : Nat} (hparam : param < maxParams) (pointer : Register) :
    ∃ code, loadPointer pointer param inputs = .ok code := by
  obtain ⟨slot, hslot, hsmall⟩ := exists_pointerSlot hparam inputs
  rw [loadPointer, hslot, ok_bind, MemoryOperand.behind, toOffset_of_lt (by omega),
    immediate_eq_ok.2 ⟨rfl, by omega, by omega⟩, ok_bind,
    RegisterClass.pick_of_lt Register.blockArgument.isLt]
  exact ⟨_, rfl⟩

variable {domain : Domain} {table : OffsetTable} {flags : List Bool} {outputs : Nat}

/-- The strides of a parameter can be read from the table. -/
theorem exists_paramStrides (hplanned : domain.Planned outputs) (htable : table.Describes domain flags)
    (hrank : domain.master.length < 0x1000000000000000) {param : Nat} (hparam : param < domain.params.length)
    (hsmall : param < maxParams) :
    ∃ strides, table.paramStrides param = .ok strides ∧
      strides.length = domain.master.length - 1 := by
  have hmin := hplanned.rank
  rw [tensorRank] at hmin
  rw [maxParams] at hsmall
  have hrow : (table.row param).length = domain.master.length - 1 := by
    obtain ⟨rowOffset, hrow⟩ : ∃ rowOffset, table.rowOffsets[param]? = some rowOffset :=
      ⟨_, List.getElem?_eq_getElem (by rw [htable.rowOffsets]; exact hparam)⟩
    rw [(htable.leads param _ rowOffset (List.getElem?_eq_getElem hparam) hrow).length, Domain.rowDims,
      List.length_dropLast]
  have hle : (param + 1) * (table.master.length - 1) ≤ table.strides.length := by
    rw [OffsetTable.row, List.length_take, List.length_drop, htable.master] at hrow
    rw [htable.master, Nat.add_mul, Nat.one_mul]
    omega
  have hmul : param * (table.master.length - 1) ≤ (param + 1) * (table.master.length - 1) :=
    Nat.mul_le_mul_right _ (Nat.le_succ param)
  have hbound : (param + 1) * (table.master.length - 1) ≤ 12 * 0x1000000000000000 :=
    Nat.mul_le_mul (by omega) (by rw [htable.master]; omega)
  refine ⟨_, ?_, hrow⟩
  rw [OffsetTable.paramStrides, sub_eq_ok.2 ⟨by rw [htable.master]; omega, rfl⟩, ok_bind,
    mul_eq_ok.2 ⟨rfl, by omega⟩, ok_bind, add_eq_ok.2 ⟨rfl, by omega⟩, ok_bind,
    mul_eq_ok.2 ⟨rfl, by omega⟩, ok_bind, require_eq_ok.2 hle, ok_bind, Nat.add_mul, Nat.one_mul,
    Nat.add_sub_cancel_left]
  rfl

/-- **The data pointers of a static kernel can be computed.** -/
theorem exists_staticPointers (hplanned : domain.Planned outputs)
    (htable : table.Describes domain flags) (hrank : domain.master.length < 0x1000000000000000)
    {pointers : List Nat} (hpointers : InRange pointers) (hlen : pointers.length = domain.params.length)
    (hsmall : pointers.length ≤ maxParams) (inputs : Nat) :
    ∃ code, staticPointers table inputs pointers = .ok code := by
  have hmin := hplanned.rank
  rw [tensorRank] at hmin
  have htile : 1 ≤ domain.tileRank ∧ domain.tileRank ≤ 2 := by
    obtain ⟨-, -, ⟨htile, -⟩ | ⟨htile, -⟩⟩ := hplanned.split <;> omega
  have hdims : table.callDims = .ok (domain.master.length - domain.tileRank) := by
    rw [OffsetTable.callDims, htable.master, htable.tileRank]
    exact sub_eq_ok.2 ⟨by omega, rfl⟩
  have hpointer : ∀ pair ∈ pointers.zipIdx, ∃ code, staticPointer table inputs
      (domain.master.length - domain.tileRank) pointers pair.2 pair.1 = .ok code := by
    rintro ⟨pointer, param⟩ hmem
    have hparam := List.snd_lt_of_mem_zipIdx hmem
    have hp := hpointers pointer (List.fst_mem_of_mem_zipIdx hmem)
    obtain ⟨scratch, hscratch⟩ : ∃ scratch, RegisterClass.gpr64.pick
        (if param + 1 < pointers.length then pointers.getLastD 0 else Register.blockArgument.val) =
          .ok scratch := by
      split
      · refine ⟨_, RegisterClass.pick_of_lt ?_⟩
        rw [List.getLastD_eq_getLast?,
          List.getLast?_eq_some_getLast (List.ne_nil_of_length_pos (by omega))]
        exact hpointers _ (List.getLast_mem _)
      · exact ⟨_, RegisterClass.pick_of_lt Register.blockArgument.isLt⟩
    obtain ⟨load, hload⟩ := @exists_loadPointer param inputs (by omega) ⟨pointer, hp⟩
    obtain ⟨strides, hstrides, hwidth⟩ :=
      exists_paramStrides hplanned htable hrank (by omega) (by omega : param < maxParams)
    obtain ⟨products, hproducts⟩ : ∃ products,
        (List.range (domain.master.length - domain.tileRank)).mapM
          (addStaticProduct table strides ⟨pointer, hp⟩ scratch) = .ok products := by
      refine exists_mapM fun dim hdim => ?_
      rw [List.mem_range] at hdim
      rw [addStaticProduct, htable.master, get_eq_ok.2 (List.getElem?_eq_getElem (by omega)), ok_bind]
      split
      · exact ⟨_, rfl⟩
      · rw [get_eq_ok.2 (List.getElem?_eq_getElem (by omega)), ok_bind]
        split <;> exact ⟨_, rfl⟩
    rw [staticPointer, RegisterClass.pick_of_lt hp, ok_bind, hscratch, ok_bind, hload, ok_bind, hstrides,
      ok_bind, hproducts]
    exact ⟨_, rfl⟩
  obtain ⟨codes, hcodes⟩ := exists_mapM hpointer
  rw [staticPointers, hdims, ok_bind, hcodes]
  exact ⟨_, rfl⟩

end Pointers

/-- The registers of a kernel exist. -/
theorem MadeFor.inRange {kernel : Kernel} {program : Program} {domain : Domain} {w : VectorWidth}
    {mode : KernelMode} {flags : List Bool} {dims : List Nat} {long short : Region}
    (h : kernel.MadeFor program domain w mode flags dims long short) :
    InRange kernel.pointers ∧ InRange kernel.freeGprs ∧ InRange kernel.freeVecs := by
  have hpool : InRange gprPool := by
    unfold InRange
    decide
  exact ⟨fun r hr => hpool r (List.mem_of_mem_take (h.pointers_eq ▸ hr)),
    fun r hr => hpool r (List.mem_of_mem_drop (h.serves.freeGprs ▸ hr)),
    fun r hr => (h.mem_freeVecs.1 hr).1⟩

/-! ## Code -/

section Code

variable {kernel : Kernel} {program : Program} {domain : Domain} {w : VectorWidth}
  {table : OffsetTable} {flags : List Bool} {dims : List Nat} {long short : Region}

/-- The code of the body of a tile is limited by what the operations need. -/
theorem limited_emit {kind : BodyKind} {body : Region}
    (hcount : program.registers.count ≤ registerCount) (hflags : flags.length = program.inputs)
    (h : program.Allocated w kind flags body) {vecs gprs : List Nat} (hvecs : InRange vecs)
    (hgprs : InRange gprs) :
    Limited (Region.emit vecs gprs body) (Program.Spares program.ops vecs gprs) := by
  obtain ⟨region, hregion, hbody⟩ := h
  obtain ⟨region', body', hregion', hbody', hlimited⟩ :=
    @Program.exists_body program w kind flags hcount hflags
  obtain rfl := Except.ok.inj (hregion.symm.trans hregion')
  obtain rfl := Except.ok.inj (hbody.symm.trans hbody')
  exact hlimited vecs gprs hvecs hgprs

/-- The operands of a kernel agree with its data pointers; what remains depends on the mode. -/
theorem checkOperands_eq (hpointers : kernel.pointers.length = program.params) :
    kernel.checkOperands [program.inputs, program.outputs.length] [] =
      match kernel.mode with
      | .static table => do
        let described ← table.params
        require (described = program.params) (.invalid (.kernelTable described program.params))
      | .dynamic => return () := by
  have hparams := program.wellFormed.params_le
  rw [maxParams] at hparams
  have htwo : [program.inputs, program.outputs.length].length = 2 := rfl
  have hnone : ([] : List Nat).length = 0 := rfl
  have hinputs : get [program.inputs, program.outputs.length] 0 = .ok program.inputs := rfl
  have houtputs : get [program.inputs, program.outputs.length] 1 = .ok program.outputs.length := rfl
  have htotal : add program.inputs program.outputs.length = .ok program.params :=
    add_eq_ok.2 ⟨rfl, by omega⟩
  unfold checkOperands
  cases kernel.mode <;>
    simp only [require_eq_ok.2 htwo, require_eq_ok.2 hnone, hinputs, houtputs, htotal,
      require_eq_ok.2 hpointers, ok_bind]

variable (hplanned : domain.Planned program.outputs.length)
  (hlen : domain.inputShapes.length = program.inputs)
include hplanned hlen

/-- A planned domain has as many tensors as the program has parameters. -/
theorem length_params_of_planned : domain.params.length = program.params := by
  rw [Domain.params, List.length_append, hlen, hplanned.outputShapes, List.length_replicate,
    Program.params]

variable (htable : table.Describes domain flags)
include htable

/-- The operands of a kernel agree with its data pointers and its table. -/
theorem checkOperands_eq_ok
    (hmade : kernel.MadeFor program domain w (.static table) flags dims long short) :
    kernel.checkOperands [program.inputs, program.outputs.length] [] = .ok () := by
  have hparams := program.wellFormed.params_le
  rw [maxParams] at hparams
  have htotal : table.inputs + table.outputs = program.inputs + program.outputs.length := by
    rw [htable.inputs, htable.outputs, hlen, hplanned.outputShapes, List.length_replicate]
  rw [checkOperands_eq hmade.length_pointers, hmade.mode_eq]
  exact bind_eq_ok.2 ⟨_, add_eq_ok.2 ⟨htotal, by omega⟩, require_eq_ok.2 rfl⟩

/-- **The code of a static kernel** is limited by what the operations need of the registers that are
left, and by the row offsets if there is more than one row. -/
theorem limited_code (hpos : 0 < domain.elements) (hrank : domain.master.length < 0x1000000000000000)
    (hcount : program.registers.count ≤ registerCount)
    (hmade : kernel.MadeFor program domain w (.static table) flags dims long short) :
    Limited (kernel.code program.inputs program.outputs.length)
      (Program.Spares program.ops kernel.freeVecs kernel.freeGprs ∧
        (1 < domain.tiled.outer → ∀ x ∈ table.rowOffsets, FitsImmediate x)) := by
  have hparams := length_params_of_planned hplanned hlen
  obtain ⟨hpointers, hfreeGprs, hfreeVecs⟩ := hmade.inRange
  have hsmall : kernel.pointers.length ≤ maxParams := by
    rw [hmade.length_pointers]
    exact program.wellFormed.params_le
  obtain ⟨pointers, hcode⟩ := exists_staticPointers hplanned htable hrank hpointers
    (hmade.length_pointers.trans hparams.symm) hsmall program.inputs
  have hpointerCode : kernel.pointerCode program.inputs = .ok pointers := by
    rw [pointerCode, hmade.mode_eq]
    exact hcode
  refine .bind_of_ok (checkOperands_eq_ok hplanned hlen htable hmade)
    (.bind_of_ok (a := program.inputs) rfl (.bind_of_ok hpointerCode (Limited.bind_pure ?_)))
  have hpool : kernel.schedulerPool =
      kernel.freeGprs ++ [Register.indexArgument.val, Register.blockArgument.val] := by
    rw [schedulerPool, hmade.mode_eq]
  have hmode : kernel.scheduleMode = .static table.tiled table.rowOffsets := hmade.scheduleMode
  have hdims := hmade.length_dims.trans hmade.length_pointers.symm
  rw [scheduler, hmade.body, hmade.input, hpool, hmode, ← htable.tiled]
  refine Entry.limited_scheduler ⟨hpointers, Register.indexArgument.isLt, ?_, ?_⟩
    Register.blockArgument.isLt (htable.tiled ▸ (hplanned.tiled_pos hpos).2) w.lanes_pos w.lanes_le
    hmade.length_pointers program.wellFormed.params_le ?_
  · exact .of_le w.lanes_le rfl hdims
      (limited_emit hcount hmade.length_flags hmade.tiles.long hfreeVecs hfreeGprs)
  · exact .of_le (by norm_num : 1 ≤ 16) rfl hdims
      (limited_emit hcount hmade.length_flags hmade.tiles.short hfreeVecs hfreeGprs)
  · rw [htable.rowOffsets, hparams, hmade.length_pointers]

end Code

end Kernel

/-! ## The capacities of a program -/

/-- A program whose values have registers, and that leaves free ones to the operations that need
them. -/
structure Program.FitsRegisters (program : Program) : Prop where
  values : program.registers.count ≤ 16
  vec : (∃ op ∈ program.ops, op.needsVec = true) → program.registers.count ≤ 15
  gpr : (∃ op ∈ program.ops, op.needsGpr = true) → program.params ≤ 11

namespace Kernel.MadeFor

variable {kernel : Kernel} {program : Program} {domain : Domain} {w : VectorWidth} {mode : KernelMode}
  {flags : List Bool} {dims : List Nat} {long short : Region}
  (h : kernel.MadeFor program domain w mode flags dims long short)
include h

/-- A vector register is free if the values leave one. -/
theorem freeVecs_ne_nil : kernel.freeVecs ≠ [] ↔ program.registers.count ≤ 15 := by
  have hmem : ∀ r, r ∈ kernel.freeVecs ↔ r < 16 ∧ ¬ r < program.registers.count := fun r => by
    rw [h.mem_freeVecs, program.mem_registers_iff, registerCount]
  constructor
  · intro hne
    obtain ⟨r, hr⟩ := List.exists_mem_of_ne_nil _ hne
    have := (hmem r).1 hr
    omega
  · intro hle
    exact List.ne_nil_of_mem ((hmem 15).2 (by omega))

/-- The parameters leave the other general registers of the pool. -/
theorem length_freeGprs : kernel.freeGprs.length = 12 - program.params := by
  have hpool : gprPool.length = 12 := by decide
  rw [h.serves.freeGprs, List.length_drop, hpool]

/-- **The registers that a kernel leaves** are what the operations need if the program leaves free
ones. -/
theorem spares_iff (hcount : program.registers.count ≤ registerCount) :
    Program.Spares program.ops kernel.freeVecs kernel.freeGprs ↔ program.FitsRegisters := by
  have hgprs : kernel.freeGprs ≠ [] ↔ program.params ≤ 11 := by
    rw [← List.length_pos_iff, h.length_freeGprs]
    omega
  unfold Program.Spares
  rw [h.freeVecs_ne_nil, hgprs]
  constructor
  · intro hall
    exact ⟨hcount, fun ⟨op, hop, hneeds⟩ => (hall op hop).1 hneeds,
      fun ⟨op, hop, hneeds⟩ => (hall op hop).2 hneeds⟩
  · intro hfits op hop
    exact ⟨fun hneeds => hfits.vec ⟨op, hop, hneeds⟩, fun hneeds => hfits.gpr ⟨op, hop, hneeds⟩⟩

end Kernel.MadeFor

namespace Compiler

variable {compiler : Compiler} {program : Program} {domain : Domain} {w : VectorWidth}

/-- The scheduler of a program makes a kernel. -/
theorem exists_kernel {mode : KernelMode} {region : Region}
    (h : schedulerRegion program domain w mode = .ok region) :
    ∃ kernel, Kernel.ofRegion mode region = .ok kernel := by
  obtain ⟨inputDims, -, h⟩ := bind_eq_ok.1 h
  obtain ⟨last, -, h⟩ := bind_eq_ok.1 h
  obtain ⟨lowered, hlowered, h⟩ := bind_eq_ok.1 h
  obtain ⟨vector, -, h⟩ := bind_eq_ok.1 h
  obtain ⟨scalar, -, h⟩ := bind_eq_ok.1 h
  obtain ⟨_, -, h⟩ := bind_eq_ok.1 h
  obtain rfl := pure_eq_ok.1 h
  obtain ⟨hflags, hlowered⟩ := require_bind_eq_ok.1 hlowered
  obtain ⟨hcount, hlowered⟩ := require_bind_eq_ok.1 hlowered
  obtain ⟨vectorBody, hvector, hlowered⟩ := bind_eq_ok.1 hlowered
  obtain ⟨scalarBody, hscalar, hlowered⟩ := bind_eq_ok.1 hlowered
  obtain rfl := pure_eq_ok.1 hlowered
  obtain ⟨_, long, hvector', hlong, -⟩ := @Program.exists_body program w .vector _ hcount hflags
  obtain ⟨_, short, hscalar', hshort, -⟩ := @Program.exists_body program w .scalar _ hcount hflags
  obtain rfl := Except.ok.inj (hvector.symm.trans hvector')
  obtain rfl := Except.ok.inj (hscalar.symm.trans hscalar')
  have hregisters := program.keeps_registers.length
  exact Kernel.exists_ofRegion (Program.ne_nil_of_body hregisters hvector)
    (Program.ne_nil_of_body hregisters hscalar) hlong hshort

/-- **The code of a kernel** for a planned domain is limited by what limits it once the registers of the
values exist. -/
theorem limited_generate_of_code {mode : KernelMode} {P : Prop}
    (hisa : compiler.config.isa.vectorWidth = .ok w)
    (hplanned : domain.Planned program.outputs.length)
    (hlen : domain.inputShapes.length = program.inputs) (hP : P → program.registers.count ≤ 16)
    (hcode : ∀ (kernel : Kernel) (flags : List Bool) (dims : List Nat) (long short : Region),
      kernel.MadeFor program domain w mode flags dims long short →
      program.registers.count ≤ registerCount →
      Limited (kernel.code program.inputs program.outputs.length) P) :
    Limited (compiler.generate program domain mode) P := by
  have hscheduler : Limited (schedulerRegion program domain w mode)
      (program.registers.count ≤ registerCount) := limited_schedulerRegion hplanned hlen
  refine (Limited.bind_of_ok hisa (hscheduler.bind fun region hregion => ?_)).congr
    (and_iff_right_of_imp hP)
  obtain ⟨kernel, hkernel⟩ := exists_kernel hregion
  obtain ⟨flags, dims, long, short, hmade⟩ := madeFor_of_ofRegion hregion hkernel
  exact .bind_of_ok hkernel (hcode kernel flags dims long short hmade (hscheduler.iff_of_ok hregion))

/-- **The code of a static kernel** for a planned domain is limited by the registers of the program,
and by the row offsets if there is more than one row.

**Proof sketch.** The registers of the values limit the scheduler, the other registers and the offsets
limit the code of the kernel, and nothing limits what lies between. -/
theorem limited_generate (hisa : compiler.config.isa.vectorWidth = .ok w)
    (hplanned : domain.Planned program.outputs.length)
    (hlen : domain.inputShapes.length = program.inputs) (hrank : domain.master.length < 0x1000000000000000)
    (hpos : 0 < domain.elements) (hsmall : domain.elements < 0x8000000000000000)
    {table : OffsetTable} (htable : OffsetTable.ofDomain domain = .ok table) :
    Limited (compiler.generate program domain (.static table))
      (program.FitsRegisters ∧ (1 < domain.tiled.outer → ∀ x ∈ table.rowOffsets, FitsImmediate x)) := by
  apply limited_generate_of_code hisa hplanned hlen fun hfits => hfits.1.values
  intro kernel flags dims long short hmade hcount
  have hdescribes := OffsetTable.describes_of_ofDomain hplanned hpos hsmall hmade.broadcast htable
  rw [← hmade.spares_iff hcount]
  exact Kernel.limited_code hplanned hlen hdescribes hpos hrank hcount hmade

end Compiler

end Pointwise
