import Mathlib.Data.List.Sort
import Pointwise.Compiler
import Pointwise.Proofs.Offset.Table
import Pointwise.Proofs.Program.Registers
import Pointwise.Proofs.Region.Code

/-!
# The registers of a kernel

The data pointers of a kernel are the first general registers that may be assigned at all, one for
each parameter, inputs first: they are collected from the region as the registers that occur in it,
and every parameter occurs in both bodies. The vector registers that occur are those of the values.

## Main definitions

* `Program.AddressesThrough` — a body that addresses parameters through data pointers.
* `Kernel.MadeFor` — a kernel that was made for a program.
* `Kernel.Serves` — what the calls of such a kernel need.

## Main results

* `Program.addressesThrough_of_allocated` — the body of a tile.
* `Compiler.madeFor_of_ofRegion` — the kernel of a program.
* `Kernel.MadeFor.pointers_eq`, `Kernel.MadeFor.mem_freeVecs` — its registers.
* `Compiler.generate_eq_ok` — the code of a kernel.
-/

set_option autoImplicit false

namespace Pointwise

/-! ## Bodies -/

/-- The body of a tile with its registers. -/
def Program.Allocated (program : Program) (w : VectorWidth) (kind : BodyKind) (flags : List Bool)
    (body : Region) : Prop :=
  ∃ region, program.body w kind flags program.registers.registers = .ok region ∧
    Region.allocateAll Kernel.vecPool Kernel.gprPool region = .ok body

/-- A body that addresses parameters through data pointers: entry by entry, an operation that reads
an input goes through its pointer, no other operation accesses memory, and the stores behind the
operations go through the pointers of the outputs. -/
structure Program.AddressesThrough (program : Program) (w : VectorWidth) (kind : BodyKind)
    (flags : List Bool) (pointers : List Nat) (body : Region) : Prop where
  length : body.length = program.ops.length + program.outputs.length
  load : ∀ (i p : Nat), program.ops[i]? = some (.input p) → ∃ (flag : Bool) (pointer target : Nat),
    flags[p]? = some flag ∧ pointers[p]? = some pointer ∧
      program.registers.registers[i]? = some target ∧
      body[i]? = some (.leaf (loadOp w kind flag) [pointer] [target])
  compute : ∀ (i : Nat) (op : MicroOp), program.ops[i]? = some op → (∀ p, op ≠ .input p) →
    ∃ (leaf : LeafOp) (input : List Nat) (target : Nat), leaf.dataFlow = .vecToVec ∧
      (∀ r ∈ input, r ∈ program.registers.registers) ∧
      program.registers.registers[i]? = some target ∧ body[i]? = some (.leaf leaf input [target])
  store : ∀ (k value : Nat), program.outputs[k]? = some value → ∃ pointer source : Nat,
    pointers[program.inputs + k]? = some pointer ∧
      program.registers.registers[value]? = some source ∧
      body[program.ops.length + k]? = some (.leaf (storeOp w kind) [source] [pointer])

namespace Program

variable {program : Program} {w : VectorWidth} {kind : BodyKind} {flags : List Bool}

/-- **The body of a tile addresses parameters through the first registers of the pool.** -/
theorem addressesThrough_of_allocated {body : Region} (h : program.Allocated w kind flags body) :
    program.AddressesThrough w kind flags (Kernel.gprPool.take program.params) body := by
  obtain ⟨region, hregion, hbody⟩ := h
  refine ⟨length_of_body hregion hbody, fun i p hi => ?_, fun i op hi hne => ?_, fun k value hk => ?_⟩
  · obtain ⟨target, e, e', htarget, he', hentry, hallocate⟩ := entry_of_op hregion hbody hi
    obtain ⟨d, hd, hload, -⟩ := leaf_of_entryOf hentry hallocate
    obtain ⟨flag, pointer, hflag, hpointer, rfl⟩ := hload p rfl
    obtain rfl := Kernel.getElem?_vecPool hd
    have hp := (program.wellFormed.input_mem_iff p).1 (List.mem_of_getElem? hi)
    refine ⟨flag, pointer, d, hflag, ?_, htarget, he'⟩
    rwa [List.getElem?_take_of_lt (by rw [params]; omega)]
  · obtain ⟨target, e, e', htarget, he', hentry, hallocate⟩ := entry_of_op hregion hbody hi
    obtain ⟨d, hd, -, hcompute⟩ := leaf_of_entryOf hentry hallocate
    obtain ⟨leaf, numbers, input, hflow, hnumbers, hinput, rfl⟩ := hcompute hne
    obtain rfl := Kernel.getElem?_vecPool hd
    obtain rfl := Kernel.eq_of_map_vecPool hinput
    exact ⟨leaf, input, d, hflow, hnumbers, htarget, he'⟩
  · obtain ⟨e, e', he', hentry, hallocate⟩ := entry_of_store hregion hbody hk
    obtain ⟨pointer, number, source, hpointer, hnumber, hsource, rfl⟩ :=
      leaf_of_storeEntry hentry hallocate
    obtain rfl := Kernel.getElem?_vecPool hsource
    obtain ⟨hlt, -⟩ := List.getElem?_eq_some_iff.1 hk
    refine ⟨pointer, source, ?_, hnumber, he'⟩
    rwa [List.getElem?_take_of_lt (by rw [params]; omega)]

namespace AddressesThrough

variable {pointers : List Nat} {body : Region}
  (h : program.AddressesThrough w kind flags pointers body)
include h

/-- The entries of a body are loads through pointers, operations on vectors and stores through
pointers. -/
theorem cases {e : Entry} (he : e ∈ body) :
    (∃ op pointer target, LeafOp.dataFlow op = .gprToVec ∧ pointer ∈ pointers ∧
      target ∈ program.registers.registers ∧ e = .leaf op [pointer] [target]) ∨
    (∃ op input target, LeafOp.dataFlow op = .vecToVec ∧
      (∀ r ∈ input, r ∈ program.registers.registers) ∧ target ∈ program.registers.registers ∧
      e = .leaf op input [target]) ∨
    ∃ op source pointer, LeafOp.dataFlow op = .vecToGpr ∧ pointer ∈ pointers ∧
      source ∈ program.registers.registers ∧ e = .leaf op [source] [pointer] := by
  obtain ⟨i, hi⟩ := List.mem_iff_getElem?.1 he
  obtain ⟨hlt, -⟩ := List.getElem?_eq_some_iff.1 hi
  rw [h.length] at hlt
  rcases Nat.lt_or_ge i program.ops.length with hop | hstore
  · have hget := List.getElem?_eq_getElem hop
    by_cases hinput : ∃ p, program.ops[i] = .input p
    · obtain ⟨p, hp⟩ := hinput
      obtain ⟨flag, pointer, target, -, hpointer, htarget, hleaf⟩ := h.load i p (hp ▸ hget)
      exact .inl ⟨_, pointer, target, dataFlow_loadOp w kind flag, List.mem_of_getElem? hpointer,
        List.mem_of_getElem? htarget, Option.some.inj (hi.symm.trans hleaf)⟩
    · obtain ⟨leaf, input, target, hflow, hregisters, htarget, hleaf⟩ :=
        h.compute i _ hget fun p hp => hinput ⟨p, hp⟩
      exact .inr (.inl ⟨leaf, input, target, hflow, hregisters, List.mem_of_getElem? htarget,
        Option.some.inj (hi.symm.trans hleaf)⟩)
  · obtain ⟨k, rfl⟩ := Nat.exists_eq_add_of_le hstore
    obtain ⟨pointer, source, hpointer, hsource, hleaf⟩ :=
      h.store k _ (List.getElem?_eq_getElem (by omega))
    exact .inr (.inr ⟨_, source, pointer, dataFlow_storeOp w kind, List.mem_of_getElem? hpointer,
      List.mem_of_getElem? hsource, Option.some.inj (hi.symm.trans hleaf)⟩)

/-- A body consists of leaf operations. -/
theorem leaf {e : Entry} (he : e ∈ body) : ∃ op input output, e = .leaf op input output := by
  rcases h.cases he with ⟨op, r, t, -, -, -, rfl⟩ | ⟨op, r, t, -, -, -, rfl⟩ | ⟨op, r, t, -, -, -, rfl⟩ <;>
    exact ⟨_, _, _, rfl⟩

/-- **The general registers that occur in a body** are its data pointers. -/
theorem mem_occurring_gpr (hlen : pointers.length = program.params) {r : Nat} :
    r ∈ Region.occurring .gpr body ↔ r ∈ pointers := by
  rw [Region.mem_occurring]
  constructor
  · rintro ⟨e, he, hr⟩
    rcases h.cases he with ⟨op, r', t, hflow, hmem, -, rfl⟩ | ⟨op, r', t, hflow, -, -, rfl⟩ |
      ⟨op, t, r', hflow, hmem, -, rfl⟩ <;>
      simp only [Entry.occurring, hflow, DataFlow.operandsOf, DataFlow.inputKind,
        DataFlow.outputKind] at hr <;> simp_all
  · intro hr
    obtain ⟨p, hp⟩ := List.mem_iff_getElem?.1 hr
    have hlt := (List.getElem?_eq_some_iff.1 hp).1
    rw [hlen, params] at hlt
    rcases Nat.lt_or_ge p program.inputs with hinput | houtput
    · obtain ⟨i, hi⟩ := List.mem_iff_getElem?.1 ((program.wellFormed.input_mem_iff p).2 hinput)
      obtain ⟨flag, pointer, target, -, hpointer, -, hleaf⟩ := h.load i p hi
      obtain rfl := Option.some.inj (hp.symm.trans hpointer)
      refine ⟨_, List.mem_of_getElem? hleaf, ?_⟩
      simp [Entry.occurring, dataFlow_loadOp, DataFlow.operandsOf, DataFlow.inputKind]
    · obtain ⟨k, rfl⟩ := Nat.exists_eq_add_of_le houtput
      obtain ⟨pointer, source, hpointer, -, hleaf⟩ := h.store k _ (List.getElem?_eq_getElem (by omega))
      obtain rfl := Option.some.inj (hp.symm.trans hpointer)
      refine ⟨_, List.mem_of_getElem? hleaf, ?_⟩
      simp [Entry.occurring, dataFlow_storeOp, DataFlow.operandsOf, DataFlow.inputKind,
        DataFlow.outputKind]

/-- **The vector registers that occur in a body** are those of the values. -/
theorem mem_occurring_vec {r : Nat} :
    r ∈ Region.occurring .vec body ↔ r ∈ program.registers.registers := by
  rw [Region.mem_occurring]
  constructor
  · rintro ⟨e, he, hr⟩
    rcases h.cases he with ⟨op, r', t, hflow, -, hmem, rfl⟩ | ⟨op, input, t, hflow, hinput, hmem, rfl⟩ |
      ⟨op, t, r', hflow, -, hmem, rfl⟩ <;>
      simp only [Entry.occurring, hflow, DataFlow.operandsOf, DataFlow.inputKind,
        DataFlow.outputKind] at hr <;> simp_all
    rcases hr with hr | rfl
    · exact hinput r hr
    · exact hmem
  · intro hr
    obtain ⟨i, hi⟩ := List.mem_iff_getElem?.1 hr
    have hlt := (List.getElem?_eq_some_iff.1 hi).1
    rw [program.keeps_registers.length] at hlt
    have hget := List.getElem?_eq_getElem hlt
    by_cases hinput : ∃ p, program.ops[i] = .input p
    · obtain ⟨p, hp⟩ := hinput
      obtain ⟨flag, pointer, target, -, -, htarget, hleaf⟩ := h.load i p (hp ▸ hget)
      obtain rfl := Option.some.inj (hi.symm.trans htarget)
      refine ⟨_, List.mem_of_getElem? hleaf, ?_⟩
      simp [Entry.occurring, dataFlow_loadOp, DataFlow.operandsOf, DataFlow.inputKind,
        DataFlow.outputKind]
    · obtain ⟨leaf, input, target, hflow, -, htarget, hleaf⟩ :=
        h.compute i _ hget fun p hp => hinput ⟨p, hp⟩
      obtain rfl := Option.some.inj (hi.symm.trans htarget)
      refine ⟨_, List.mem_of_getElem? hleaf, ?_⟩
      simp [Entry.occurring, hflow, DataFlow.operandsOf, DataFlow.inputKind, DataFlow.outputKind]

end AddressesThrough

end Program

/-! ## Kernels for a program -/

/-- The two tiles of a kernel. -/
structure Kernel.Tiles (program : Program) (flags : List Bool) (w : VectorWidth) (dims : List Nat)
    (long short : Region) : Prop where
  long : program.Allocated w .vector flags long
  short : program.Allocated w .scalar flags short
  /-- A tile moves the pointers of the parameters that move along the rows. -/
  advances : ∀ (increment param : Nat),
    Tile.advances ⟨increment, program.inputs, dims, elementSize⟩ param = Domain.moves flags param

/-- A kernel that was made for a program whose inputs are broadcast along the rows as the flags
say. -/
structure Kernel.Serves (kernel : Kernel) (program : Program) (flags : List Bool) (w : VectorWidth) :
    Prop where
  body : ∃ dims long short, Kernel.Tiles program flags w dims long short ∧
    kernel.body = [.tile ⟨w.lanes, program.inputs, dims, elementSize⟩ long [] [],
      .tile ⟨1, program.inputs, dims, elementSize⟩ short [] []]
  input : kernel.input = [program.inputs, program.outputs.length, w.lanes]
  pointers : kernel.pointers = Kernel.gprPool.take program.params
  freeGprs : kernel.freeGprs = Kernel.gprPool.drop program.params
  freeVecs : ∀ r ∈ program.registers.registers, r ∉ kernel.freeVecs

/-- The tiles move the pointers that move along the rows. -/
theorem Tile.advances_eq_moves {inputDims : List Nat} {inputs : Nat} (increment outputs last : Nat)
    (hlen : inputDims.length = inputs) (param : Nat) :
    Tile.advances ⟨increment, inputs, inputDims ++ List.replicate outputs last, elementSize⟩ param =
      Domain.moves (inputDims.map (· = 1)) param := by
  rw [Tile.advances, Domain.moves, List.getElem?_map]
  rcases Nat.lt_or_ge param inputs with hlt | hle
  · dsimp only
    rw [List.getElem?_append_left (by omega), List.getElem?_eq_getElem (by omega)]
    by_cases hone : inputDims[param] = 1 <;> simp [Nat.not_le.2 hlt, hone]
  · have hnone : inputDims[param]? = none := List.getElem?_eq_none (by omega)
    simp [hle, hnone]

/-- The first registers of the pool, collected and sorted. -/
theorem Kernel.eq_take_of_ascending {registers : List Nat} {params : Nat}
    (hsorted : registers.Pairwise (· < ·)) (hmem : ∀ r, r ∈ registers ↔ r ∈ gprPool.take params) :
    registers = gprPool.take params := by
  have hpool : (gprPool.take params).Pairwise (· < ·) :=
    List.Pairwise.sublist (List.take_sublist _ _) (by decide)
  have hperm : registers.Perm (gprPool.take params) :=
    (List.perm_ext_iff_of_nodup (hsorted.imp Nat.ne_of_lt) (hpool.imp Nat.ne_of_lt)).2 hmem
  exact hperm.eq_of_pairwise (fun _ _ _ _ hab hba => absurd hba hab.asymm) hsorted hpool

/-- The free general registers of a kernel. -/
theorem Kernel.filter_gprPool {params : Nat} (h : params ≤ maxParams) :
    gprPool.filter (· ∉ gprPool.take params) = gprPool.drop params := by
  have hall : ∀ n < maxParams + 1, gprPool.filter (· ∉ gprPool.take n) = gprPool.drop n := by decide
  exact hall params (by omega)

/-- Nothing is taken out of the pool. -/
theorem Kernel.filter_nil : gprPool.filter (· ∉ ([] : List Nat)) = gprPool := by decide

section Containers

variable {body : Region} {e : Entry}

/-- A tile without registers of its own leaves the pools as they are. -/
theorem Entry.allocate_tile {tile : Tile}
    (h : (Entry.tile tile body [] []).allocate Kernel.vecPool Kernel.gprPool = .ok e) :
    ∃ body', Region.allocateAll Kernel.vecPool Kernel.gprPool body = .ok body' ∧
      e = .tile tile body' [] [] := by
  rw [Entry.allocate] at h
  obtain ⟨output, houtput, h⟩ := Checked.bind_eq_ok.1 h
  obtain rfl : [] = output := by simpa [Region.replaceRegisters] using houtput
  obtain ⟨-, h⟩ := Checked.require_bind_eq_ok.1 h
  obtain ⟨body', hbody, h⟩ := Checked.bind_eq_ok.1 h
  rw [Kernel.filter_nil] at hbody
  exact ⟨body', hbody, (Checked.pure_eq_ok.1 h).symm⟩

/-- So does a scheduler. -/
theorem Entry.allocate_scheduler {schedule : ScheduleMode} {input : List Nat}
    (h : (Entry.scheduler schedule body input []).allocate Kernel.vecPool Kernel.gprPool = .ok e) :
    ∃ body', Region.allocateAll Kernel.vecPool Kernel.gprPool body = .ok body' ∧
      e = .scheduler schedule body' input [] := by
  rw [Entry.allocate] at h
  obtain ⟨output, houtput, h⟩ := Checked.bind_eq_ok.1 h
  obtain rfl : [] = output := by simpa [Region.replaceRegisters] using houtput
  obtain ⟨-, h⟩ := Checked.require_bind_eq_ok.1 h
  obtain ⟨body', hbody, h⟩ := Checked.bind_eq_ok.1 h
  rw [Kernel.filter_nil] at hbody
  exact ⟨body', hbody, (Checked.pure_eq_ok.1 h).symm⟩

end Containers

/-- **The kernel of a program.** -/
theorem Kernel.ofRegion_eq_ok {mode : KernelMode} {schedule : ScheduleMode} {vector scalar : Tile}
    {vectorBody scalarBody : Region} {input : List Nat} {kernel : Kernel}
    (h : ofRegion mode [.scheduler schedule
      [.tile vector vectorBody [] [], .tile scalar scalarBody [] []] input []] = .ok kernel) :
    ∃ long short, Region.allocateAll vecPool gprPool vectorBody = .ok long ∧
      Region.allocateAll vecPool gprPool scalarBody = .ok short ∧
      kernel.mode = mode ∧ kernel.scheduleMode = schedule ∧
      kernel.body = [.tile vector long [] [], .tile scalar short [] []] ∧ kernel.input = input ∧
      kernel.pointers = ascending (Region.occurring .gpr long ++ Region.occurring .gpr short) ∧
      kernel.freeGprs = gprPool.filter (· ∉ kernel.pointers) ∧
      kernel.freeVecs = vecPool.filter
        (· ∉ ascending (Region.occurring .vec long ++ Region.occurring .vec short)) := by
  obtain ⟨-, h⟩ := Checked.require_bind_eq_ok.1 h
  obtain ⟨allocation, hallocation, h⟩ := Checked.bind_eq_ok.1 h
  obtain ⟨-, hallocation⟩ := Checked.require_bind_eq_ok.1 hallocation
  obtain ⟨region, hregion, hallocation⟩ := Checked.bind_eq_ok.1 hallocation
  rw [Checked.pure_eq_ok] at hallocation
  subst hallocation
  obtain ⟨e, _, he, hnil, rfl⟩ := List.forall₂_cons_left_iff.1 (Region.allocateAll_eq_ok.1 hregion)
  cases hnil
  obtain ⟨body, hbody, rfl⟩ := Entry.allocate_scheduler he
  obtain ⟨vector', _, hvector, hrest, rfl⟩ :=
    List.forall₂_cons_left_iff.1 (Region.allocateAll_eq_ok.1 hbody)
  obtain ⟨scalar', _, hscalar, hnil, rfl⟩ := List.forall₂_cons_left_iff.1 hrest
  cases hnil
  obtain ⟨long, hlong, rfl⟩ := Entry.allocate_tile hvector
  obtain ⟨short, hshort, rfl⟩ := Entry.allocate_tile hscalar
  rw [Checked.pure_eq_ok] at h
  subst h
  have hoccurring : ∀ kind, Region.occurring kind [.scheduler schedule
      [.tile vector long [] [], .tile scalar short [] []] input []] =
        Region.occurring kind long ++ Region.occurring kind short := by
    intro kind
    simp [Region.occurring, Entry.occurring, DataFlow.operandsOf, DataFlow.inputKind]
  refine ⟨long, short, hlong, hshort, rfl, rfl, rfl, rfl, ?_, rfl, ?_⟩
  · dsimp only
    rw [hoccurring]
  · dsimp only
    rw [hoccurring]

/-- What a tile knows. -/
theorem Tile.eq_of_create {body : Region} {increment inputs outputs elemSize : Nat}
    {dims : List Nat} {tile : Tile}
    (h : Tile.create body increment inputs outputs dims elemSize = .ok tile) :
    tile = ⟨increment, inputs, dims, elemSize⟩ := by
  obtain ⟨-, h⟩ := Checked.require_bind_eq_ok.1 h
  obtain ⟨-, h⟩ := Checked.require_bind_eq_ok.1 h
  obtain ⟨_, -, h⟩ := Checked.bind_eq_ok.1 h
  obtain ⟨-, h⟩ := Checked.require_bind_eq_ok.1 h
  exact (Checked.pure_eq_ok.1 h).symm

/-- What is known of the kernel of a program before code is generated: it has the two tiles, and its
pools are what the registers in these leave. -/
structure Kernel.MadeFor (kernel : Kernel) (program : Program) (domain : Domain) (w : VectorWidth)
    (mode : KernelMode) (flags : List Bool) (dims : List Nat) (long short : Region) : Prop where
  broadcast : domain.broadcastFlags = .ok flags
  length_flags : flags.length = program.inputs
  length_dims : dims.length = program.params
  tiles : Kernel.Tiles program flags w dims long short
  mode_eq : kernel.mode = mode
  scheduleMode : kernel.scheduleMode = mode.schedule
  body : kernel.body = [.tile ⟨w.lanes, program.inputs, dims, elementSize⟩ long [] [],
    .tile ⟨1, program.inputs, dims, elementSize⟩ short [] []]
  input : kernel.input = [program.inputs, program.outputs.length, w.lanes]
  pointers : kernel.pointers = ascending (Region.occurring .gpr long ++ Region.occurring .gpr short)
  freeGprs : kernel.freeGprs = Kernel.gprPool.filter (· ∉ kernel.pointers)
  freeVecs : kernel.freeVecs = Kernel.vecPool.filter
    (· ∉ ascending (Region.occurring .vec long ++ Region.occurring .vec short))

/-- **The kernel of a program**, from its scheduler. -/
theorem Compiler.madeFor_of_ofRegion {program : Program} {domain : Domain} {w : VectorWidth}
    {mode : KernelMode} {region : Region} {kernel : Kernel}
    (hregion : schedulerRegion program domain w mode = .ok region)
    (hkernel : Kernel.ofRegion mode region = .ok kernel) :
    ∃ flags dims long short, kernel.MadeFor program domain w mode flags dims long short := by
  obtain ⟨inputDims, hinputDims, hregion⟩ := Checked.bind_eq_ok.1 hregion
  obtain ⟨last, -, hregion⟩ := Checked.bind_eq_ok.1 hregion
  obtain ⟨lowered, hlowered, hregion⟩ := Checked.bind_eq_ok.1 hregion
  obtain ⟨vector, hvector, hregion⟩ := Checked.bind_eq_ok.1 hregion
  obtain ⟨scalar, hscalar, hregion⟩ := Checked.bind_eq_ok.1 hregion
  obtain ⟨_, -, hregion⟩ := Checked.bind_eq_ok.1 hregion
  obtain rfl := Checked.pure_eq_ok.1 hregion
  obtain ⟨hlen, hlowered⟩ := Checked.require_bind_eq_ok.1 hlowered
  obtain ⟨-, hlowered⟩ := Checked.require_bind_eq_ok.1 hlowered
  obtain ⟨vectorBody, hvectorBody, hlowered⟩ := Checked.bind_eq_ok.1 hlowered
  obtain ⟨scalarBody, hscalarBody, hlowered⟩ := Checked.bind_eq_ok.1 hlowered
  obtain rfl := Checked.pure_eq_ok.1 hlowered
  obtain rfl := Tile.eq_of_create hvector
  obtain rfl := Tile.eq_of_create hscalar
  obtain ⟨long, short, hlong, hshort, hmode, hschedule, hbody, hinput, hpointers, hfreeGprs,
    hfreeVecs⟩ := Kernel.ofRegion_eq_ok hkernel
  refine ⟨inputDims.map (· = 1), _, long, short, ?_, hlen, ?_, ⟨⟨_, hvectorBody, hlong⟩,
    ⟨_, hscalarBody, hshort⟩, fun increment param => ?_⟩, hmode, hschedule, hbody, hinput, hpointers,
    hfreeGprs, hfreeVecs⟩
  · rw [Domain.broadcastFlags, hinputDims]
    rfl
  · rw [List.length_map] at hlen
    rw [List.length_append, List.length_replicate, hlen, Program.params]
  · exact Tile.advances_eq_moves increment _ _ (by simpa using hlen) param

namespace Kernel.MadeFor

variable {kernel : Kernel} {program : Program} {domain : Domain} {w : VectorWidth}
  {mode : KernelMode} {flags : List Bool} {dims : List Nat} {long short : Region}
  (h : kernel.MadeFor program domain w mode flags dims long short)
include h

/-- **The data pointers of a kernel** are the first registers of the pool: every parameter is
addressed by both bodies. -/
theorem pointers_eq : kernel.pointers = gprPool.take program.params := by
  obtain ⟨hsorted, hmem⟩ := ascending_spec (Region.occurring .gpr long ++ Region.occurring .gpr short)
  rw [← h.pointers] at hsorted hmem
  have hlen : (gprPool.take program.params).length = program.params := by
    rw [List.length_take]
    exact Nat.min_eq_left program.wellFormed.params_le
  refine eq_take_of_ascending hsorted fun r => ?_
  rw [hmem, List.mem_append, (Program.addressesThrough_of_allocated h.tiles.long).mem_occurring_gpr hlen,
    (Program.addressesThrough_of_allocated h.tiles.short).mem_occurring_gpr hlen, or_self]

/-- There is one for each parameter. -/
theorem length_pointers : kernel.pointers.length = program.params := by
  rw [h.pointers_eq, List.length_take]
  exact Nat.min_eq_left program.wellFormed.params_le

/-- **The free vector registers of a kernel** are those that hold no value. -/
theorem mem_freeVecs {r : Nat} :
    r ∈ kernel.freeVecs ↔ r < registerCount ∧ r ∉ program.registers.registers := by
  have hall : ∀ r, r ∈ ascending (Region.occurring .vec long ++ Region.occurring .vec short) ↔
      r ∈ program.registers.registers := by
    intro r
    rw [(ascending_spec _).2, List.mem_append,
      (Program.addressesThrough_of_allocated h.tiles.long).mem_occurring_vec,
      (Program.addressesThrough_of_allocated h.tiles.short).mem_occurring_vec, or_self]
  rw [h.freeVecs, List.mem_filter, decide_eq_true_eq, hall, vecPool, List.mem_range]

/-- **A kernel serves its program.** -/
theorem serves : kernel.Serves program flags w where
  body := ⟨dims, long, short, h.tiles, h.body⟩
  input := h.input
  pointers := h.pointers_eq
  freeGprs := by
    rw [h.freeGprs, h.pointers_eq]
    exact filter_gprPool program.wellFormed.params_le
  freeVecs r hr hfree := (h.mem_freeVecs.1 hfree).2 hr

end Kernel.MadeFor

/-- The code of a kernel, taken apart into its pieces. -/
theorem Kernel.code_eq_ok {kernel : Kernel} {inputs outputs : Nat} {code : Code}
    (h : kernel.code inputs outputs = .ok code) :
    ∃ pointers rows, kernel.pointerCode inputs = .ok pointers ∧
      kernel.scheduler.emit kernel.freeVecs kernel.schedulerPool = .ok rows ∧
      code = preamble ++ pointers ++ rows ++ postamble := by
  obtain ⟨_, -, h⟩ := Checked.bind_eq_ok.1 h
  obtain ⟨inputs', hinputs, h⟩ := Checked.bind_eq_ok.1 h
  obtain rfl : inputs = inputs' := by simpa using hinputs
  obtain ⟨pointers, hpointers, h⟩ := Checked.bind_eq_ok.1 h
  obtain ⟨rows, hrows, h⟩ := Checked.bind_eq_ok.1 h
  exact ⟨pointers, rows, hpointers, hrows, (Checked.pure_eq_ok.1 h).symm⟩

/-- **The code of a kernel.** It saves registers, computes the data pointers, runs the scheduler and
restores the registers. -/
theorem Compiler.generate_eq_ok {compiler : Compiler} {program : Program} {domain : Domain}
    {mode : KernelMode} {code : Code} (h : compiler.generate program domain mode = .ok code) :
    ∃ (w : VectorWidth) (flags : List Bool) (kernel : Kernel) (pointers rows : Code),
      compiler.config.isa.vectorWidth = .ok w ∧ domain.broadcastFlags = .ok flags ∧
      flags.length = program.inputs ∧ kernel.Serves program flags w ∧ kernel.mode = mode ∧
      kernel.scheduleMode = mode.schedule ∧ kernel.pointerCode program.inputs = .ok pointers ∧
      kernel.scheduler.emit kernel.freeVecs kernel.schedulerPool = .ok rows ∧
      code = Kernel.preamble ++ pointers ++ rows ++ Kernel.postamble := by
  obtain ⟨w, hw, h⟩ := Checked.bind_eq_ok.1 h
  obtain ⟨region, hregion, h⟩ := Checked.bind_eq_ok.1 h
  obtain ⟨kernel, hkernel, hcode⟩ := Checked.bind_eq_ok.1 h
  obtain ⟨flags, dims, long, short, hmade⟩ := madeFor_of_ofRegion hregion hkernel
  obtain ⟨pointers, rows, hpointers, hrows, rfl⟩ := Kernel.code_eq_ok hcode
  exact ⟨w, flags, kernel, pointers, rows, hw, hmade.broadcast, hmade.length_flags, hmade.serves,
    hmade.mode_eq, hmade.scheduleMode, hpointers, hrows, rfl⟩

/-! ## A sample -/

/-- The program that multiplies two inputs and adds the first element of the second one in each pass. -/
def Program.shiftedProduct : Program where
  ops := [.input 0, .input 1, .broadcast 1, .fma 0 1 2]
  outputs := [3]
  inputs := 2
  wellFormed := {
    ops_ne_nil := by decide
    outputs_ne_nil := by decide
    operands_lt := by decide
    outputs_lt := by decide
    input_mem_iff := fun p => by
      simp
      omega
    params_le := by decide }

/-- Valid settings for the first vector instruction set. -/
def Compiler.sample : Compiler where
  config := ⟨.avx2, 256, 4, 2⟩
  valid := rfl

end Pointwise
