import Pointwise.Proofs.Domain.Pattern
import Pointwise.Proofs.Kernel.DynamicCapacity

/-!
# What the code of a dynamic kernel depends on

A dynamic kernel is compiled for sample shapes and then runs for others. This is legitimate because
nothing of the sample gets into its code but which inputs are narrow: a tile knows the last dimension of
each parameter, but all that its code tells of them is which data pointers move, and the amounts of work,
the strides and the row offsets are read from the argument block.

## Main definitions

* `Tile.Alike`, `Schedule.Context.Alike` — tiles and schedulers that have the same code.

## Main results

* `Schedule.Context.Alike.dynamicCode`, `Kernel.code_congr` — alike schedulers and kernels have the same
  code, or are refused for the same reason.
* `Compiler.generate_dynamic_congr` — the code for two domains with the same inputs broadcast.
* `Compiler.generate_depends_on_pattern` — the code for two requests with the same narrow shapes.
-/

set_option autoImplicit false

namespace Pointwise

open Checked

/-! ## Tiles -/

/-- Tiles that have the same code: they may differ in dimensions of parameters, as long as the same
pointers move. -/
structure Tile.Alike (tile tile' : Tile) : Prop where
  increment : tile.increment = tile'.increment
  elemSize : tile.elemSize = tile'.elemSize
  length_dims : tile.dims.length = tile'.dims.length
  advances : ∀ param, tile.advances param = tile'.advances param

namespace Tile.Alike

variable {tile tile' : Tile} (h : tile.Alike tile')
include h

/-- The same pointers move by the same number of bytes. -/
theorem advance (pointers : List Nat) : tile.advance pointers = tile'.advance pointers := by
  have hstep : tile.stepBytes = tile'.stepBytes := by
    unfold Tile.stepBytes
    rw [h.increment, h.elemSize]
  unfold Tile.advance
  simp only [hstep, h.advances]

/-- Loops around the same body have the same code. -/
theorem loop (body : Except Error Code) (input output : List Nat) :
    tile.loop body input output = tile'.loop body input output := by
  unfold Tile.loop Tile.checkOperands
  rw [h.length_dims, h.increment, h.advance]

end Tile.Alike

/-! ## Schedulers -/

/-- Schedulers with alike tiles around the same bodies, and the same registers. -/
structure Schedule.Context.Alike (context context' : Context) : Prop where
  vector : context.vector.tile.Alike context'.vector.tile
  vectorBody : context.vector.body = context'.vector.body
  scalar : context.scalar.tile.Alike context'.scalar.tile
  scalarBody : context.scalar.body = context'.scalar.body
  pointers : context.pointers = context'.pointers
  innerRegister : context.innerRegister = context'.innerRegister

namespace Schedule.Context.Alike

variable {context context' : Context} (h : context.Alike context')
include h

/-- The loop of a tile with the test in front of it. -/
theorem dynamicTile {code code' : TileCode} (htile : code.tile.Alike code'.tile)
    (hbody : code.body = code'.body) (counter : Register) :
    Schedule.dynamicTile context code counter = Schedule.dynamicTile context' code' counter := by
  have hloop : context.loop code = context'.loop code' := by
    unfold Context.loop
    rw [hbody, h.innerRegister, h.pointers, htile.loop]
  unfold Schedule.dynamicTile
  rw [htile.increment, hloop]

/-- A row. -/
theorem dynamicRow : Schedule.dynamicRow context = Schedule.dynamicRow context' := by
  unfold Schedule.dynamicRow
  simp only [h.innerRegister, h.dynamicTile h.vector h.vectorBody, h.dynamicTile h.scalar h.scalarBody]

/-- **Alike schedulers have the same code**, or are refused for the same reason. -/
theorem dynamicCode (outer : Nat) :
    Schedule.dynamicCode context outer = Schedule.dynamicCode context' outer := by
  unfold Schedule.dynamicCode
  rw [h.dynamicRow, h.pointers]

end Schedule.Context.Alike

/-- Schedulers around alike tiles with the same registers have the same code. -/
theorem Entry.emit_scheduler_congr {vector vector' scalar scalar' : Tile} (hvector : vector.Alike vector')
    (hscalar : scalar.Alike scalar') (long short : Region) (input output vecs gprs : List Nat) :
    (Entry.scheduler .dynamic [.tile vector long [] [], .tile scalar short [] []] input output).emit
        vecs gprs =
      (Entry.scheduler .dynamic [.tile vector' long [] [], .tile scalar' short [] []] input output).emit
        vecs gprs := by
  have hcode : ∀ inner outer,
      Schedule.dynamicCode ⟨⟨vector, Region.emit vecs (Schedule.bodyPool gprs) long⟩,
          ⟨scalar, Region.emit vecs (Schedule.bodyPool gprs) short⟩, output, inner⟩ outer =
        Schedule.dynamicCode ⟨⟨vector', Region.emit vecs (Schedule.bodyPool gprs) long⟩,
          ⟨scalar', Region.emit vecs (Schedule.bodyPool gprs) short⟩, output, inner⟩ outer := by
    intro inner outer
    apply Schedule.Context.Alike.dynamicCode
    exact ⟨hvector, rfl, hscalar, rfl, rfl, rfl⟩
  simp only [Entry.emit, Schedule.code, ok_bind, hcode]

/-! ## Kernels -/

/-- A body gets the same registers each time. -/
theorem Program.Allocated.unique {program : Program} {w : VectorWidth} {kind : BodyKind}
    {flags : List Bool} {body body' : Region} (h : program.Allocated w kind flags body)
    (h' : program.Allocated w kind flags body') : body = body' := by
  obtain ⟨region, hregion, hbody⟩ := h
  obtain ⟨region', hregion', hbody'⟩ := h'
  obtain rfl := Except.ok.inj (hregion.symm.trans hregion')
  exact Except.ok.inj (hbody.symm.trans hbody')

/-- **Kernels of the same program have the same code** if the same inputs are broadcast, or are refused
for the same reason.

**Proof sketch.** Their bodies are the same, and so are the registers that these leave. Their tiles know
different dimensions, but move the same pointers. -/
theorem Kernel.code_congr {kernel kernel' : Kernel} {program : Program} {domain domain' : Domain}
    {w : VectorWidth} {flags : List Bool} {dims dims' : List Nat} {long short long' short' : Region}
    (h : kernel.MadeFor program domain w .dynamic flags dims long short)
    (h' : kernel'.MadeFor program domain' w .dynamic flags dims' long' short') :
    kernel.code program.inputs program.outputs.length =
      kernel'.code program.inputs program.outputs.length := by
  obtain rfl := h.tiles.long.unique h'.tiles.long
  obtain rfl := h.tiles.short.unique h'.tiles.short
  have hpointers : kernel.pointers = kernel'.pointers := h.pointers.trans h'.pointers.symm
  have hgprs : kernel.freeGprs = kernel'.freeGprs := by rw [h.freeGprs, h'.freeGprs, hpointers]
  have hvecs : kernel.freeVecs = kernel'.freeVecs := h.freeVecs.trans h'.freeVecs.symm
  have hmode : kernel.mode = kernel'.mode := h.mode_eq.trans h'.mode_eq.symm
  have halike : ∀ increment, Tile.Alike ⟨increment, program.inputs, dims, elementSize⟩
      ⟨increment, program.inputs, dims', elementSize⟩ := by
    intro increment
    refine ⟨rfl, rfl, h.length_dims.trans h'.length_dims.symm, fun param => ?_⟩
    rw [h.tiles.advances, h'.tiles.advances]
  have hcheck : kernel.checkOperands [program.inputs, program.outputs.length] [] =
      kernel'.checkOperands [program.inputs, program.outputs.length] [] := by
    rw [checkOperands_eq h.length_pointers, checkOperands_eq h'.length_pointers, hmode]
  have hpointerCode : ∀ inputs, kernel.pointerCode inputs = kernel'.pointerCode inputs := by
    intro inputs
    unfold pointerCode
    rw [hmode, hpointers, hgprs]
  have hpool : kernel.schedulerPool = kernel'.schedulerPool := by
    unfold schedulerPool
    rw [hmode, hgprs]
  have hscheduler : ∀ pool, kernel.scheduler.emit kernel.freeVecs pool =
      kernel'.scheduler.emit kernel'.freeVecs pool := by
    intro pool
    have hdynamic : kernel.scheduleMode = .dynamic := h.scheduleMode
    have hdynamic' : kernel'.scheduleMode = .dynamic := h'.scheduleMode
    rw [scheduler, scheduler, h.body, h'.body, h.input, h'.input, hdynamic, hdynamic', hpointers, hvecs]
    exact Entry.emit_scheduler_congr (halike _) (halike _) _ _ _ _ _ _
  unfold Kernel.code Kernel.emit
  rw [hcheck, hpool, hscheduler]
  simp only [hpointerCode]

/-! ## The code of a request -/

namespace Compiler

variable {compiler compiler' : Compiler} {program : Program}

/-- A scheduler is refused for the reason for which lowering is. -/
theorem schedulerRegion_eq_error {domain : Domain} {w : VectorWidth} {mode : KernelMode}
    {flags : List Bool} {cause : Error} (hplanned : domain.Planned program.outputs.length)
    (hflags : domain.broadcastFlags = .ok flags) (hlower : program.lower flags w = .error cause) :
    schedulerRegion program domain w mode = .error cause := by
  obtain ⟨dims, hdims, hflags⟩ := bind_eq_ok.1 hflags
  rw [pure_eq_ok] at hflags
  obtain ⟨last, hlast⟩ : ∃ last, getBack domain.master 1 = .ok last := by
    have hrank := hplanned.rank
    rw [tensorRank] at hrank
    exact ⟨_, getBack_eq_ok.2 ⟨by omega, List.getElem?_eq_getElem (by omega)⟩⟩
  rw [schedulerRegion, hdims, ok_bind, hlast, ok_bind, hflags, hlower, error_bind]

/-- **The code for two domains** with the same inputs broadcast along the rows is the same, or refused for
the same reason. -/
theorem generate_dynamic_congr {domain domain' : Domain} {flags : List Bool}
    (hisa : compiler.config.isa = compiler'.config.isa)
    (hplanned : domain.Planned program.outputs.length)
    (hplanned' : domain'.Planned program.outputs.length)
    (hlen : domain.inputShapes.length = program.inputs)
    (hlen' : domain'.inputShapes.length = program.inputs)
    (hflags : domain.broadcastFlags = .ok flags) (hflags' : domain'.broadcastFlags = .ok flags) :
    compiler.generate program domain .dynamic = compiler'.generate program domain' .dynamic := by
  rw [generate, generate, hisa]
  cases hw : compiler'.config.isa.vectorWidth with
  | error cause => rfl
  | ok w =>
    rw [ok_bind, ok_bind]
    have hlimited : ∀ {domain : Domain}, domain.Planned program.outputs.length →
        domain.inputShapes.length = program.inputs →
        Limited (schedulerRegion program domain w .dynamic)
          (program.registers.count ≤ registerCount) := limited_schedulerRegion
    by_cases hcount : program.registers.count ≤ registerCount
    · obtain ⟨region, hregion⟩ := (hlimited hplanned hlen).succeeds hcount
      obtain ⟨region', hregion'⟩ := (hlimited hplanned' hlen').succeeds hcount
      obtain ⟨kernel, hkernel⟩ := exists_kernel hregion
      obtain ⟨kernel', hkernel'⟩ := exists_kernel hregion'
      obtain ⟨_, _, _, _, hmade⟩ := madeFor_of_ofRegion hregion hkernel
      obtain ⟨_, _, _, _, hmade'⟩ := madeFor_of_ofRegion hregion' hkernel'
      obtain rfl := Except.ok.inj (hflags.symm.trans hmade.broadcast)
      obtain rfl := Except.ok.inj (hflags'.symm.trans hmade'.broadcast)
      rw [hregion, hregion', ok_bind, ok_bind, hkernel, hkernel', ok_bind, ok_bind]
      exact Kernel.code_congr hmade hmade'
    · -- The values exhaust the registers whatever the domain is.
      have hlength : flags.length = program.inputs := by
        rw [OffsetTable.length_of_broadcastFlags hflags, hlen]
      have hlower : Limited (program.lower flags w) (program.registers.count ≤ registerCount) :=
        Program.limited_lower hlength
      obtain ⟨cause, hcause⟩ := hlower.exhausts hcount
      rw [schedulerRegion_eq_error hplanned hflags hcause,
        schedulerRegion_eq_error hplanned' hflags' hcause]

/-- **Dynamic code depends on nothing but the instruction set, the program and the pattern of narrow
shapes.** Two requests are planned by compilers for the same instruction set, whose other settings may
differ. The shapes of each can be broadcast, there is one for each input, and the same inputs have a last
dimension of one or none. Then the code of a dynamic kernel is the same for both plans, or it is refused
for the same reason.

No dimension of a shape, no amount of work, no tile rank and no offset gets into the code. Sizes of zero
are allowed; the others have to stay in range when they are multiplied, so that there is a plan for any
shapes at all.

**Proof sketch.** Which planned inputs are broadcast along the rows is told by the narrow shapes, and
kernels of one program for the same broadcast inputs differ only in what their tiles do not use. -/
theorem generate_depends_on_pattern {shapes shapes' : List Shape} {outputShape outputShape' : Shape}
    (hisa : compiler.config.isa = compiler'.config.isa)
    (hlength : shapes.length = program.inputs) (hlength' : shapes'.length = program.inputs)
    (hbroadcast : Shape.broadcast shapes = .ok outputShape)
    (hbroadcast' : Shape.broadcast shapes' = .ok outputShape')
    (hextent : Shape.extent outputShape < 2 ^ 64) (hextent' : Shape.extent outputShape' < 2 ^ 64)
    (hnarrow : ∀ (i : Nat) (shape shape' : Shape), shapes[i]? = some shape → shapes'[i]? = some shape' →
      (shape'.isNarrow ↔ shape.isNarrow)) :
    (0 < program.inputs → ∃ domain domain', compiler.plan program shapes = .ok domain ∧
        compiler'.plan program shapes' = .ok domain') ∧
      (compiler.plan program shapes >>= fun domain => compiler.generate program domain .dynamic) =
        (compiler'.plan program shapes' >>= fun domain =>
          compiler'.generate program domain .dynamic) := by
  rw [plan, plan, require_eq_ok.2 hlength, require_eq_ok.2 hlength', ok_bind, ok_bind]
  rcases Nat.eq_zero_or_pos program.inputs with hzero | hpos
  · -- Without inputs there is no plan for either.
    obtain rfl : shapes = [] := List.length_eq_zero_iff.1 (hlength.trans hzero)
    obtain rfl : shapes' = [] := List.length_eq_zero_iff.1 (hlength'.trans hzero)
    exact ⟨fun hinputs => absurd hinputs (by omega), rfl⟩
  · obtain ⟨domain, hplan⟩ : ∃ domain,
        (Optimizer.ofConfig compiler.config).plan shapes program.outputs.length = .ok domain :=
      Optimizer.plan_succeeds_of_extent (List.ne_nil_of_length_pos (by omega)) hbroadcast (by omega)
    obtain ⟨domain', hplan'⟩ : ∃ domain,
        (Optimizer.ofConfig compiler'.config).plan shapes' program.outputs.length = .ok domain :=
      Optimizer.plan_succeeds_of_extent (List.ne_nil_of_length_pos (by omega)) hbroadcast' (by omega)
    obtain ⟨hplanned, hlen⟩ := Optimizer.planned_of_plan hplan
    obtain ⟨hplanned', hlen'⟩ := Optimizer.planned_of_plan hplan'
    have hflags' := Optimizer.broadcastFlags_of_plan hplan'
    rw [(Shape.map_isNarrow_eq_iff (hlength'.trans hlength.symm)).2 hnarrow] at hflags'
    rw [hplan, hplan', ok_bind, ok_bind]
    refine ⟨fun _ => ⟨domain, domain', rfl, rfl⟩, ?_⟩
    exact generate_dynamic_congr hisa hplanned hplanned' (hlen.trans hlength) (hlen'.trans hlength')
      (Optimizer.broadcastFlags_of_plan hplan) hflags'

/-- A kernel for four rows of five is the one for two rows of nine, also under settings that merge
nothing. -/
theorem generate_depends_on_pattern_of_rows :
    (Compiler.sample.plan .shiftedProduct [[4, 5], [5]] >>= fun domain =>
        Compiler.sample.generate .shiftedProduct domain .dynamic) =
      (Compiler.plan ⟨⟨.avx2, 1, 1, 1⟩, rfl⟩ .shiftedProduct [[2, 9], [9]] >>= fun domain =>
        Compiler.generate ⟨⟨.avx2, 1, 1, 1⟩, rfl⟩ .shiftedProduct domain .dynamic) := by
  have hlength : [[2, 9], [9]].length = [[4, 5], [5]].length := rfl
  refine (generate_depends_on_pattern rfl (by decide) (by decide) rfl rfl (by decide) (by decide)
    ?_).2
  exact (Shape.map_isNarrow_eq_iff hlength).1 (by decide)

end Compiler

end Pointwise
