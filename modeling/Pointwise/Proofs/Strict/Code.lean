import Pointwise.Proofs.Kernel.DynamicCapacity
import Pointwise.Proofs.Offset.Fill
import Pointwise.Proofs.Strict.Basic

/-!
# Strict generation of code

The strict form of generating the code of a kernel. The scan for the registers of the values is made anew with
every look-up checked. The code itself is generated as before, but behind checks of the steps that are not
checked on the way: the sizes that become constants or addresses of instructions, and the dimensions that
decide which pointers move.

## Main definitions

* `Strict.registers` — the strict scan.
* `Strict.checkTile`, `Strict.checkSchedule`, `Strict.checkPointers` — checks of the parts of a kernel.
* `Strict.generate` — the strict code of a kernel.

## Main results

* `Strict.registers_eq_or`, `Strict.registers_eq` — the scan is confirmed.
* `Strict.confirms_generate_static`, `Strict.confirms_generate_dynamic` — the code of a kernel is confirmed.
-/

set_option autoImplicit false

namespace Pointwise.Strict

/-! ## Registers -/

/-- Releases the register of an operand, if the operation at a position is the last one to use it. -/
def release (program : Program) (registers : List Nat) (position : Nat) (free : List Nat)
    (a : Nat) : Except Error (List Nat) := do
  Checked.within a program.ops.length
  if program.lastUse a = some position then
    return insertAscending (← Checked.get registers a) free
  else
    return free

/-- The strict form of `Program.assignStep`. -/
def assignStep (program : Program) (scan : RegisterScan) (op : MicroOp) : Except Error RegisterScan := do
  let position := scan.registers.length
  let free ← op.operands.foldlM (release program scan.registers position) scan.free
  let (register, free, count) ← match free with
    | r :: rest => pure (r, rest, scan.count)
    | [] => do
      let count ← Checked.add scan.count 1
      pure (← Checked.sub count 1, [], count)
  Checked.within position program.ops.length
  let free := if program.lastUse position = none then insertAscending register free else free
  return ⟨scan.registers ++ [register], free, count⟩

/-- The strict form of `Program.registers`. The last uses of all operands and outputs are noted first, in a
table with one entry for each operation. -/
def registers (program : Program) : Except Error RegisterScan := do
  program.ops.forM fun op => op.operands.forM fun a => Checked.within a program.ops.length
  program.outputs.forM fun value => Checked.within value program.ops.length
  program.ops.foldlM (assignStep program) ⟨[], [], 0⟩

section Registers

variable {program : Program} {scan : RegisterScan}

/-- Operands can be released if their values have registers. -/
theorem foldlM_release {position : Nat} (hposition : scan.registers.length ≤ program.ops.length)
    {operands : List Nat} (hoperands : ∀ a ∈ operands, a < scan.registers.length) (free : List Nat) :
    operands.foldlM (release program scan.registers position) free =
      .ok ((operands.filter fun a => program.lastUse a = some position).foldl
        (fun free a => insertAscending (scan.registers.getD a 0) free) free) := by
  induction operands generalizing free with
  | nil => rfl
  | cons a operands ih =>
    rw [List.forall_mem_cons] at hoperands
    have hget : Checked.get scan.registers a = .ok (scan.registers.getD a 0) :=
      Checked.get_eq_ok.2 (by simp [hoperands.1])
    rw [List.foldlM_cons, release, Checked.within_eq_ok.2 (by omega), Checked.ok_bind, hget]
    by_cases huse : program.lastUse a = some position
    · rw [if_pos huse, List.filter_cons_of_pos (by simpa using huse), List.foldl_cons, Checked.ok_bind]
      exact ih hoperands.2 _
    · rw [if_neg huse, List.filter_cons_of_neg (by simpa using huse)]
      exact ih hoperands.2 _

/-- **One operation of the scan is confirmed**, unless it takes a register whose number is out of range. -/
theorem assignStep_eq_or {op : MicroOp} (hposition : scan.registers.length < program.ops.length)
    (hoperands : ∀ a ∈ op.operands, a < scan.registers.length) :
    assignStep program scan op = .ok (program.assignStep scan op) ∨
      0x10000000000000000 ≤ scan.count + 1 ∧ assignStep program scan op = .error (.fault .overflow) := by
  rw [assignStep, foldlM_release hposition.le hoperands, Checked.ok_bind, Program.assignStep]
  dsimp only
  generalize (op.operands.filter _).foldl _ scan.free = free
  cases free with
  | cons target rest =>
    dsimp only
    rw [pure_bind, Checked.within_eq_ok.2 hposition]
    exact .inl rfl
  | nil =>
    dsimp only
    rcases Nat.lt_or_ge (scan.count + 1) 0x10000000000000000 with hlt | hge
    · have hlast : Checked.sub (scan.count + 1) 1 = .ok scan.count := Checked.sub_eq_ok.2 (by omega)
      rw [Checked.add_eq_ok.2 ⟨rfl, hlt⟩, Checked.ok_bind, hlast, Checked.ok_bind, pure_bind,
        Checked.within_eq_ok.2 hposition]
      exact .inl rfl
    · rw [Checked.add, Checked.size, if_neg hge.not_gt]
      exact .inr ⟨hge, rfl⟩

/-- An operation takes at most one more register, for one more value. -/
theorem count_assignStep (program : Program) (scan : RegisterScan) (op : MicroOp) :
    (program.assignStep scan op).registers.length = scan.registers.length + 1 ∧
      (program.assignStep scan op).count ≤ scan.count + 1 := by
  unfold Program.assignStep
  dsimp only
  split <;> simp

/-- The scan of some operations takes no more registers than there are values. It is confirmed, unless there
are too many values. -/
theorem foldlM_assignStep {position : Nat} (hle : position ≤ program.ops.length) :
    ((program.ops.take position).foldl program.assignStep ⟨[], [], 0⟩).registers.length = position ∧
      ((program.ops.take position).foldl program.assignStep ⟨[], [], 0⟩).count ≤ position ∧
      ((program.ops.take position).foldlM (assignStep program) ⟨[], [], 0⟩ =
          .ok ((program.ops.take position).foldl program.assignStep ⟨[], [], 0⟩) ∨
        0x10000000000000000 ≤ position ∧
          (program.ops.take position).foldlM (assignStep program) ⟨[], [], 0⟩ =
            .error (.fault .overflow)) := by
  induction position with
  | zero => exact ⟨rfl, Nat.le_refl 0, .inl rfl⟩
  | succ position ih =>
    obtain ⟨hlength, hcount, hfold⟩ := ih (by omega)
    have hoperands := program.wellFormed.operands_lt position hle
    rw [List.take_succ_eq_append_getElem hle, List.foldl_append, List.foldlM_append]
    generalize (program.ops.take position).foldl program.assignStep ⟨[], [], 0⟩ = scan at *
    subst hlength
    obtain ⟨hlength', hcount'⟩ :=
      count_assignStep program scan program.ops[scan.registers.length]
    refine ⟨hlength', hcount'.trans (by omega), ?_⟩
    rcases hfold with hfold | ⟨hge, hfold⟩
    · rw [hfold, Checked.ok_bind, List.foldlM_cons]
      rcases assignStep_eq_or hle hoperands with hstep | ⟨hge, hstep⟩
      · rw [hstep]
        exact .inl rfl
      · rw [hstep]
        exact .inr ⟨by omega, rfl⟩
    · rw [hfold]
      exact .inr ⟨by omega, rfl⟩

/-- **The scan for registers is confirmed**, unless the number of operations is out of range.

**Proof sketch.** Operands are positions of earlier operations, whose values have registers by then. There are
no more registers than values. -/
theorem registers_eq_or (program : Program) :
    registers program = .ok program.registers ∨
      0x10000000000000000 ≤ program.ops.length ∧ registers program = .error (.fault .overflow) := by
  have hoperands : (program.ops.forM fun op => op.operands.forM fun a =>
      Checked.within a program.ops.length) = .ok () := by
    refine Checked.forM_eq_ok.2 fun op hop => Checked.forM_eq_ok.2 fun a ha => ?_
    obtain ⟨i, hi, rfl⟩ := List.getElem_of_mem hop
    exact Checked.within_eq_ok.2 ((program.wellFormed.operands_lt i hi a ha).trans hi)
  have houtputs : (program.outputs.forM fun value => Checked.within value program.ops.length) = .ok () :=
    Checked.forM_eq_ok.2 fun value hvalue =>
      Checked.within_eq_ok.2 (program.wellFormed.outputs_lt value hvalue)
  obtain ⟨-, -, hall⟩ := foldlM_assignStep (Nat.le_refl program.ops.length)
  rw [List.take_length] at hall
  rw [registers, hoperands, Checked.ok_bind, houtputs, Checked.ok_bind]
  exact hall

/-- The scan for registers is confirmed, if the number of operations is in range. -/
theorem registers_eq (hops : program.ops.length < 0x10000000000000000) :
    registers program = .ok program.registers :=
  (registers_eq_or program).resolve_right fun h => h.1.not_gt hops

end Registers

/-! ## Code -/

/-- Checks the code of a tile for a number of parameters: its increment and the bytes of a run become
constants, and the last dimension of every input decides whether its pointer moves. -/
def checkTile (tile : Tile) (params : Nat) : Except Error Unit := do
  Checked.keeps tile.increment
  Checked.keeps (← Checked.mul tile.increment tile.elemSize)
  (List.range params).forM fun param =>
    if tile.inputs ≤ param then .ok () else Checked.within param tile.dims.length

/-- Checks the tiles of a region. -/
def checkTiles (region : Region) (params : Nat) : Except Error Unit :=
  region.forM fun entry =>
    match entry with
    | .tile tile _ _ _ => checkTile tile params
    | _ => .ok ()

/-- Checks the code of a schedule. Static amounts of work become constants, and so does what one run of the
vector tile leaves of a row; dynamic ones are found at their places in the argument block, as are the row
offsets. -/
def checkSchedule (mode : ScheduleMode) (lanes params : Nat) : Except Error Unit :=
  match mode with
  | .static work _ => do
    Checked.keeps work.outer
    Checked.keeps work.inner
    if work.inner < lanes then return ()
    else Checked.keeps (← Checked.sub work.inner lanes)
  | .dynamic => do
    Checked.keeps (← Checked.add ArgumentBlock.workAt 8)
    (List.range params).forM fun param => do
      Checked.keeps (← Checked.add ArgumentBlock.rowsAt (← Checked.mul param 8))

/-- Checks the code that computes the data pointer of a parameter. Its address is found at its place in the
argument block, and so are the strides of a dynamic kernel. In a static one, the last data pointer serves as
scratch for the others, and an entry of the index vector is addressed for each dimension. -/
def checkPointer (mode : KernelMode) (inputs : Nat) (pointers : List Nat) (param : Nat) :
    Except Error Unit := do
  Checked.keeps (← ArgumentBlock.pointerSlot param inputs)
  match mode with
  | .static table => do
    if param + 1 < pointers.length then
      let _ ← Checked.get pointers (← Checked.sub pointers.length 1)
    (List.range (← table.callDims)).forM fun dim => do
      let _ ← Checked.mul dim 8
  | .dynamic =>
    (List.range maxCallDims).forM fun dim => do
      let stride ← Checked.add (← Checked.mul param maxCallDims) dim
      Checked.keeps (← Checked.add ArgumentBlock.stridesAt (← Checked.mul stride 8))

/-- Checks the code that computes all data pointers. -/
def checkPointers (mode : KernelMode) (inputs : Nat) (pointers : List Nat) : Except Error Unit :=
  (List.range pointers.length).forM (checkPointer mode inputs pointers)

/-- The strict form of `Compiler.generate`. Room is made for all entries of a tile in advance, and the outputs
are numbered behind the inputs. -/
def generate (compiler : Compiler) (program : Program) (domain : Domain) (mode : KernelMode) :
    Except Error Code := do
  let w ← compiler.config.isa.vectorWidth
  let _ ← registers program
  let _ ← Checked.add program.ops.length program.outputs.length
  (List.range program.outputs.length).forM fun k => do
    let _ ← Checked.add program.inputs k
  let region ← Compiler.schedulerRegion program domain w mode
  let kernel ← Kernel.ofRegion mode region
  checkPointers kernel.mode program.inputs kernel.pointers
  checkSchedule kernel.scheduleMode w.lanes kernel.pointers.length
  checkTiles kernel.body kernel.pointers.length
  kernel.code program.inputs program.outputs.length

section Checks

variable {params inputs : Nat}

/-- Every check that finds a size passes. -/
theorem forM_range_eq_ok {check : Nat → Except Error Unit} (h : ∀ i < params, check i = .ok ()) :
    (List.range params).forM check = .ok () :=
  Checked.forM_eq_ok.2 fun i hi => h i (List.mem_range.1 hi)

/-- The tiles of a kernel pass their checks. -/
theorem checkTile_eq_ok {increment : Nat} {dims : List Nat} (hincrement : increment ≤ 16)
    (hdims : dims.length = params) :
    checkTile ⟨increment, inputs, dims, elementSize⟩ params = .ok () := by
  have helem : elementSize = 4 := rfl
  have hbytes : increment * elementSize ≤ 16 * elementSize := Nat.mul_le_mul_right _ hincrement
  rw [checkTile]
  dsimp only
  rw [Checked.keeps_eq_ok.2 (by omega), Checked.ok_bind, Checked.mul_eq_ok.2 ⟨rfl, by omega⟩,
    Checked.ok_bind, Checked.keeps_eq_ok.2 (by omega), Checked.ok_bind]
  refine forM_range_eq_ok fun param hparam => ?_
  split
  · rfl
  · exact Checked.within_eq_ok.2 (by omega)

/-- A mode whose table, if it has one, leaves few enough dimensions to the calls and has amounts of work that
keep their values as offsets. -/
def Moderate (mode : KernelMode) : Prop := ∀ table, mode = .static table →
  (∃ dims, table.callDims = .ok dims ∧ dims < 0x1000000000000000) ∧
    table.tiled.outer < 0x8000000000000000 ∧ table.tiled.inner < 0x8000000000000000

variable {mode : KernelMode}

/-- The schedule of a kernel passes its checks. -/
theorem checkSchedule_eq_ok (hmode : Moderate mode) (hparams : params ≤ maxParams) (lanes : Nat) :
    checkSchedule mode.schedule lanes params = .ok () := by
  rw [maxParams] at hparams
  cases mode with
  | static table =>
    obtain ⟨-, houter, hinner⟩ := hmode table rfl
    simp only [KernelMode.schedule, ScheduleMode.ofTable, checkSchedule]
    rw [Checked.keeps_eq_ok.2 houter, Checked.ok_bind, Checked.keeps_eq_ok.2 hinner, Checked.ok_bind]
    split
    · rfl
    · rw [Checked.sub_eq_ok.2 ⟨by omega, rfl⟩, Checked.ok_bind]
      exact Checked.keeps_eq_ok.2 (by omega)
  | dynamic =>
    have hwork : ArgumentBlock.workAt = 768 := rfl
    have hrows : ArgumentBlock.rowsAt = 192 := rfl
    simp only [KernelMode.schedule, checkSchedule]
    rw [Checked.add_eq_ok.2 ⟨rfl, by omega⟩, Checked.ok_bind, Checked.keeps_eq_ok.2 (by omega),
      Checked.ok_bind]
    refine forM_range_eq_ok fun param hparam => ?_
    rw [Checked.mul_eq_ok.2 ⟨rfl, by omega⟩, Checked.ok_bind, Checked.add_eq_ok.2 ⟨rfl, by omega⟩,
      Checked.ok_bind]
    exact Checked.keeps_eq_ok.2 (by omega)

/-- The data pointers of a kernel pass their checks. -/
theorem checkPointers_eq_ok (hmode : Moderate mode) {pointers : List Nat}
    (hpointers : pointers.length ≤ maxParams) : checkPointers mode inputs pointers = .ok () := by
  refine forM_range_eq_ok fun param hparam => ?_
  obtain ⟨slot, hslot, hsmall⟩ := Kernel.exists_pointerSlot (hparam.trans_le hpointers) inputs
  rw [maxParams] at hpointers
  unfold checkPointer
  rw [hslot, Checked.ok_bind, Checked.keeps_eq_ok.2 (by omega), Checked.ok_bind]
  cases mode with
  | static table =>
    obtain ⟨⟨dims, hdims, hlt⟩, -⟩ := hmode table rfl
    have hscratch : Checked.get pointers (pointers.length - 1) = .ok pointers[pointers.length - 1] :=
      Checked.get_eq_ok.2 (List.getElem?_eq_getElem (by omega))
    have hindex : ((List.range dims).forM fun dim => do
        let _ ← Checked.mul dim 8) = .ok () := by
      refine forM_range_eq_ok fun dim hdim => ?_
      rw [Checked.mul_eq_ok.2 ⟨rfl, by omega⟩]
      rfl
    dsimp only
    rw [hdims, Checked.sub_eq_ok.2 ⟨by omega, rfl⟩, Checked.ok_bind, hscratch]
    split <;> exact hindex
  | dynamic =>
    have hstrides : ArgumentBlock.stridesAt = 288 := rfl
    have hfive : maxCallDims = 5 := rfl
    have hplace : param * maxCallDims ≤ 12 * maxCallDims := Nat.mul_le_mul_right _ (by omega)
    refine forM_range_eq_ok fun dim hdim => ?_
    rw [Checked.mul_eq_ok.2 ⟨rfl, by omega⟩, Checked.ok_bind, Checked.add_eq_ok.2 ⟨rfl, by omega⟩,
      Checked.ok_bind, Checked.mul_eq_ok.2 ⟨rfl, by omega⟩, Checked.ok_bind,
      Checked.add_eq_ok.2 ⟨rfl, by omega⟩, Checked.ok_bind]
    exact Checked.keeps_eq_ok.2 (by omega)

end Checks

section Generate

variable {compiler : Compiler} {program : Program} {domain : Domain} {w : VectorWidth}

/-- The code of a kernel is generated without faults if nothing but a capacity limits it. -/
theorem confirms_generate {mode : KernelMode} {P : Prop}
    (hisa : compiler.config.isa.vectorWidth = .ok w)
    (hops : program.ops.length < 0x8000000000000000) (hmode : Moderate mode)
    (hlimited : Checked.Limited (compiler.generate program domain mode) P) :
    Confirms (generate compiler program domain mode) (compiler.generate program domain mode) := by
  refine .of_eq ?_ (.of_limited hlimited)
  have hparams := program.wellFormed.params_le
  rw [maxParams] at hparams
  have hnumbers : ((List.range program.outputs.length).forM fun k => do
      let _ ← Checked.add program.inputs k) = .ok () := by
    refine forM_range_eq_ok fun k hk => ?_
    rw [Checked.add_eq_ok.2 ⟨rfl, by omega⟩]
    rfl
  rw [generate, Compiler.generate, hisa, Checked.ok_bind, Checked.ok_bind, registers_eq (by omega),
    Checked.ok_bind, Checked.add_eq_ok.2 ⟨rfl, by omega⟩, Checked.ok_bind, hnumbers, Checked.ok_bind]
  cases hregion : Compiler.schedulerRegion program domain w mode with
  | error cause => rfl
  | ok region =>
    rw [Checked.ok_bind, Checked.ok_bind]
    cases hkernel : Kernel.ofRegion mode region with
    | error cause => rfl
    | ok kernel =>
      obtain ⟨flags, dims, long, short, hmade⟩ := Compiler.madeFor_of_ofRegion hregion hkernel
      have hpointers : kernel.pointers.length ≤ maxParams := hmade.length_pointers.trans_le hparams
      have hdims := hmade.length_dims.trans hmade.length_pointers.symm
      have htiles : checkTiles kernel.body kernel.pointers.length = .ok () := by
        rw [hmade.body, checkTiles]
        refine Checked.forM_eq_ok.2 fun entry hentry => ?_
        rcases List.mem_cons.1 hentry with rfl | hentry
        · exact checkTile_eq_ok w.lanes_le hdims
        · rw [List.mem_singleton.1 hentry]
          exact checkTile_eq_ok (by decide) hdims
      rw [Checked.ok_bind, Checked.ok_bind, hmade.mode_eq, checkPointers_eq_ok hmode hpointers,
        Checked.ok_bind, hmade.scheduleMode, checkSchedule_eq_ok hmode hpointers, Checked.ok_bind, htiles]
      rfl

variable (hisa : compiler.config.isa.vectorWidth = .ok w)
  (hops : program.ops.length < 0x8000000000000000)
  (hplanned : domain.Planned program.outputs.length)
  (hlen : domain.inputShapes.length = program.inputs)
include hisa hops hplanned hlen

/-- **The code of a dynamic kernel is confirmed.** -/
theorem confirms_generate_dynamic :
    Confirms (generate compiler program domain .dynamic) (compiler.generate program domain .dynamic) :=
  confirms_generate hisa hops (fun _ hmode => nomatch hmode)
    (Compiler.limited_generate_dynamic hisa hplanned hlen)

/-- **The code of a static kernel is confirmed**, for a planned domain with elements. -/
theorem confirms_generate_static (hrank : domain.master.length < 0x1000000000000000)
    (hpos : 0 < domain.elements) (hsmall : domain.elements < 0x8000000000000000) {table : OffsetTable}
    (htable : OffsetTable.ofDomain domain = .ok table) :
    Confirms (generate compiler program domain (.static table))
      (compiler.generate program domain (.static table)) := by
  refine confirms_generate hisa hops ?_
    (Compiler.limited_generate hisa hplanned hlen hrank hpos hsmall htable)
  rintro _ ⟨⟩
  obtain ⟨inputDims, hinputDims⟩ := Compiler.exists_inputDims hplanned
  have hflags : domain.broadcastFlags = .ok (inputDims.map (· = 1)) := by
    rw [Domain.broadcastFlags, hinputDims]
    rfl
  have hdescribes := OffsetTable.describes_of_ofDomain hplanned hpos hsmall hflags htable
  obtain ⟨houter, hinner⟩ := ArgumentBlock.tiled_le_extent hplanned
  rw [Shape.extent_eq_count (hplanned.elements ▸ hpos), ← hplanned.elements, ← hdescribes.tiled]
    at houter hinner
  have hmin := hplanned.rank
  rw [tensorRank] at hmin
  have htile : domain.tileRank ≤ 2 := by
    obtain ⟨-, -, ⟨htile, -⟩ | ⟨htile, -⟩⟩ := hplanned.split <;> omega
  refine ⟨⟨_, Checked.sub_eq_ok.2 ⟨?_, rfl⟩, ?_⟩, by omega, by omega⟩ <;>
    rw [hdescribes.master, hdescribes.tileRank] <;> omega

end Generate

end Pointwise.Strict
