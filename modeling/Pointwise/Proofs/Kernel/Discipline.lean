import Pointwise.Proofs.Kernel.Allocation
import Pointwise.Proofs.Region.Writes

/-!
# Register discipline of kernels

The registers of a kernel do not get in each other's way. Every parameter has a data pointer of its
own, through which both bodies address it; the counters of the scheduler and the scratch register of
the bodies are different from each other and from all data pointers; and a dynamic kernel leaves the
address of its argument block alone. Between the computation of the data pointers and the end, a data
pointer is written only to move it.

## Main definitions

* `Kernel.Spare` — a register that is free while the scheduler runs.
* `Kernel.Moves` — the instructions that move a data pointer.
* `Kernel.Disciplined` — registers that do not get in each other's way.

## Main results

* `Kernel.nodup_schedulerPool`, `Kernel.spare_schedulerPool` — the registers of the scheduler.
* `Compiler.generate_disciplined` — every kernel that is generated is disciplined.
-/

set_option autoImplicit false

namespace Pointwise

/-! ## Registers of the scheduler -/

namespace Kernel

/-- A general register that is free while the scheduler runs: it is no data pointer, neither the stack
nor the frame pointer, and in a dynamic kernel it does not hold the address of the argument block. -/
structure Spare (kernel : Kernel) (r : Nat) : Prop where
  lt : r < registerCount
  pointers : r ∉ kernel.pointers
  stack : r ≠ Register.rsp.val
  frame : r ≠ Register.rbp.val
  block : kernel.mode = .dynamic → r ≠ Register.blockArgument.val

/-- The registers that may hold data pointers are not those of the calling convention. -/
theorem mem_gprPool {r : Nat} : r ∈ gprPool ↔
    r < registerCount ∧ r ∉ [Register.rsp, .rbp, .indexArgument, .blockArgument].map (·.val) := by
  simp [gprPool]

theorem nodup_gprPool : gprPool.Nodup := List.nodup_range.filter _

variable {kernel : Kernel} {program : Program} {w : VectorWidth} {flags : List Bool}

/-- Every parameter has a data pointer of its own. -/
theorem nodup_pointers (h : kernel.Serves program flags w) : kernel.pointers.Nodup := by
  rw [h.pointers]
  exact nodup_gprPool.sublist (List.take_sublist _ _)

/-- The data pointers and the free registers are those of the pool. -/
theorem mem_gprPool_of_serves (h : kernel.Serves program flags w) {r : Nat}
    (hr : r ∈ kernel.pointers ∨ r ∈ kernel.freeGprs) : r ∈ gprPool := by
  rw [h.pointers, h.freeGprs] at hr
  exact hr.elim List.mem_of_mem_take List.mem_of_mem_drop

/-- The pool of the scheduler has no register twice. -/
theorem nodup_schedulerPool (h : kernel.Serves program flags w) : kernel.schedulerPool.Nodup := by
  have hall : (gprPool ++ [Register.indexArgument.val, Register.blockArgument.val]).Nodup := by decide
  refine hall.sublist ?_
  rw [schedulerPool, h.freeGprs]
  refine (List.drop_sublist _ _).append ?_
  split
  · exact List.Sublist.refl _
  · exact (List.sublist_append_left [Register.indexArgument.val] _)

/-- **The registers of the scheduler's pool are free.** -/
theorem spare_schedulerPool (h : kernel.Serves program flags w) {r : Nat}
    (hr : r ∈ kernel.schedulerPool) : kernel.Spare r := by
  have hpool : ∀ r ∈ gprPool, r < registerCount ∧ r ≠ Register.rsp.val ∧ r ≠ Register.rbp.val ∧
      r ≠ Register.blockArgument.val := by decide
  have harguments : Register.indexArgument.val ∉ gprPool ∧ Register.blockArgument.val ∉ gprPool := by
    decide
  have hindex : kernel.Spare Register.indexArgument.val := by
    refine ⟨by decide, fun hmem => harguments.1 ?_, by decide, by decide, fun _ => by decide⟩
    rw [h.pointers] at hmem
    exact List.mem_of_mem_take hmem
  rw [schedulerPool, List.mem_append] at hr
  rcases hr with hr | hr
  · rw [h.freeGprs] at hr
    obtain ⟨hlt, hstack, hframe, hblock⟩ := hpool r (List.mem_of_mem_drop hr)
    refine ⟨hlt, fun hmem => ?_, hstack, hframe, fun _ => hblock⟩
    rw [h.pointers] at hmem
    exact List.disjoint_take_drop nodup_gprPool le_rfl hmem hr
  · split at hr
    · rename_i table hmode
      rcases List.mem_pair.1 hr with rfl | rfl
      · exact hindex
      · refine ⟨by decide, fun hmem => harguments.2 ?_, by decide, by decide, fun hdynamic => ?_⟩
        · rw [h.pointers] at hmem
          exact List.mem_of_mem_take hmem
        · rw [hmode] at hdynamic
          cases hdynamic
    · rw [List.mem_singleton.1 hr]
      exact hindex

/-! ## Discipline -/

/-- The instructions that move the data pointer of a parameter while the scheduler runs: the step of a
tile, and the row offset, which is built in or read from the argument block. -/
inductive Moves (mode : KernelMode) (w : VectorWidth) (flags : List Bool) (p : Nat) (r : Register) :
    Instruction → Prop where
  | step {lanes : Nat} (hlanes : lanes = w.lanes ∨ lanes = 1) (hmoves : Domain.moves flags p = true) :
    Moves mode w flags p r (.addImmediate r (lanes * elementSize : Nat))
  | offset {table : OffsetTable} {x : Int} (hmode : mode = .static table)
      (hx : table.rowOffsets[p]? = some x) : Moves mode w flags p r (.addImmediate r x)
  | load {m : MemoryOperand} (hmode : mode = .dynamic)
      (hm : Schedule.blockWord (ArgumentBlock.rowsAt + p * 8) = .ok m) :
    Moves mode w flags p r (.addLoad r m)

/-- They write that register only. -/
theorem Moves.writes {mode : KernelMode} {p : Nat} {r : Register} {i : Instruction}
    (h : Moves mode w flags p r i) : i.writes = [r] := by
  cases h <;> rfl

/-- Registers of a kernel with two tiles that do not get in each other's way. -/
structure Disciplined (kernel : Kernel) (program : Program) (w : VectorWidth) (flags : List Bool)
    (long short : Region) (code : Code) : Prop where
  /-- Every parameter has a data pointer of its own. -/
  length_pointers : kernel.pointers.length = program.params
  nodup_pointers : kernel.pointers.Nodup
  /-- None of them is a register of the calling convention. -/
  pointers_ne : ∀ r ∈ kernel.pointers, r < registerCount ∧
    r ∉ [Register.rsp, .rbp, .indexArgument, .blockArgument].map (·.val)
  long_addresses : program.AddressesThrough w .vector flags kernel.pointers long
  short_addresses : program.AddressesThrough w .scalar flags kernel.pointers short
  /-- The counters of the scheduler and the scratch register of the bodies are free and different. -/
  counters : ∃ outer inner, kernel.schedulerPool =
      Schedule.bodyPool kernel.schedulerPool ++ [inner, outer] ∧
    outer ≠ inner ∧ kernel.Spare outer ∧ kernel.Spare inner ∧
    ∀ owner aux, Leaf.auxiliaryGpr owner (Schedule.bodyPool kernel.schedulerPool) = .ok aux →
      aux ≠ outer ∧ aux ≠ inner ∧ kernel.Spare aux
  /-- The scratch vector register of the bodies holds no value. -/
  auxiliaryVec : ∀ owner aux, Leaf.auxiliaryVec owner kernel.freeVecs = .ok aux →
    aux ∉ Region.occurring .vec long ∧ aux ∉ Region.occurring .vec short
  /-- Behind their computation data pointers are only moved. -/
  pieces : ∃ pointers rows, kernel.pointerCode program.inputs = .ok pointers ∧
    kernel.scheduler.emit kernel.freeVecs kernel.schedulerPool = .ok rows ∧
    code = preamble ++ pointers ++ rows ++ postamble ∧
    ∀ i ∈ rows, ∀ (p : Nat) (r : Register), kernel.pointers[p]? = some r.val → r ∈ i.writes →
      Moves kernel.mode w flags p r i
  /-- Nothing writes the address of the argument block as long as it is needed. -/
  block : kernel.mode = .dynamic → ∀ i ∈ code, Register.blockArgument ∉ i.writes

/-! ## Code that computes data pointers -/

/-- What holds of the instructions of all pieces holds of the whole code. -/
theorem forall_mem_of_mapM {α : Type} {f : α → Except Error Code} {list : List α} {codes : List Code}
    (h : list.mapM f = .ok codes) {P : Instruction → Prop}
    (hpiece : ∀ a ∈ list, ∀ code, f a = .ok code → ∀ i ∈ code, P i) : ∀ i ∈ codes.flatten, P i := by
  intro i hi
  obtain ⟨code, hcode, hi⟩ := List.mem_flatten.1 hi
  obtain ⟨a, ha, hemit⟩ := forall₂_mem_right (Checked.mapM_eq_ok.1 h) hcode
  exact hpiece a ha code hemit i hi

section Pointers

variable {gprs : List Nat} (hstack : Register.rsp.val ∉ gprs)
include hstack

/-- A product is added by way of the scratch register. -/
theorem keepsTo_addProduct {pointer scratch : Register} (hpointer : pointer.val ∈ gprs)
    (hscratch : scratch.val ∈ gprs) {setStride : Instruction} (hset : setStride.KeepsTo gprs) (d : Nat) :
    ∀ i ∈ addProduct pointer scratch setStride (indexEntry d), i.KeepsTo gprs := by
  have hindex : Register.rsp ≠ .indexArgument := by decide
  simp only [addProduct, List.forall_mem_cons, List.not_mem_nil, false_imp_iff, implies_true, and_true]
  exact ⟨hset, Instruction.keepsTo_of_load hstack hscratch hindex rfl rfl,
    Instruction.keepsTo_of_operands hstack (by simp [Instruction.operands, hpointer, hscratch])⟩

/-- The address of a parameter is loaded to its data pointer. -/
theorem keepsTo_loadPointer {pointer : Register} (hpointer : pointer.val ∈ gprs) {param inputs : Nat}
    {code : Code} (h : loadPointer pointer param inputs = .ok code) : ∀ i ∈ code, i.KeepsTo gprs := by
  obtain ⟨_, -, h⟩ := Checked.bind_eq_ok.1 h
  obtain ⟨m, hm, h⟩ := Checked.bind_eq_ok.1 h
  obtain rfl := Checked.pure_eq_ok.1 h
  have hbase : Register.rsp ≠ m.base := by
    rw [MemoryOperand.base_of_behind hm]
    decide
  rw [List.forall_mem_singleton]
  exact Instruction.keepsTo_of_load hstack hpointer hbase rfl rfl

variable {inputs : Nat} {pointers : List Nat} {code : Code} (hpointers : ∀ r ∈ pointers, r ∈ gprs)
include hpointers

/-- **The data pointers of a static kernel** are computed in their registers, and in that of the argument
block. -/
theorem keepsTo_of_staticPointers (hblock : Register.blockArgument.val ∈ gprs) {table : OffsetTable}
    (h : staticPointers table inputs pointers = .ok code) : ∀ i ∈ code, i.KeepsTo gprs := by
  obtain ⟨dims, -, h⟩ := Checked.bind_eq_ok.1 h
  obtain ⟨pieces, hpieces, h⟩ := Checked.bind_eq_ok.1 h
  obtain rfl := Checked.pure_eq_ok.1 h
  refine forall_mem_of_mapM hpieces fun x hx piece hpiece => ?_
  obtain ⟨r, hr, hpiece⟩ := Checked.bind_eq_ok.1 hpiece
  obtain ⟨scratch, hscratch, hpiece⟩ := Checked.bind_eq_ok.1 hpiece
  obtain ⟨load, hload, hpiece⟩ := Checked.bind_eq_ok.1 hpiece
  obtain ⟨strides, -, hpiece⟩ := Checked.bind_eq_ok.1 hpiece
  obtain ⟨products, hproducts, hpiece⟩ := Checked.bind_eq_ok.1 hpiece
  obtain rfl := Checked.pure_eq_ok.1 hpiece
  rw [RegisterClass.pick_eq_ok] at hr hscratch
  have hmem : x.1 ∈ pointers := List.mem_of_getElem? (List.mem_zipIdx_iff_getElem?.1 hx)
  have hpointer : r.val ∈ gprs := hr ▸ hpointers x.1 hmem
  have hscratch : scratch.val ∈ gprs := by
    rw [← hscratch]
    split_ifs
    · rw [List.getLastD_eq_getLast?, List.getLast?_eq_some_getLast (List.ne_nil_of_mem hmem),
        Option.getD_some]
      exact hpointers _ (List.getLast_mem _)
    · exact hblock
  refine List.forall_mem_append.2 ⟨keepsTo_loadPointer hstack hpointer hload, ?_⟩
  refine forall_mem_of_mapM hproducts fun d _ product hproduct => ?_
  obtain ⟨extent, -, hproduct⟩ := Checked.bind_eq_ok.1 hproduct
  split at hproduct
  · simp [← Checked.pure_eq_ok.1 hproduct]
  · obtain ⟨stride, -, hproduct⟩ := Checked.bind_eq_ok.1 hproduct
    split at hproduct
    · simp [← Checked.pure_eq_ok.1 hproduct]
    · obtain rfl := Checked.pure_eq_ok.1 hproduct
      exact keepsTo_addProduct hstack hpointer hscratch (Instruction.keepsTo_of_operands hstack
        (by simp [Instruction.operands, hscratch])) d

/-- **Those of a dynamic kernel** are computed in their registers, and in a scratch register, which is a
free one. -/
theorem keepsTo_of_dynamicPointers {free : List Nat} (hfree : ∀ r ∈ free, r ∈ gprs)
    (h : dynamicPointers inputs pointers free = .ok code) : ∀ i ∈ code, i.KeepsTo gprs := by
  obtain ⟨⟨number, rest⟩, hnumber, h⟩ := Checked.bind_eq_ok.1 h
  obtain ⟨scratch, hscratch, h⟩ := Checked.bind_eq_ok.1 h
  obtain ⟨pieces, hpieces, h⟩ := Checked.bind_eq_ok.1 h
  obtain rfl := Checked.pure_eq_ok.1 h
  obtain rfl : number = scratch.val := RegisterClass.pick_eq_ok.1 hscratch
  obtain rfl := Schedule.takeLast_eq_ok.1 hnumber
  have hscratch : scratch.val ∈ gprs := hfree _ (by simp)
  refine forall_mem_of_mapM hpieces fun x hx piece hpiece => ?_
  obtain ⟨r, hr, hpiece⟩ := Checked.bind_eq_ok.1 hpiece
  obtain ⟨load, hload, hpiece⟩ := Checked.bind_eq_ok.1 hpiece
  obtain ⟨products, hproducts, hpiece⟩ := Checked.bind_eq_ok.1 hpiece
  obtain rfl := Checked.pure_eq_ok.1 hpiece
  rw [RegisterClass.pick_eq_ok] at hr
  have hpointer : r.val ∈ gprs :=
    hr ▸ hpointers x.1 (List.mem_of_getElem? (List.mem_zipIdx_iff_getElem?.1 hx))
  refine List.forall_mem_append.2 ⟨keepsTo_loadPointer hstack hpointer hload, ?_⟩
  refine forall_mem_of_mapM hproducts fun d _ product hproduct => ?_
  obtain ⟨stride, hstride, hproduct⟩ := Checked.bind_eq_ok.1 hproduct
  obtain rfl := Checked.pure_eq_ok.1 hproduct
  have hbase : Register.rsp ≠ stride.base := by
    rw [MemoryOperand.base_of_behind hstride]
    decide
  exact keepsTo_addProduct hstack hpointer hscratch
    (Instruction.keepsTo_of_load hstack hscratch hbase rfl rfl) d

end Pointers

/-! ## Code that processes rows -/

/-- A kernel saves registers and restores them without writing the argument registers. -/
theorem blockArgument_of_frame : ∀ i ∈ preamble ++ postamble, Register.blockArgument ∉ i.writes := by
  decide

/-- The step of a tile in bytes. -/
theorem eq_of_stepBytes {lanes inputs : Nat} {dims : List Nat} (hlanes : lanes ≤ 16) {bytes : Int}
    (h : Tile.stepBytes ⟨lanes, inputs, dims, elementSize⟩ = .ok bytes) :
    bytes = (lanes * elementSize : Nat) := by
  obtain ⟨n, hn, h⟩ := Checked.bind_eq_ok.1 h
  obtain ⟨rfl, -⟩ := Checked.mul_eq_ok.1 hn
  obtain ⟨rfl, -⟩ := immediate_eq_ok.1 h
  refine Checked.toOffset_of_lt ?_
  dsimp only [elementSize]
  omega

section Rows

variable {domain : Domain} {mode : KernelMode} {dims : List Nat} {long short : Region}
  (hmade : kernel.MadeFor program domain w mode flags dims long short)
  {P : Instruction → Prop}
  (hother : ∀ i, i.KeepsTo kernel.schedulerPool → P i)
  (hmoves : ∀ (p : Nat) (r : Register) (i : Instruction), kernel.pointers[p]? = some r.val →
    Moves mode w flags p r i → P i)
include hmade hother hmoves

/-- A property of the instructions that keep to the scheduler's pool, and of those that move data pointers,
is one that the scheduler of a kernel admits. -/
theorem admits_of_moves {inner : Nat} (hinner : inner ∈ kernel.schedulerPool)
    (hpool : ∀ r ∈ Schedule.bodyPool kernel.schedulerPool, r ∈ kernel.schedulerPool) :
    Schedule.Context.Admits
      ⟨⟨⟨w.lanes, program.inputs, dims, elementSize⟩,
          Region.emit kernel.freeVecs (Schedule.bodyPool kernel.schedulerPool) long⟩,
        ⟨⟨1, program.inputs, dims, elementSize⟩,
          Region.emit kernel.freeVecs (Schedule.bodyPool kernel.schedulerPool) short⟩,
        kernel.pointers, inner⟩ kernel.scheduleMode kernel.schedulerPool P where
  stack hmem := (spare_schedulerPool hmade.serves hmem).stack rfl
  inner := hinner
  other := hother
  body := by
    have hpointers : Register.rsp.val ∉ gprPool.take program.params := fun hmem =>
      absurd (List.mem_of_mem_take hmem) (by decide)
    have hlength : (gprPool.take program.params).length = program.params := by
      rw [← hmade.serves.pointers]
      exact hmade.length_pointers
    have hbody : ∀ {kind : BodyKind} {body : Region}, program.Allocated w kind flags body → ∀ code,
        Region.emit kernel.freeVecs (Schedule.bodyPool kernel.schedulerPool) body = .ok code →
          ∀ i ∈ code, P i := by
      intro kind body hbody code hcode i hi
      have haddresses := Program.addressesThrough_of_allocated hbody
      have hkeeps := Region.keepsTo_of_emit
        (fun hmem => (spare_schedulerPool hmade.serves (hpool _ hmem)).stack rfl)
        (fun _ => haddresses.leaf) (fun e he hmem => hpointers
          ((haddresses.mem_occurring_gpr hlength).1 (Region.mem_occurring.2 ⟨e, he, hmem⟩))) hcode i hi
      exact hother i ⟨fun r hr => hpool _ (hkeeps.writes r hr), hkeeps.stack⟩
    intro tile htile
    rcases List.mem_pair.1 htile with rfl | rfl
    · exact hbody hmade.tiles.long
    · exact hbody hmade.tiles.short
  step := by
    have hstep : ∀ lanes, lanes = w.lanes ∨ lanes = 1 → ∀ bytes,
        Tile.stepBytes ⟨lanes, program.inputs, dims, elementSize⟩ = .ok bytes →
          ∀ (p : Nat) (r : Register), kernel.pointers[p]? = some r.val →
            Tile.advances ⟨lanes, program.inputs, dims, elementSize⟩ p = true →
              P (.addImmediate r bytes) := by
      intro lanes hlanes bytes hbytes p r hp hadvances
      have hle : lanes ≤ 16 := by
        rcases hlanes with rfl | rfl
        · cases w <;> decide
        · decide
      rw [eq_of_stepBytes hle hbytes]
      exact hmoves p r _ hp (.step hlanes (hmade.tiles.advances lanes p ▸ hadvances))
    intro tile htile
    rcases List.mem_pair.1 htile with rfl | rfl
    · exact hstep w.lanes (.inl rfl)
    · exact hstep 1 (.inr rfl)
  offset work rowOffsets hmode p r x hp hx := by
    rw [hmade.scheduleMode] at hmode
    cases mode with
    | static table =>
      cases hmode
      exact hmoves p r _ hp (.offset rfl hx)
    | dynamic => cases hmode
  load hmode p r m hp hm := by
    rw [hmade.scheduleMode] at hmode
    cases mode with
    | static table => cases hmode
    | dynamic => exact hmoves p r _ hp (.load rfl hm)

/-- **The instructions of a kernel's scheduler** keep to its pool or move data pointers. -/
theorem forall_mem_rows {rows : Code}
    (hrows : kernel.scheduler.emit kernel.freeVecs kernel.schedulerPool = .ok rows) :
    ∀ i ∈ rows, P i := by
  rw [scheduler, hmade.body] at hrows
  obtain ⟨lanes, outer, inner, -, hpool, hrows⟩ := Entry.emit_scheduler_eq_ok hrows
  have hmem : ∀ r, r ∈ Schedule.bodyPool kernel.schedulerPool ∨ r = inner ∨ r = outer →
      r ∈ kernel.schedulerPool := by
    intro r hr
    rw [hpool]
    simpa using hr
  have hadmits := admits_of_moves hmade hother hmoves (hmem inner (by simp)) fun r hr =>
    hmem r (.inl hr)
  have houter := hmem outer (by simp)
  cases hmode : kernel.scheduleMode with
  | static work rowOffsets =>
    rw [hmode] at hrows
    exact hadmits.staticCode hmode houter hrows
  | dynamic =>
    rw [hmode] at hrows
    exact hadmits.dynamicCode hmode houter hrows

end Rows

section Code

variable {domain : Domain} {mode : KernelMode} {dims : List Nat} {long short : Region}
  (hmade : kernel.MadeFor program domain w mode flags dims long short) {pointers rows : Code}
include hmade

/-- The counters of the scheduler and the scratch register of the bodies are free and different. -/
theorem MadeFor.counters
    (hrows : kernel.scheduler.emit kernel.freeVecs kernel.schedulerPool = .ok rows) :
    ∃ outer inner, kernel.schedulerPool =
        Schedule.bodyPool kernel.schedulerPool ++ [inner, outer] ∧
      outer ≠ inner ∧ kernel.Spare outer ∧ kernel.Spare inner ∧
      ∀ owner aux, Leaf.auxiliaryGpr owner (Schedule.bodyPool kernel.schedulerPool) = .ok aux →
        aux ≠ outer ∧ aux ≠ inner ∧ kernel.Spare aux := by
  have hspare : ∀ r ∈ kernel.schedulerPool, kernel.Spare r := fun r => spare_schedulerPool hmade.serves
  have hapart := nodup_schedulerPool hmade.serves
  obtain ⟨lanes, outer, inner, -, hpool, -⟩ :=
    Entry.emit_scheduler_eq_ok (by rwa [scheduler, hmade.body] at hrows)
  rw [hpool] at hapart hspare
  obtain ⟨-, hcounters, hdisjoint⟩ := List.nodup_append'.1 hapart
  refine ⟨outer, inner, hpool, ?_, hspare outer (by simp), hspare inner (by simp),
    fun owner aux haux => ?_⟩
  · rintro rfl
    simp at hcounters
  · have hmem := List.mem_of_getLast? (Leaf.auxiliaryGpr_eq_ok.1 haux)
    have hnot := hdisjoint hmem
    exact ⟨fun h => hnot (by simp [h]), fun h => hnot (by simp [h]),
      hspare aux (List.mem_append_left _ hmem)⟩

/-- **The instructions of the rows that write a data pointer** move it. -/
theorem MadeFor.moves_of_mem_rows
    (hrows : kernel.scheduler.emit kernel.freeVecs kernel.schedulerPool = .ok rows) :
    ∀ i ∈ rows, ∀ (p : Nat) (r : Register), kernel.pointers[p]? = some r.val → r ∈ i.writes →
      Moves mode w flags p r i := by
  have hnodup := nodup_pointers hmade.serves
  refine forall_mem_rows hmade (fun i hi p r hp hr => ?_) (fun p r i hp hmoves q s hq hs => ?_) hrows
  · exact absurd (List.mem_of_getElem? hp) (spare_schedulerPool hmade.serves (hi.writes r hr)).pointers
  · -- An instruction that moves a data pointer writes that register only.
    rw [hmoves.writes, List.mem_singleton] at hs
    subst hs
    obtain ⟨hlt, hget⟩ := List.getElem?_eq_some_iff.1 hp
    obtain ⟨hlt', hget'⟩ := List.getElem?_eq_some_iff.1 hq
    obtain rfl := (hnodup.getElem_inj_iff).1 (hget.trans hget'.symm)
    exact hmoves

/-- Nothing writes the address of the argument block in a dynamic kernel. -/
theorem MadeFor.blockArgument_not_mem (hdynamic : mode = .dynamic)
    (hpointers : kernel.pointerCode program.inputs = .ok pointers)
    (hrows : kernel.scheduler.emit kernel.freeVecs kernel.schedulerPool = .ok rows) :
    ∀ i ∈ preamble ++ pointers ++ rows ++ postamble, Register.blockArgument ∉ i.writes := by
  have hserves := hmade.serves
  have hpool : Register.blockArgument.val ∉ gprPool := by decide
  have hpointer : Register.blockArgument.val ∉ kernel.pointers := fun h =>
    hpool (mem_gprPool_of_serves hserves (.inl h))
  have hpieces : ∀ i ∈ pointers, Register.blockArgument ∉ i.writes := by
    rw [pointerCode, hmade.mode_eq, hdynamic] at hpointers
    have hstack : Register.rsp.val ∉ gprPool := by decide
    intro i hi hr
    have hkeeps := keepsTo_of_dynamicPointers hstack (fun _ hr => mem_gprPool_of_serves hserves (.inl hr))
      (fun _ hr => mem_gprPool_of_serves hserves (.inr hr)) hpointers i hi
    exact hpool (hkeeps.writes _ hr)
  have hrowsPiece : ∀ i ∈ rows, Register.blockArgument ∉ i.writes := by
    refine forall_mem_rows hmade (fun i hi hr => ?_) (fun p r i hp hmoves hr => ?_) hrows
    · exact (spare_schedulerPool hserves (hi.writes _ hr)).block (hmade.mode_eq.trans hdynamic) rfl
    · rw [hmoves.writes, List.mem_singleton] at hr
      exact hpointer (hr ▸ List.mem_of_getElem? hp)
  intro i hi
  simp only [List.mem_append] at hi
  rcases hi with ((hi | hi) | hi) | hi
  · exact blockArgument_of_frame i (List.mem_append_left _ hi)
  · exact hpieces i hi
  · exact hrowsPiece i hi
  · exact blockArgument_of_frame i (List.mem_append_right _ hi)

end Code

/-- **The registers of a kernel do not get in each other's way.** -/
theorem MadeFor.disciplined {domain : Domain} {mode : KernelMode} {dims : List Nat}
    {long short : Region} (hmade : kernel.MadeFor program domain w mode flags dims long short)
    {code : Code} (hcode : kernel.code program.inputs program.outputs.length = .ok code) :
    kernel.Disciplined program w flags long short code := by
  obtain ⟨pointers, rows, hpointers, hrows, rfl⟩ := code_eq_ok hcode
  have hserves := hmade.serves
  refine {
    length_pointers := hmade.length_pointers
    nodup_pointers := Kernel.nodup_pointers hserves
    pointers_ne := fun r hr => ?_
    long_addresses := ?_
    short_addresses := ?_
    counters := hmade.counters hrows
    auxiliaryVec := fun owner aux haux => ?_
    pieces := ⟨pointers, rows, hpointers, hrows, rfl, ?_⟩
    block := fun hdynamic => hmade.blockArgument_not_mem (hmade.mode_eq ▸ hdynamic) hpointers hrows }
  · rw [hserves.pointers] at hr
    exact mem_gprPool.1 (List.mem_of_mem_take hr)
  · rw [hserves.pointers]
    exact Program.addressesThrough_of_allocated hmade.tiles.long
  · rw [hserves.pointers]
    exact Program.addressesThrough_of_allocated hmade.tiles.short
  · have hfree := List.mem_of_getLast? (Leaf.auxiliaryVec_eq_ok.1 haux)
    rw [(Program.addressesThrough_of_allocated hmade.tiles.long).mem_occurring_vec,
      (Program.addressesThrough_of_allocated hmade.tiles.short).mem_occurring_vec, and_self]
    exact (hmade.mem_freeVecs.1 hfree).2
  · rw [hmade.mode_eq]
    exact hmade.moves_of_mem_rows hrows

end Kernel

/-- **Register discipline.** Every kernel that is generated has registers that do not get in each
other's way, and a dynamic one keeps the address of its argument block in all states of a run.

**Proof sketch.** The data pointers are the first registers of the pool, and the scheduler draws from
those that remain and from the argument registers that are no longer needed. Each instruction of the
scheduler writes a register of its own pool or moves a data pointer. -/
theorem Compiler.generate_disciplined {compiler : Compiler} {program : Program} {domain : Domain}
    {mode : KernelMode} {code : Code} (h : compiler.generate program domain mode = .ok code) :
    ∃ w region kernel flags dims long short,
      compiler.config.isa.vectorWidth = .ok w ∧
      schedulerRegion program domain w mode = .ok region ∧
      Kernel.ofRegion mode region = .ok kernel ∧
      kernel.code program.inputs program.outputs.length = .ok code ∧
      kernel.mode = mode ∧ domain.broadcastFlags = .ok flags ∧
      kernel.body = [.tile ⟨w.lanes, program.inputs, dims, elementSize⟩ long [] [],
        .tile ⟨1, program.inputs, dims, elementSize⟩ short [] []] ∧
      kernel.Disciplined program w flags long short code ∧
      (mode = .dynamic → ∀ (bound : Nat) (s : MachineState), ∀ v ∈ Machine.visited code bound 0 s,
        v.2.words.get .blockArgument = s.words.get .blockArgument) := by
  obtain ⟨w, hw, h⟩ := Checked.bind_eq_ok.1 h
  obtain ⟨region, hregion, h⟩ := Checked.bind_eq_ok.1 h
  obtain ⟨kernel, hkernel, hcode⟩ := Checked.bind_eq_ok.1 h
  obtain ⟨flags, dims, long, short, hmade⟩ := madeFor_of_ofRegion hregion hkernel
  have hdisciplined := hmade.disciplined hcode
  refine ⟨w, region, kernel, flags, dims, long, short, hw, hregion, hkernel, hcode, hmade.mode_eq,
    hmade.broadcast, hmade.body, hdisciplined, fun hmode bound s v hv => ?_⟩
  exact Machine.get_visited (hdisciplined.block (hmade.mode_eq.trans hmode)) hv

/-- Both kernels of a program of two inputs, for two rows of nine, are disciplined. -/
theorem Compiler.generate_disciplined_of_rows :
    ∃ domain table, Compiler.sample.plan .shiftedProduct [[2, 9], [9]] = .ok domain ∧
      OffsetTable.ofDomain domain = .ok table ∧
      ∀ mode ∈ [KernelMode.static table, .dynamic],
        ∃ (code : Code) (kernel : Kernel) (flags : List Bool) (long short : Region),
          Compiler.sample.generate .shiftedProduct domain mode = .ok code ∧
          kernel.Disciplined .shiftedProduct .ymm flags long short code := by
  have hall : (do
      let domain ← Compiler.sample.plan .shiftedProduct [[2, 9], [9]]
      let table ← OffsetTable.ofDomain domain
      let _ ← Compiler.sample.generate .shiftedProduct domain (.static table)
      let _ ← Compiler.sample.generate .shiftedProduct domain .dynamic).toOption = some () := by
    decide +kernel
  rw [Checked.toOption_eq_some] at hall
  obtain ⟨domain, hplan, hall⟩ := Checked.bind_eq_ok.1 hall
  obtain ⟨table, htable, hall⟩ := Checked.bind_eq_ok.1 hall
  obtain ⟨static, hstatic, hall⟩ := Checked.bind_eq_ok.1 hall
  obtain ⟨dynamic, hdynamic, -⟩ := Checked.bind_eq_ok.1 hall
  refine ⟨domain, table, hplan, htable, fun mode hmode => ?_⟩
  obtain ⟨code, hcode⟩ : ∃ code, Compiler.sample.generate .shiftedProduct domain mode = .ok code := by
    rcases List.mem_pair.1 hmode with rfl | rfl
    · exact ⟨static, hstatic⟩
    · exact ⟨dynamic, hdynamic⟩
  obtain ⟨w, -, kernel, flags, -, long, short, hw, -, -, -, -, -, -, hdisciplined, -⟩ :=
    generate_disciplined hcode
  obtain rfl := Except.ok.inj hw
  exact ⟨code, kernel, flags, long, short, hcode, hdisciplined⟩

end Pointwise
