import Pointwise.Proofs.Machine.Writes
import Pointwise.Proofs.Region.Code
import Pointwise.Region.Emit

/-!
# Registers that a scheduler writes

The code of a scheduler consists of the bodies of its tiles, of steps and row offsets that move data
pointers, and of instructions that count. The instructions that move data pointers aside, it writes
registers of its pool only and does not name the stack pointer. A property of instructions is therefore
proved of the whole code by looking at such instructions and at those that move a data pointer.

## Main definitions

* `Instruction.KeepsTo` — an instruction that writes registers of a list only and does not name the
  stack pointer.
* `Schedule.Context.Admits` — a property of the instructions from which a scheduler is built.

## Main results

* `LeafOp.keepsTo_of_emit` — a leaf operation keeps to the registers of its pool.
* `Schedule.Context.Admits.staticCode`, `Schedule.Context.Admits.dynamicCode` — the property holds of
  the code of a scheduler.
-/

set_option autoImplicit false

namespace Pointwise

/-- An instruction that writes registers of a list only and does not name the stack pointer. -/
structure Instruction.KeepsTo (gprs : List Nat) (i : Instruction) : Prop where
  writes : ∀ r ∈ i.writes, r.val ∈ gprs
  stack : Register.rsp ∉ i.operands

/-- An operand behind the address in a register is based on this register. -/
theorem MemoryOperand.base_of_behind {base : Register} {displacement : Nat} {m : MemoryOperand}
    (h : behind base.val displacement = .ok m) : m.base = base := by
  simp only [behind, Checked.bind_eq_ok, Checked.pure_eq_ok, RegisterClass.pick_eq_ok] at h
  obtain ⟨_, -, r, hr, rfl⟩ := h
  exact Fin.ext hr.symm

section KeepsTo

variable {w : VectorWidth} {input output vecs gprs : List Nat} {code : Code}
  (hstack : Register.rsp.val ∉ gprs)
include hstack

/-- An instruction keeps to the registers of a list if it names no other ones. -/
theorem Instruction.keepsTo_of_operands {i : Instruction} (h : ∀ r ∈ i.operands, r.val ∈ gprs) :
    i.KeepsTo gprs :=
  ⟨fun r hr => h r (i.writes_subset_operands hr), fun hr => hstack (h _ hr)⟩

/-- So does one that reads memory, by way of any register but the stack pointer. -/
theorem Instruction.keepsTo_of_load {i : Instruction} {r base : Register} (hr : r.val ∈ gprs)
    (hbase : .rsp ≠ base) (hwrites : i.writes = [r]) (hoperands : i.operands = [r, base]) :
    i.KeepsTo gprs := by
  have hne : Register.rsp ≠ r := fun e => hstack (e ▸ hr)
  exact ⟨by simpa [hwrites], by simp [hoperands, hne, hbase]⟩

/-! ## Leaf operations -/

/-- A bit pattern is put into vectors by way of the scratch register. -/
theorem Leaf.keepsTo_of_splatBits {target scratch : Nat} {bits : BitVec 32}
    (hscratch : gprs.getLast? = some scratch) (h : splatBits w target bits scratch = .ok code) :
    ∀ i ∈ code, i.KeepsTo gprs := by
  obtain ⟨d, r, -, rfl, rfl⟩ := splatBits_eq_ok.1 h
  have hmem := List.mem_of_getLast? hscratch
  refine fun i hi => Instruction.keepsTo_of_operands hstack ?_
  simp only [List.mem_cons, List.not_mem_nil, or_false] at hi
  rcases hi with rfl | rfl | rfl <;> simp [Instruction.operands, hmem]

/-- Operations on one vector need a scratch register if they need a mask. -/
theorem Leaf.keepsTo_of_unary {op : UnaryOp} {target source : Nat}
    (h : unary w op target source vecs gprs = .ok code) : ∀ i ∈ code, i.KeepsTo gprs := by
  have hnone : ∀ i : Instruction, i.operands = [] → i.KeepsTo gprs := fun i hi =>
    Instruction.keepsTo_of_operands hstack (by simp [hi])
  cases op with
  | sqrt | relu =>
    simp only [unary, Checked.bind_eq_ok, Checked.pure_eq_ok] at h
    grind [Instruction.operands]
  | neg | abs =>
    simp only [unary, Checked.bind_eq_ok, Checked.pure_eq_ok, auxiliaryGpr_eq_ok] at h
    obtain ⟨aux, -, scratch, hscratch, mask, hmask, d, -, a, -, m, -, rfl⟩ := h
    rw [List.forall_mem_append, List.forall_mem_singleton]
    exact ⟨keepsTo_of_splatBits hstack hscratch hmask, hnone _ rfl⟩

/-- **A leaf operation keeps to the registers of its pool**, unless it goes to memory through the stack
pointer. -/
theorem LeafOp.keepsTo_of_emit {op : LeafOp}
    (hnames : Register.rsp.val ∉ (Entry.leaf op input output).occurring .gpr)
    (h : op.emit input output vecs gprs = .ok code) : ∀ i ∈ code, i.KeepsTo gprs := by
  have hnone : ∀ i : Instruction, i.operands = [] → i.KeepsTo gprs := fun i hi =>
    Instruction.keepsTo_of_operands hstack (by simp [hi])
  -- what goes to memory writes no general register
  have hmemory : ∀ {n : Nat} {p : Register} {i : Instruction}, Register.rsp.val ≠ n → n = p.val →
      i.writes = [] → i.operands = [p] → i.KeepsTo gprs := fun hn hp hwrites hoperands =>
    ⟨by simp [hwrites], by
      rw [hoperands, List.mem_singleton]
      exact fun e => hn (e ▸ hp.symm)⟩
  rw [Entry.occurring] at hnames
  unfold LeafOp.emit at h
  split at h
  case h_6 =>
    obtain ⟨scratch, hscratch, h⟩ := Checked.bind_eq_ok.1 h
    exact Leaf.keepsTo_of_splatBits hstack (Leaf.auxiliaryGpr_eq_ok.1 hscratch) h
  case h_9 =>
    unfold Leaf.fma at h
    split_ifs at h <;> simp only [Checked.bind_eq_ok, Checked.pure_eq_ok] at h <;>
      grind [Instruction.operands]
  case h_10 => exact Leaf.keepsTo_of_unary hstack h
  case h_11 => cases h
  all_goals
    simp only [LeafOp.dataFlow, DataFlow.operandsOf, DataFlow.inputKind, DataFlow.outputKind] at hnames
    simp only [Checked.bind_eq_ok, Checked.pure_eq_ok, RegisterClass.pick_eq_ok] at h
    grind [Instruction.operands, Instruction.writes]

/-- So does a list of them. -/
theorem Region.keepsTo_of_emit {entries : List Entry}
    (hleaf : ∀ e ∈ entries, ∃ op input output, e = .leaf op input output)
    (hnames : ∀ e ∈ entries, Register.rsp.val ∉ e.occurring .gpr)
    (h : Region.emit vecs gprs entries = .ok code) : ∀ i ∈ code, i.KeepsTo gprs := by
  obtain ⟨codes, hcodes, rfl⟩ := Region.emit_eq_ok.1 h
  intro i hi
  obtain ⟨c, hc, hi⟩ := List.mem_flatten.1 hi
  obtain ⟨e, he, hemit⟩ := forall₂_mem_right hcodes hc
  obtain ⟨op, input, output, rfl⟩ := hleaf e he
  rw [Entry.emit] at hemit
  exact LeafOp.keepsTo_of_emit hstack (hnames _ he) hemit i hi

end KeepsTo

/-! ## Schedulers -/

namespace Schedule

/-- A property that the instructions have from which a scheduler is built: those that keep to its pool,
where the stack pointer is not, the bodies of its tiles, and those that move a data pointer. -/
structure Context.Admits (context : Context) (mode : ScheduleMode) (gprs : List Nat)
    (P : Instruction → Prop) : Prop where
  stack : Register.rsp.val ∉ gprs
  inner : context.innerRegister ∈ gprs
  other : ∀ i, i.KeepsTo gprs → P i
  body : ∀ tile ∈ [context.vector, context.scalar], ∀ code, tile.body = .ok code → ∀ i ∈ code, P i
  step : ∀ tile ∈ [context.vector, context.scalar], ∀ bytes, tile.tile.stepBytes = .ok bytes →
    ∀ (p : Nat) (r : Register), context.pointers[p]? = some r.val → tile.tile.advances p = true →
      P (.addImmediate r bytes)
  offset : ∀ work rowOffsets, mode = .static work rowOffsets → ∀ (p : Nat) (r : Register) (x : Int),
    context.pointers[p]? = some r.val → rowOffsets[p]? = some x → P (.addImmediate r x)
  load : mode = .dynamic → ∀ (p : Nat) (r : Register) (m : MemoryOperand),
    context.pointers[p]? = some r.val → blockWord (ArgumentBlock.rowsAt + p * 8) = .ok m →
      P (.addLoad r m)

variable {context : Context} {mode : ScheduleMode} {gprs : List Nat} {P : Instruction → Prop}

namespace Context.Admits

section Tiles

variable (h : context.Admits mode gprs P) {tile : TileCode}
  (htile : tile ∈ [context.vector, context.scalar]) {code : Code}
include h

/-- An instruction that names the register of a number in the pool. -/
theorem name {n : Nat} (hn : n ∈ gprs) {r : Register} (hr : n = r.val) {i : Instruction}
    (hi : i.operands = [r]) : P i :=
  h.other i (Instruction.keepsTo_of_operands h.stack (by simpa [hi, ← hr]))

/-- An instruction that loads a word of the argument block to such a register. -/
theorem loadWord {n : Nat} (hn : n ∈ gprs) {r : Register} (hr : n = r.val) {m : MemoryOperand}
    {offset : Nat} (hm : blockWord offset = .ok m) : P (.loadWord r m) := by
  have hbase : Register.rsp ≠ m.base := by
    rw [MemoryOperand.base_of_behind hm]
    decide
  exact h.other _ (Instruction.keepsTo_of_load h.stack (hr ▸ hn) hbase rfl rfl)

/-- An instruction that names no register. -/
theorem silent {i : Instruction} (hi : i.operands = []) : P i :=
  h.other i (Instruction.keepsTo_of_operands h.stack (by simp [hi]))

include htile

/-- The step of the data pointers. -/
theorem advance (hcode : tile.tile.advance context.pointers = .ok code) : ∀ i ∈ code, P i := by
  obtain ⟨bytes, hbytes, hcode⟩ := Checked.bind_eq_ok.1 hcode
  intro i hi
  obtain ⟨pointer, hpointer, hemit⟩ := forall₂_mem_right (Checked.mapM_eq_ok.1 hcode) hi
  obtain ⟨⟨n, p⟩, hp, rfl⟩ := List.mem_map.1 hpointer
  obtain ⟨hp, hmoves⟩ := List.mem_filter.1 hp
  obtain ⟨r, hr, hmove⟩ := Checked.bind_eq_ok.1 hemit
  obtain rfl : n = r.val := RegisterClass.pick_eq_ok.1 hr
  exact Checked.pure_eq_ok.1 hmove ▸
    h.step tile htile bytes hbytes p r (List.mk_mem_zipIdx_iff_getElem?.1 hp) hmoves

/-- The loop of a tile. -/
theorem loop (hcode : context.loop tile = .ok code) : ∀ i ∈ code, P i := by
  obtain ⟨_, -, hcode⟩ := Checked.bind_eq_ok.1 hcode
  rw [Checked.get, List.getElem?_cons_zero, Checked.ok_bind] at hcode
  obtain ⟨work, hwork, hcode⟩ := Checked.bind_eq_ok.1 hcode
  obtain ⟨increment, -, hcode⟩ := Checked.bind_eq_ok.1 hcode
  obtain ⟨body, hbody, hcode⟩ := Checked.bind_eq_ok.1 hcode
  obtain ⟨steps, hsteps, hcode⟩ := Checked.bind_eq_ok.1 hcode
  obtain rfl := Checked.pure_eq_ok.1 hcode
  rw [RegisterClass.pick_eq_ok] at hwork
  simp only [List.forall_mem_append, List.forall_mem_cons, List.not_mem_nil, false_imp_iff,
    implies_true, and_true]
  exact ⟨⟨⟨h.body tile htile body hbody, h.advance htile hsteps⟩, h.name h.inner hwork rfl,
    h.name h.inner hwork rfl⟩, h.silent rfl⟩

/-- The single run of a tile, and the step of the data pointers if there is one. -/
theorem once {followed : Prop} [Decidable followed]
    (hcode : (do
      let body ← tile.body
      if followed then return body ++ (← tile.tile.advance context.pointers) else return body) =
        Except.ok (ε := Error) code) : ∀ i ∈ code, P i := by
  obtain ⟨body, hbody, hcode⟩ := Checked.bind_eq_ok.1 hcode
  split at hcode
  · obtain ⟨steps, hsteps, hcode⟩ := Checked.bind_eq_ok.1 hcode
    obtain rfl := Checked.pure_eq_ok.1 hcode
    exact List.forall_mem_append.2 ⟨h.body tile htile body hbody, h.advance htile hsteps⟩
  · obtain rfl := Checked.pure_eq_ok.1 hcode
    exact h.body tile htile body hbody

/-- The loop of a tile that is skipped if the tile does not fit. -/
theorem dynamicTile {counter : Register} (hcounter : context.innerRegister = counter.val)
    (hcode : Schedule.dynamicTile context tile counter = .ok code) : ∀ i ∈ code, P i := by
  obtain ⟨increment, -, hcode⟩ := Checked.bind_eq_ok.1 hcode
  obtain ⟨loop, hloop, hcode⟩ := Checked.bind_eq_ok.1 hcode
  obtain rfl := Checked.pure_eq_ok.1 hcode
  exact List.forall_mem_cons.2 ⟨h.name h.inner hcounter rfl,
    List.forall_mem_cons.2 ⟨h.silent rfl, h.loop htile hloop⟩⟩

end Tiles

section Rows

variable (h : context.Admits mode gprs P) {counter : Register}
  (hcounter : context.innerRegister = counter.val) {plan : TilePlan} {inner lanes : Nat}
  {followed : Bool} {code : Code}
include h

/-- The row offsets that are built in. -/
theorem addRowOffsets {work : WorkAmounts} {rowOffsets : List Int}
    (hmode : mode = .static work rowOffsets)
    (hcode : Schedule.addRowOffsets context.pointers rowOffsets = .ok code) : ∀ i ∈ code, P i := by
  intro i hi
  obtain ⟨⟨n, x⟩, hx, hemit⟩ := forall₂_mem_right (Checked.mapM_eq_ok.1 hcode) hi
  obtain ⟨r, hr, hadd⟩ := Checked.bind_eq_ok.1 hemit
  obtain ⟨y, hy, hadd⟩ := Checked.bind_eq_ok.1 hadd
  obtain rfl : n = r.val := RegisterClass.pick_eq_ok.1 hr
  obtain ⟨rfl, -⟩ := immediate_eq_ok.1 hy
  obtain ⟨p, hp⟩ := List.mem_iff_getElem?.1 (List.mem_filter.1 hx).1
  obtain ⟨hpointer, hoffset⟩ := List.getElem?_zip_eq_some.1 hp
  exact Checked.pure_eq_ok.1 hadd ▸ h.offset work rowOffsets hmode p r x hpointer hoffset

/-- The row offsets from the argument block. -/
theorem loadRowOffsets (hmode : mode = .dynamic)
    (hcode : Schedule.loadRowOffsets context.pointers = .ok code) : ∀ i ∈ code, P i := by
  intro i hi
  obtain ⟨⟨n, p⟩, hp, hemit⟩ := forall₂_mem_right (Checked.mapM_eq_ok.1 hcode) hi
  obtain ⟨r, hr, hadd⟩ := Checked.bind_eq_ok.1 hemit
  obtain ⟨m, hm, hadd⟩ := Checked.bind_eq_ok.1 hadd
  obtain rfl : n = r.val := RegisterClass.pick_eq_ok.1 hr
  exact Checked.pure_eq_ok.1 hadd ▸ h.load hmode p r m (List.mk_mem_zipIdx_iff_getElem?.1 hp) hm

/-- The loop over the rows. -/
theorem countdown {n : Nat} (hn : n ∈ gprs) {r : Register} (hr : n = r.val) {body : Code}
    (hbody : ∀ i ∈ body, P i) : ∀ i ∈ Schedule.countdown r body, P i := by
  simp only [Schedule.countdown, List.forall_mem_append, List.forall_mem_cons, List.not_mem_nil,
    false_imp_iff, implies_true, and_true]
  exact ⟨⟨hbody, h.name hn hr rfl, h.name hn hr rfl⟩, h.silent rfl⟩

include hcounter

/-- The vector tile in a row with static work amounts. -/
theorem staticVector (hcode : Schedule.staticVector context plan inner followed counter = .ok code) :
    ∀ i ∈ code, P i := by
  unfold Schedule.staticVector at hcode
  split at hcode
  · simp [← Checked.pure_eq_ok.1 hcode]
  · exact h.once (by simp) hcode
  · obtain ⟨loop, hloop, hcode⟩ := Checked.bind_eq_ok.1 hcode
    obtain rfl := Checked.pure_eq_ok.1 hcode
    exact List.forall_mem_cons.2 ⟨h.name h.inner hcounter rfl, h.loop (by simp) hloop⟩

/-- The scalar tile in a row with static work amounts. -/
theorem staticScalar
    (hcode : Schedule.staticScalar context plan inner lanes followed counter = .ok code) :
    ∀ i ∈ code, P i := by
  unfold Schedule.staticScalar at hcode
  split at hcode
  · simp [← Checked.pure_eq_ok.1 hcode]
  · exact h.once (by simp) hcode
  · -- Whatever the vector tile does, at most the counter is set in front of the loop.
    obtain ⟨setup, hsetup, loop, hloop, rfl⟩ : ∃ setup, (∀ i ∈ setup, ∃ x, i = .setWord counter x) ∧
        ∃ loop, context.loop context.scalar = .ok loop ∧ code = setup ++ loop := by
      split at hcode <;> simp only [Checked.bind_eq_ok, Checked.pure_eq_ok] at hcode
      · obtain ⟨setup, rfl, loop, hloop, rfl⟩ := hcode
        exact ⟨_, by simp, loop, hloop, rfl⟩
      · obtain ⟨_, -, setup, rfl, loop, hloop, rfl⟩ := hcode
        exact ⟨_, by simp, loop, hloop, rfl⟩
      · obtain ⟨setup, rfl, loop, hloop, rfl⟩ := hcode
        exact ⟨_, by simp, loop, hloop, rfl⟩
    refine List.forall_mem_append.2 ⟨fun i hi => ?_, h.loop (by simp) hloop⟩
    obtain ⟨x, rfl⟩ := hsetup i hi
    exact h.name h.inner hcounter rfl

omit hcounter in
/-- A row with static work amounts. -/
theorem staticRow (hcode : Schedule.staticRow context plan inner lanes followed = .ok code) :
    ∀ i ∈ code, P i := by
  obtain ⟨counter, hcounter, hcode⟩ := Checked.bind_eq_ok.1 hcode
  obtain ⟨vector, hvector, hcode⟩ := Checked.bind_eq_ok.1 hcode
  obtain ⟨scalar, hscalar, hcode⟩ := Checked.bind_eq_ok.1 hcode
  obtain rfl := Checked.pure_eq_ok.1 hcode
  rw [RegisterClass.pick_eq_ok] at hcounter
  exact List.forall_mem_append.2 ⟨h.staticVector hcounter hvector, h.staticScalar hcounter hscalar⟩

omit hcounter in
/-- **The code of a scheduler with static work amounts.** -/
theorem staticCode {work : WorkAmounts} {rowOffsets : List Int}
    (hmode : mode = .static work rowOffsets) {outer : Nat} (houter : outer ∈ gprs)
    (hcode : Schedule.staticCode context outer work lanes rowOffsets = .ok code) :
    ∀ i ∈ code, P i := by
  obtain ⟨plan, -, hcode⟩ := Checked.bind_eq_ok.1 hcode
  split at hcode
  · exact h.staticRow hcode
  · obtain ⟨r, hr, hcode⟩ := Checked.bind_eq_ok.1 hcode
    obtain ⟨row, hrow, hcode⟩ := Checked.bind_eq_ok.1 hcode
    obtain ⟨offsets, hoffsets, hcode⟩ := Checked.bind_eq_ok.1 hcode
    obtain rfl := Checked.pure_eq_ok.1 hcode
    rw [RegisterClass.pick_eq_ok] at hr
    exact List.forall_mem_cons.2 ⟨h.name houter hr rfl,
      h.countdown houter hr
        (List.forall_mem_append.2 ⟨h.staticRow hrow, h.addRowOffsets hmode hoffsets⟩)⟩

omit hcounter in
/-- A row with dynamic work amounts. -/
theorem dynamicRow (hcode : Schedule.dynamicRow context = .ok code) : ∀ i ∈ code, P i := by
  obtain ⟨counter, hcounter, hcode⟩ := Checked.bind_eq_ok.1 hcode
  obtain ⟨inner, hinner, hcode⟩ := Checked.bind_eq_ok.1 hcode
  obtain ⟨vector, hvector, hcode⟩ := Checked.bind_eq_ok.1 hcode
  obtain ⟨scalar, hscalar, hcode⟩ := Checked.bind_eq_ok.1 hcode
  obtain rfl := Checked.pure_eq_ok.1 hcode
  rw [RegisterClass.pick_eq_ok] at hcounter
  exact List.forall_mem_cons.2 ⟨h.loadWord h.inner hcounter hinner,
    List.forall_mem_append.2
      ⟨h.dynamicTile (by simp) hcounter hvector, h.dynamicTile (by simp) hcounter hscalar⟩⟩

omit hcounter in
/-- **The code of a scheduler with dynamic work amounts.** -/
theorem dynamicCode (hmode : mode = .dynamic) {outer : Nat} (houter : outer ∈ gprs)
    (hcode : Schedule.dynamicCode context outer = .ok code) : ∀ i ∈ code, P i := by
  obtain ⟨counter, hcounter, hcode⟩ := Checked.bind_eq_ok.1 hcode
  obtain ⟨m, hm, hcode⟩ := Checked.bind_eq_ok.1 hcode
  obtain ⟨row, hrow, hcode⟩ := Checked.bind_eq_ok.1 hcode
  obtain ⟨offsets, hoffsets, hcode⟩ := Checked.bind_eq_ok.1 hcode
  obtain rfl := Checked.pure_eq_ok.1 hcode
  rw [RegisterClass.pick_eq_ok] at hcounter
  simp only [List.forall_mem_append, List.forall_mem_cons, List.not_mem_nil, false_imp_iff,
    implies_true, and_true]
  exact ⟨⟨⟨h.loadWord houter hcounter hm, h.name houter hcounter rfl, h.silent rfl⟩,
    h.countdown houter hcounter
      (List.forall_mem_append.2 ⟨h.dynamicRow hrow, h.loadRowOffsets hmode hoffsets⟩)⟩,
    h.silent rfl, h.dynamicRow hrow⟩

end Rows

end Context.Admits

end Schedule

end Pointwise
