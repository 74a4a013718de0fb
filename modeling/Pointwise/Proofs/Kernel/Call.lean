import Pointwise.Proofs.Kernel.Allocation
import Pointwise.Proofs.Kernel.Computation

/-!
# Calls of compiled kernels

Every call of a compiled kernel processes its share of the rows. A static kernel was compiled for
the domain on which it computes; a dynamic one for any domain with the same inputs broadcast along
the rows.

## Main definitions

* `Computation.source` — where the bodies of a kernel's tiles come from.
* `KernelMode.Covers` — a kernel that may be called for a domain with an argument block.
* `Compiler.Generates` — code that is generated in either mode, with the block of its calls.

## Main results

* `Computation.exists_context` — the scheduler of a kernel fits the settings of its calls.
* `Computation.walksIn_static`, `Computation.walksIn_dynamic` — compiled code walks through the shares of
  its calls.
* `Computation.WalksIn.computesIn` — it computes if what is written for a position are no bytes of inputs for
  other positions.
* `KernelMode.Covers.walksIn`, `KernelMode.Covers.computesIn`, `Compiler.Generates.computes` — so it does
  in both modes.
-/

set_option autoImplicit false

namespace Pointwise

open Machine

/-! ## The registers of the data pointers -/

namespace Kernel

variable {program : Program} {kernel : Kernel} {flags : List Bool} {w : VectorWidth}

/-- Data pointers are found by the numbers that the pool of registers has. -/
theorem getElem?_pointers {p : Nat} {r : Register} (hp : p < program.params)
    (h : gprPool[p]? = some r.val) : program.pointers[p]? = some r := by
  rw [← map_pointerPool, List.getElem?_map, Option.map_eq_some_iff] at h
  obtain ⟨q, hq, hval⟩ := h
  rw [Program.pointers, List.getElem?_take_of_lt hp, hq, Fin.ext hval]

/-- Data pointers are not among the registers that remain. -/
theorem not_mem_drop {r : Register} (h : r ∈ program.pointers) :
    r.val ∉ gprPool.drop program.params := by
  rw [← map_pointerPool, ← List.map_drop]
  intro hmem
  obtain ⟨q, hq, hval⟩ := List.mem_map.1 hmem
  rw [Fin.ext hval] at hq
  exact List.disjoint_take_drop nodup_pointerPool le_rfl h hq

/-- The numbers of the data pointers of a kernel. -/
theorem map_pointers (hserves : kernel.Serves program flags w) :
    program.pointers.map (·.val) = kernel.pointers := by
  rw [Program.pointers, List.map_take, map_pointerPool, hserves.pointers]

/-- The registers of the pool may hold data pointers. -/
theorem assignable_pool : ∀ r ∈ pointerPool, Assignable r := by
  unfold Assignable
  decide

/-- The data pointers may be held by the registers of the pool. -/
theorem assignable : ∀ r ∈ program.pointers, Assignable r :=
  fun r hr => assignable_pool r (List.mem_of_mem_take hr)

/-- There are slots for all data pointers. -/
theorem lt_maxParams {p : Nat} (hp : p < program.pointers.length) : p < maxParams := by
  have hle := program.wellFormed.params_le
  rw [program.length_pointers, Program.params] at hp
  omega

/-- The strides of a parameter lie in the argument block. -/
theorem lt_strides {p d : Nat} (hp : p < program.pointers.length) (hd : d < maxCallDims) :
    p * maxCallDims + d < maxParams * maxCallDims := by
  calc p * maxCallDims + d
    _ < (p + 1) * maxCallDims := by
      rw [Nat.succ_mul]
      omega
    _ ≤ maxParams * maxCallDims := Nat.mul_le_mul_right _ (lt_maxParams hp)

/-- The registers with a meaning of their own hold no data pointers. -/
theorem not_mem_pointers (program : Program) : ∀ r ∈ [Register.rsp, .indexArgument, .blockArgument],
    r ∉ pointerPool ∧ r ∉ program.pointers ∧ r.val ∉ gprPool := by
  have hfixed : ∀ r ∈ [Register.rsp, .indexArgument, .blockArgument],
      r ∉ pointerPool ∧ r.val ∉ gprPool := by decide
  exact fun r hr => ⟨(hfixed r hr).1, fun hmem => (hfixed r hr).1 (List.mem_of_mem_take hmem),
    (hfixed r hr).2⟩

/-- The scratch register of a dynamic kernel is the last one that is free. -/
theorem exists_scratch (hserves : kernel.Serves program flags w) {code : Code}
    (hcode : dynamicPointers program.inputs kernel.pointers kernel.freeGprs = .ok code) :
    ∃ (scratch : Register) (gprs : List Nat), kernel.freeGprs = gprs ++ [scratch.val] ∧
      scratch ∈ pointerPool ∧ scratch ∉ program.pointers ∧ scratch.val ∉ gprs ∧
      ∀ r ∈ gprs, r ∈ gprPool.drop program.params := by
  obtain ⟨⟨r, gprs⟩, hlast, hcode⟩ := Checked.bind_eq_ok.1 hcode
  obtain ⟨scratch, hscratch, -⟩ := Checked.bind_eq_ok.1 hcode
  obtain rfl : r = scratch.val := RegisterClass.pick_eq_ok.1 hscratch
  have hsplit := Schedule.takeLast_eq_ok.1 hlast
  rw [hserves.freeGprs] at hsplit
  have hmem : scratch.val ∈ gprPool.drop program.params := by
    rw [hsplit]
    simp
  have hpool := List.mem_of_mem_drop hmem
  rw [← map_pointerPool] at hpool
  obtain ⟨q, hq, hval⟩ := List.mem_map.1 hpool
  obtain rfl : q = scratch := Fin.ext hval
  have hnodup : (gprPool.drop program.params).Nodup :=
    List.Nodup.sublist (List.drop_sublist _ _) (by decide)
  rw [hsplit] at hnodup
  refine ⟨q, gprs, hserves.freeGprs.trans hsplit, hq, fun h => not_mem_drop h hmem, fun h => ?_,
    fun r hr => hsplit ▸ List.mem_append_left _ hr⟩
  exact List.disjoint_of_nodup_append hnodup h (by simp)

end Kernel

namespace Computation

variable {c : Computation} {kernel : Kernel}

/-! ## Schedulers -/

/-- Where the bodies of a kernel's tiles come from, given the general registers that they may use. -/
def source (c : Computation) (kernel : Kernel) (gprs : List Nat) (kind : BodyKind) :
    Program.BodySource :=
  ⟨c.w, kind, c.flags, c.program.registers.registers, Kernel.gprPool, kernel.freeVecs, gprs⟩

section Scheduler

variable {gprs : List Nat} {inner outer : Register} {rows : Code}

/-- A body that is made for a kernel matches the settings of its calls. -/
theorem matches_source (hserves : kernel.Serves c.program c.flags c.w)
    (hgprs : ∀ r ∈ c.program.pointers, r.val ∉ gprs) {kept : List (Register × Address)}
    (hkept : ∀ x ∈ kept, x.1.val ∉ gprs) (kind : BodyKind) (mode : KernelMode) (site : CallSite)
    (first : Nat) (memory : Memory) :
    (c.source kernel gprs kind).Matches (c.setting mode site kept first memory) where
  shares {value value' r r'} hr hr' := by
    have hvalue : c.program.registers.registers[value]? = some r.val := hr
    have hvalue' : c.program.registers.registers[value']? = some r'.val := hr'
    change r = r' ↔ c.program.registers.registers[value]? = c.program.registers.registers[value']?
    rw [hvalue, hvalue', Option.some_inj, Fin.ext_iff]
  free := hserves.freeVecs
  pointers _ _ := Kernel.getElem?_pointers
  moves p b hb := by
    have hb : c.flags[p]? = some b := hb
    change Domain.moves c.flags p = !b
    cases b <;> simp [Domain.moves, hb]
  gprs r hr := by
    rcases hr with hr | hr
    · exact hgprs r hr
    · obtain ⟨x, hx, rfl⟩ := List.mem_map.1 hr
      exact hkept x hx

/-- **The scheduler of a kernel fits the settings of its calls.** -/
theorem exists_context (hserves : kernel.Serves c.program c.flags c.w)
    (hgprs : ∀ r ∈ c.program.pointers, r.val ∉ gprs) (hinner : inner ∉ c.program.pointers)
    (hfree : inner.val ∉ gprs) (hpool : kernel.schedulerPool = gprs ++ [inner.val, outer.val])
    (hrows : kernel.scheduler.emit kernel.freeVecs kernel.schedulerPool = .ok rows) :
    ∃ context : Schedule.Context,
      (∀ (mode : KernelMode) (site : CallSite) (kept : List (Register × Address)) (first : Nat)
        (memory : Memory), (∀ x ∈ kept, x.1.val ∉ gprs ∧ x.1 ≠ inner) →
        context.Fits (c.setting mode site kept first memory) (c.source kernel gprs .vector)
          (c.source kernel gprs .scalar) inner) ∧
      match kernel.scheduleMode with
      | .static work rowOffsets =>
        Schedule.staticCode context outer.val work c.w.lanes rowOffsets = .ok rows
      | .dynamic => Schedule.dynamicCode context outer.val = .ok rows := by
  obtain ⟨dims, long, short, htiles, hbody⟩ := hserves.body
  obtain ⟨_, hlong, hlong'⟩ := htiles.long
  obtain ⟨_, hshort, hshort'⟩ := htiles.short
  rw [Kernel.scheduler, hbody, hserves.input, hpool] at hrows
  obtain ⟨lanes, _, _, hlanes, hregisters, hrows⟩ := Entry.emit_scheduler_eq_ok hrows
  obtain rfl : c.w.lanes = lanes := Option.some.inj hlanes
  rw [Schedule.bodyPool_concat] at hregisters hrows
  obtain ⟨rfl, rfl⟩ : inner.val = _ ∧ outer.val = _ := by simpa using hregisters
  refine ⟨⟨⟨⟨c.w.lanes, c.program.inputs, dims, elementSize⟩, Region.emit kernel.freeVecs gprs long⟩,
    ⟨⟨1, c.program.inputs, dims, elementSize⟩, Region.emit kernel.freeVecs gprs short⟩,
    kernel.pointers, inner.val⟩, fun mode site kept first memory hkept => ?_, ?_⟩
  · have hspare : (c.setting mode site kept first memory).Spare (c.source kernel gprs .vector)
        (c.source kernel gprs .scalar) inner := by
      refine ⟨hinner, fun hmem => ?_, hfree, hfree⟩
      obtain ⟨x, hx, heq⟩ := List.mem_map.1 hmem
      exact (hkept x hx).2 heq
    have hmatches : ∀ kind, (c.source kernel gprs kind).Matches
        (c.setting mode site kept first memory) := fun kind =>
      matches_source hserves hgprs (fun x hx => (hkept x hx).1) kind mode site first memory
    have hdraws : ∀ kind, (c.source kernel gprs kind).Draws Kernel.vecPool
        c.program.registers.registers := fun kind value number r hvalue hr => by
      rw [Kernel.getElem?_vecPool hr]
      exact hvalue
    exact {
      vector := ⟨fun code hcode => ⟨_, _, _, hdraws .vector, hlong, hlong', hcode⟩,
        rfl, rfl, fun p _ => htiles.advances _ p⟩
      scalar := ⟨fun code hcode => ⟨_, _, _, hdraws .scalar, hshort, hshort', hcode⟩,
        rfl, rfl, fun p _ => htiles.advances _ p⟩
      long_kind := rfl
      short_kind := rfl
      long_matches := hmatches .vector
      short_matches := hmatches .scalar
      pointers := (Kernel.map_pointers hserves).symm
      register := rfl
      spare := hspare }
  · exact hrows

end Scheduler

/-! ## From the data pointers to the rows -/

section Body

variable {mode : KernelMode} {site : CallSite} {memory : Memory} {kept : List (Register × Address)}
  {needed : Prop} {pointer : Nat → Address}

/-- When the data pointers are computed, the rows begin with the first position of a call. -/
theorem at_of_computed {stage : (k : Nat) → Instruction → Span → Prop} {first : Nat} {trace : Trace}
    {s : MachineState}
    (h : Kernel.Computed site stage memory needed c.program.pointers pointer trace s)
    (hpointer : ∀ p < c.program.params, pointer p = c.place p first)
    (hkept : ∀ x ∈ kept, s.words.get x.1 = x.2) :
    Staged stage c.program.params trace ∧ storesOf trace = [] ∧
      (c.setting mode site kept first memory).At first (c.place · first) [] s := by
  obtain ⟨hstaged, hsilent, h⟩ := h
  rw [c.program.length_pointers] at hstaged
  refine ⟨hstaged, hsilent, ⟨[], .nil _, h.memory, PassRun.split_nil⟩, fun p r hr => ?_, hkept, respects_nil⟩
  have hlt : p < c.program.params := by
    obtain ⟨hlt, -⟩ := List.getElem?_eq_some_iff.1 hr
    rwa [setting, c.program.length_pointers] at hlt
  rw [h.pointer p r hr, hpointer p hlt]

/-- The address of a parameter in the argument block may be loaded to its data pointer. -/
theorem offers_base (mode : KernelMode) (dims : Nat) {block : ArgumentBlock} {p slot : Nat} {r : Register}
    (hr : c.program.pointers[p]? = some r)
    (h : ArgumentBlock.pointerSlot p c.program.inputs = .ok slot) :
    site.Offers (block.withPointers c.sources c.targets) (site.AdmitsPointer mode c.program dims p) r slot
      (c.base p) := by
  obtain ⟨hlt, -⟩ := List.getElem?_eq_some_iff.1 hr
  have hword : (block.withPointers c.sources c.targets).WordAt slot (c.base p) :=
    ArgumentBlock.wordAt_pointer (Kernel.lt_maxParams hlt) h
  exact ⟨hword, fun _ => ⟨slot, .inl ⟨hr, h⟩, hword.add_le, rfl⟩⟩

/-- The state behind the saves is one in which no pointer is computed. -/
theorem computed_pushed {s : MachineState} (h : site.Pushed s)
    (stage : (k : Nat) → Instruction → Span → Prop) (pointer : Nat → Address) :
    Kernel.Computed site stage s.memory True [] pointer [] s :=
  ⟨staged_zero, rfl, rfl, h.stack, h.index, fun _ => h.block, by simp, by simp, rfl⟩

end Body

/-! ## Index vectors -/

/-- The entry of an index vector along a dimension of size one. -/
theorem getD_unravel {dims : Shape} {d : Nat} (h : dims.getD d 1 = 1) (position : Nat) :
    (Shape.unravel dims position).getD d 0 = 0 := by
  induction dims generalizing d with
  | nil => rfl
  | cons m dims ih =>
    cases d with
    | zero =>
      have hone : m = 1 := h
      rw [Shape.unravel, hone, Nat.mod_one]
      rfl
    | succ d => exact ih h

/-- The dimensions for which a kernel is called: those of the master, with the tiled ones set to
one. -/
theorem getD_callShape {domain : Domain} {outputs : Nat} (h : domain.Planned outputs) (d : Nat) :
    domain.callShape.dropLast.getD d 1 =
      if d < domain.master.length - domain.tileRank then domain.master.getD d 1 else 1 := by
  obtain ⟨front, hcall, ⟨htile, -, hmaster⟩ | ⟨htile, hmaster⟩⟩ := h.split
  · rw [hcall, hmaster, htile, List.replicate_one, List.dropLast_concat]
    simp only [List.getD_eq_getElem?_getD, List.length_append, List.length_singleton,
      Nat.add_sub_cancel]
    split
    · rw [List.getElem?_append_left (by assumption)]
    · rw [List.getElem?_eq_none (by omega), Option.getD_none]
  · have hcall' : domain.callShape = (front ++ [1]) ++ [1] := by
      simp [hcall, htile, List.replicate_succ]
    rw [hcall', hmaster, htile, List.dropLast_concat]
    simp only [List.getD_eq_getElem?_getD, List.length_append, List.length_cons, List.length_nil,
      Nat.add_sub_cancel]
    split
    · rw [List.getElem?_append_left (by assumption), List.getElem?_append_left (by assumption)]
    · rw [List.getElem?_append_right (by omega)]
      rcases Nat.eq_or_lt_of_le (Nat.le_of_not_lt ‹_›) with rfl | hlt
      · simp
      · rw [List.getElem?_eq_none (by simp; omega), Option.getD_none]

/-- A kernel walks a dimension by itself. -/
theorem tileRank_pos {domain : Domain} {outputs : Nat} (h : domain.Planned outputs) :
    0 < domain.tileRank := by
  obtain ⟨_, -, ⟨htile, -⟩ | ⟨htile, -⟩⟩ := h.split <;> omega

/-- An index vector that lies apart from the frame is shorter than the memory. -/
theorem Separates.index_le {site : CallSite} (h : c.Separates site) : 8 * c.callDims.length ≤ 2 ^ 64 := by
  by_contra hlt
  refine h.frame_index _ (Span.covers_add (site.stack - 48) (i := 0) (by decide)) ?_
  rw [Span.covers_iff]
  exact (BitVec.isLt _).trans (Nat.lt_of_not_le hlt)

/-- The displacement by a call's index vector, along those dimensions for which a kernel has
products. -/
theorem along_row {table : OffsetTable} (hproper : c.Proper) (htable : table.Describes c.domain c.flags)
    {p : Nat} (hp : p < c.program.params) {dims : Nat} (hle : dims ≤ c.callDims.length)
    (hrest : c.domain.master.length - c.domain.tileRank ≤ dims) (call : Nat) :
    c.base p + BitVec.ofInt 64
        (Strides.along (table.row p) (Shape.unravel c.callDims call) dims) =
      c.place p (call * c.share) := by
  have hrow : (table.row p).length = (Shape.unravel c.callDims call).length := by
    rw [(leads hproper htable hp).length, Shape.length_unravel, callDims, hproper.planned.length_callShape.1]
  have hlen : (table.row p).length = c.callDims.length := hrow.trans (Shape.length_unravel _ _)
  rw [← Strides.along_eq_of_zero (hlen ▸ hle) fun d hd _ => getD_unravel (by
    rw [callDims, getD_callShape hproper.planned, if_neg (by omega)]) call,
    Strides.along_length hrow, begins_eq hproper htable hp, share, Nat.mul_assoc]

/-! ## Compiled code -/

/-- The data pointers and the rows make up what is between the saves and the restores. -/
theorem walked_of_pieces (hproper : c.Proper) {mode : KernelMode} {site : CallSite}
    {kept : List (Register × Address)} {stage : (k : Nat) → Instruction → Span → Prop} {call : Nat}
    {pointers rows : Code} {s : MachineState} (hpushed : site.Pushed s)
    (hpointers : Triple (Kernel.Computed site stage s.memory True [] fun _ => 0) pointers
      pointers.length fun trace t => Staged stage c.program.params trace ∧ storesOf trace = [] ∧
        (c.setting mode site kept (call * c.share) s.memory).At (call * c.share)
          (c.place · (call * c.share)) [] t)
    (hrows : Triple ((c.setting mode site kept (call * c.share) s.memory).At
        (call * c.share) (c.place · (call * c.share))) rows (rows.length * c.share)
      ((c.setting mode site kept (call * c.share) s.memory).Through ((call + 1) * c.share))) :
    (c.setting mode site kept (call * c.share) s.memory).Walked c.program.params stage
      ((call + 1) * c.share) ((pointers ++ rows).length * c.share) (pointers ++ rows) s := by
  obtain ⟨first, second, t, hruns, hsteps, hrest⟩ := Setting.walked_of_triples hpointers hrows
    (computed_pushed hpushed stage _)
  refine ⟨first, second, t, hruns, hsteps.trans ?_, hrest⟩
  have hle := Nat.le_mul_of_pos_right pointers.length (share_pos hproper)
  rw [List.length_append, Nat.add_mul]
  omega

/-- The steps of a call stay within the bound. -/
theorem steps_le (body : Code) (outer inner : Nat) :
    Kernel.preamble.length + body.length * (outer * inner) + Kernel.postamble.length ≤
      (Kernel.preamble ++ body ++ Kernel.postamble).length * (outer + 1) * (inner + 1) := by
  have hframe : Kernel.preamble.length + Kernel.postamble.length ≤
      (Kernel.preamble.length + Kernel.postamble.length) * ((outer + 1) * (inner + 1)) :=
    Nat.le_mul_of_pos_right _ (Nat.mul_pos (Nat.succ_pos outer) (Nat.succ_pos inner))
  have hbody : body.length * (outer * inner) ≤ body.length * ((outer + 1) * (inner + 1)) :=
    Nat.mul_le_mul_left _ (Nat.mul_le_mul (Nat.le_succ _) (Nat.le_succ _))
  have hsplit : (Kernel.preamble ++ body ++ Kernel.postamble).length * (outer + 1) * (inner + 1) =
      (Kernel.preamble.length + Kernel.postamble.length) * ((outer + 1) * (inner + 1)) +
        body.length * ((outer + 1) * (inner + 1)) := by
    simp only [List.length_append]
    ring
  rw [hsplit]
  omega

/-- What computes a data pointer accesses no numbers. -/
theorem pointer?_of_admitsPointer {mode : KernelMode} {site : CallSite} {dims p : Nat} {i : Instruction}
    {span : Span} (h : site.AdmitsPointer mode c.program dims p i span) : i.pointer? = none := by
  cases i <;> first | rfl | exact h.elim

/-- **A call walks**, from whatever state in which the kernel is called. -/
theorem WalksIn.walked {mode : KernelMode} {body : Code} {block : ArgumentBlock}
    (h : c.WalksIn mode body block) {site : CallSite} (hseparates : c.Separates site) {s : MachineState}
    {call : Nat} (hcalled : site.Called (Shape.unravel c.callDims call) block s)
    (hcall : call < c.callDims.count) :
    ∃ kept, (Register.rsp, site.stack - 48) ∈ kept ∧
      (c.setting mode site kept (call * c.share) (Kernel.saved s)).Walked c.program.params
        (site.AdmitsPointer mode c.program c.callDims.length) ((call + 1) * c.share)
        (body.length * c.share) body (execAll Kernel.preamble s) :=
  h site call _ hseparates hcall hcalled.begins.pushed.1
    (hseparates.provides (Shape.length_unravel c.callDims call) hcalled mode)

/-- **Code that walks through the share of each call computes** if what is written for a position are no
bytes of inputs for other positions.

**Proof sketch.** The saves change no byte but those of the frame, behind which the index vector and the
argument block are found. As a pass leaves the elements alone that the passes behind it need, all of them
find what the inputs held at the beginning, and store the values of the outputs. -/
theorem WalksIn.computesIn {mode : KernelMode} {body : Code} {block : ArgumentBlock}
    (hplace : c.InPlace) (h : c.WalksIn mode body block) :
    c.ComputesIn mode (Kernel.preamble ++ body ++ Kernel.postamble) block := by
  intro site input s call hhosts hcalled hfinds hcall
  obtain ⟨kept, hkept, hwalked⟩ := h.walked hhosts.toSeparates hcalled hcall
  have hstop := share_le hplace.toProper hcall
  have hsaved := hfinds.saved hhosts hcalled.begins hstop
  exact CallSite.performs_of_walked hcalled.begins hkept (fun _ _ h => h)
    (fun _ _ _ => pointer?_of_admitsPointer) (map_start_outputs hplace.toProper input)
    (fun passes htiles hpasses => hplace.process_eq hsaved hstop mode site kept htiles hpasses)
    hwalked (steps_le body c.domain.tiled.outer c.domain.tiled.inner)

/-- A register apart from the pool is free for a scheduler. -/
theorem spare_of_not_mem {gprs : List Nat} {r : Register} (hr : r ∉ c.program.pointers)
    (hgprs : r.val ∉ gprs) {kept : List (Register × Address)} (hkept : ∀ x ∈ kept, x.1 ≠ r)
    (mode : KernelMode) (site : CallSite) (first : Nat) (memory : Memory) :
    (c.setting mode site kept first memory).Spare (c.source kernel gprs .vector)
      (c.source kernel gprs .scalar) r := by
  refine ⟨hr, fun hmem => ?_, hgprs, hgprs⟩
  obtain ⟨x, hx, heq⟩ := List.mem_map.1 hmem
  exact hkept x hx heq

/-- The rows of a call stay within the outputs. -/
theorem rows_le (hproper : c.Proper) {call : Nat} (hcall : call < c.callDims.count) :
    (call * c.domain.tiled.outer + c.domain.tiled.outer) * c.domain.tiled.inner ≤ c.domain.elements := by
  have hle := share_le hproper hcall
  rwa [share, ← Nat.mul_assoc, Nat.succ_mul] at hle

/-- A triple for the rows of a call, by the positions of its share. -/
theorem triple_share {ctx : Setting} {rows : Code} {call : Nat}
    (h : Triple (ctx.At (call * c.domain.tiled.outer * c.domain.tiled.inner)
        (ctx.begins c.domain.tiled.inner (call * c.domain.tiled.outer))) rows
      (rows.length * (c.domain.tiled.outer * c.domain.tiled.inner))
      (ctx.Through ((call * c.domain.tiled.outer + c.domain.tiled.outer) * c.domain.tiled.inner))) :
    Triple (ctx.At (call * c.share) (ctx.place · (call * c.share))) rows (rows.length * c.share)
      (ctx.Through ((call + 1) * c.share)) := by
  have hbegin : call * c.share = call * c.domain.tiled.outer * c.domain.tiled.inner :=
    (Nat.mul_assoc _ _ _).symm
  have hend : (call + 1) * c.share =
      (call * c.domain.tiled.outer + c.domain.tiled.outer) * c.domain.tiled.inner := by
    rw [share, ← Nat.mul_assoc, Nat.succ_mul]
  rw [hbegin, hend]
  exact h

/-! ## Static kernels -/

section Call

variable {table : OffsetTable} {mode : KernelMode} {site : CallSite} {memory : Memory} {call : Nat}
  {block : ArgumentBlock} {code : Code} (hproper : c.Proper)
  (htable : table.Describes c.domain c.flags) (hseparates : c.Separates site)

include hproper htable

/-- **The data pointers of a static kernel** begin where the parameters have their elements for the
first position of a call. -/
theorem triple_staticBegin
    (hprovides : ∀ p, site.Provides (Shape.unravel c.callDims call)
      (block.withPointers c.sources c.targets)
      (site.AdmitsPointer mode c.program c.callDims.length p) memory)
    (hcode : Kernel.staticPointers table c.program.inputs (c.program.pointers.map (·.val)) = .ok code) :
    Triple (Kernel.Computed site (site.AdmitsPointer mode c.program c.callDims.length) memory True []
        fun _ => 0)
      code code.length fun trace s =>
        Staged (site.AdmitsPointer mode c.program c.callDims.length) c.program.params trace ∧
          storesOf trace = [] ∧ (c.setting mode site [(.rsp, site.stack - 48)] (call * c.share)
            memory).At (call * c.share) (c.place · (call * c.share)) [] s := by
  have hindex := Shape.length_unravel c.callDims call
  have hlen : c.callDims.length = c.domain.master.length - 1 := by
    rw [callDims, hproper.planned.length_callShape.1, Domain.rowDims, List.length_dropLast]
  obtain ⟨dims, hdims, -⟩ := Checked.bind_eq_ok.1 hcode
  have hsub := Checked.sub_eq_ok.1 hdims
  rw [htable.master, htable.tileRank] at hsub
  have htile := tileRank_pos hproper.planned
  have hone : ∀ d, table.master[d]? = some 1 → (Shape.unravel c.callDims call).getD d 0 = 0 := by
    intro d hd
    rw [htable.master] at hd
    refine getD_unravel ?_ call
    rw [callDims, getD_callShape hproper.planned, List.getD_eq_getElem?_getD, hd]
    simp
  refine (Kernel.triple_staticPointers hprovides (Kernel.nodup_pointerPool.sublist
    (List.take_sublist _ _)) Kernel.assignable (fun _ _ hr _ hslot => offers_base mode _ hr hslot)
    hdims (by omega) (fun _ _ d hd => by rw [hone d hd, Nat.cast_zero, mul_zero]) hcode _).weaken
      (fun _ _ hs => hs) le_rfl fun _ s hs => ?_
  refine at_of_computed hs (fun p hp => ?_) (by simpa using hs.2.2.stack)
  exact along_row hproper htable hp (by omega) (by omega) call

include hseparates

/-- **The rows of a static kernel.** -/
theorem triple_staticShare (hcall : call < c.callDims.count) {context : Schedule.Context} {gprs : List Nat}
    (hgprs : Register.blockArgument.val ∉ gprs)
    (hfits : context.Fits
      (c.setting mode site [(.rsp, site.stack - 48)] (call * c.share) memory)
      (c.source kernel gprs .vector) (c.source kernel gprs .scalar) .indexArgument)
    (hcode : Schedule.staticCode context Register.blockArgument.val c.domain.tiled c.w.lanes
      table.rowOffsets = .ok code) :
    Triple ((c.setting mode site [(.rsp, site.stack - 48)] (call * c.share) memory).At
        (call * c.share) (c.place · (call * c.share)))
      code (code.length * c.share)
      ((c.setting mode site [(.rsp, site.stack - 48)] (call * c.share) memory).Through
        ((call + 1) * c.share)) := by
  have hkept : ∀ x ∈ [(Register.rsp, site.stack - 48)], x.1 = Register.rsp := by simp
  have hsound : (c.setting mode site [(.rsp, site.stack - 48)] (call * c.share) memory).Sound :=
    sound hproper htable mode hseparates
      (fun x hx => hkept x hx ▸ (Kernel.not_mem_pointers c.program .rsp (by simp)).1) (call * c.share)
      memory
  have hlen : table.rowOffsets.length =
      (c.setting mode site [(.rsp, site.stack - 48)] (call * c.share) memory).pointers.length := by
    rw [htable.rowOffsets, length_params hproper, hsound.length_pointers]
    rfl
  refine triple_share (Setting.triple_staticCode hsound (rows hproper htable) hfits
    (spare_of_not_mem (Kernel.not_mem_pointers c.program .blockArgument (by simp)).2.1 hgprs
      (fun x hx => ?_) _ _ _ _)
    (by decide) (hproper.planned.tiled_pos hproper.pos).1 (rows_le hproper hcall) hlen
    (links hproper htable call) hcode)
  rw [hkept x hx]
  decide

end Call

/-- What a kernel does between the saves and the restores: it computes the data pointers and runs its
scheduler. -/
theorem eq_of_pieces {body pointers rows : Code} (h : Kernel.preamble ++ body ++ Kernel.postamble =
    Kernel.preamble ++ pointers ++ rows ++ Kernel.postamble) : body = pointers ++ rows := by
  rw [List.append_assoc Kernel.preamble pointers] at h
  exact List.append_cancel_left (List.append_cancel_right h)

/-- **Static kernels walk through the share of each call**, with nothing from the argument block but the
addresses of the parameters.

**Proof sketch.** The products that the kernel leaves out belong to dimensions of size one, whose
indices are zero, or to strides that are zero. The rows then begin where the data pointers are, and
the row offsets that are built in link them. -/
theorem walksIn_static {compiler : Compiler} {table : OffsetTable} {body : Code} (hproper : c.Proper)
    (hwidth : compiler.config.isa.vectorWidth = .ok c.w)
    (htable : OffsetTable.ofDomain c.domain = .ok table) (block : ArgumentBlock)
    (hcode : compiler.generate c.program c.domain (.static table) =
      .ok (Kernel.preamble ++ body ++ Kernel.postamble)) :
    c.WalksIn (.static table) body (block.withPointers c.sources c.targets) := by
  intro site call s hseparates hcall hpushed hprovides
  obtain ⟨w, flags, kernel, pointers, rows, hw, hflags, -, hserves, hmode, hschedule, hpointers, hrows,
    hpieces⟩ := Compiler.generate_eq_ok hcode
  obtain rfl := eq_of_pieces hpieces
  obtain rfl : c.w = w := Except.ok.inj (hwidth.symm.trans hw)
  obtain rfl : c.flags = flags := Except.ok.inj (hproper.flags.symm.trans hflags)
  have hfits := hproper.fits
  have hdescribes := OffsetTable.describes_of_ofDomain hproper.planned hproper.pos (by omega)
    hproper.flags htable
  have hpool : kernel.schedulerPool = Kernel.gprPool.drop c.program.params ++
      [Register.indexArgument.val, Register.blockArgument.val] := by
    rw [Kernel.schedulerPool, hmode, hserves.freeGprs]
  have hfree : ∀ r ∈ [Register.rsp, .indexArgument, .blockArgument],
      r.val ∉ Kernel.gprPool.drop c.program.params :=
    fun r hr hmem => (Kernel.not_mem_pointers c.program r hr).2.2 (List.mem_of_mem_drop hmem)
  obtain ⟨context, hcontext, hrows⟩ := exists_context hserves (fun _ => Kernel.not_mem_drop)
    (Kernel.not_mem_pointers c.program .indexArgument (by simp)).2.1 (hfree .indexArgument (by simp)) hpool
    hrows
  rw [hschedule, KernelMode.schedule, ScheduleMode.ofTable] at hrows
  dsimp only at hrows
  rw [hdescribes.tiled] at hrows
  rw [Kernel.pointerCode, hmode, ← Kernel.map_pointers hserves] at hpointers
  refine ⟨_, List.mem_cons_self, walked_of_pieces hproper hpushed
    (triple_staticBegin hproper hdescribes hprovides hpointers)
    (triple_staticShare hproper hdescribes hseparates hcall (hfree .blockArgument (by simp))
      (hcontext _ _ _ _ _ fun x hx => ?_) hrows)⟩
  obtain rfl : x = (Register.rsp, site.stack - 48) := by simpa using hx
  exact ⟨hfree .rsp (by simp), (by decide : Register.rsp ≠ .indexArgument)⟩

/-! ## Dynamic kernels -/

/-- The registers that keep their values during the rows of a dynamic kernel. -/
def dynamicKept (site : CallSite) : List (Register × Address) :=
  [(.rsp, site.stack - 48), (.blockArgument, site.block)]

/-- A stride in the block of a table may be loaded to a scratch register. -/
theorem offers_stride {table : OffsetTable} {site : CallSite} {scratch : Register}
    (hfree : scratch ∉ c.program.pointers) (dims : Nat) {p d : Nat}
    (hp : p < c.program.pointers.length) (hd : d < maxCallDims)
    (hwidth : table.master.length - 1 = maxCallDims) :
    site.Offers ((ArgumentBlock.ofTable table).withPointers c.sources c.targets)
      (site.AdmitsPointer .dynamic c.program dims p) scratch
      (ArgumentBlock.stridesAt + (p * maxCallDims + d) * 8)
      (BitVec.ofInt 64 ((table.row p).getD d 0)) := by
  have hlt := Kernel.lt_strides hp hd
  have hrow : (table.row p).getD d 0 = table.strides.getD (p * maxCallDims + d) 0 := by
    rw [OffsetTable.row, hwidth, List.getD_eq_getElem?_getD, List.getElem?_take_of_lt hd,
      List.getElem?_drop, List.getD_eq_getElem?_getD]
  rw [hrow]
  have hword := ArgumentBlock.wordAt_ofTable_stride table c.sources c.targets hlt
  exact ⟨hword, fun _ => ⟨_, .inr ⟨rfl, hfree, d, hd, rfl⟩, hword.add_le, rfl⟩⟩

/-- A word of the argument block for the rows of a dynamic kernel. -/
theorem argument_dynamic {block : ArgumentBlock} {site : CallSite} {memory : Memory} {offset : Nat}
    {value : Address} (hword : block.WordAt offset value)
    (hread : memory.readWord (site.block + BitVec.ofNat 64 offset) = value)
    (load : MemoryOperand → Instruction)
    (hadmits : ∀ m, c.AdmitsRow .dynamic site (load m) ⟨site.block + BitVec.ofNat 64 offset, 8⟩)
    (first : Nat) :
    (c.setting .dynamic site (dynamicKept site) first memory).Argument load offset value :=
  ⟨site.block, by simp [setting, dynamicKept], hread,
    fun a ha => .inl (within_blockSpan hword site a ha), hadmits⟩

section Call

variable {table : OffsetTable} {site : CallSite} {memory : Memory} {call : Nat} {block : ArgumentBlock}
  {code : Code} {scratch : Register} {gprs : List Nat} (hproper : c.Proper)
  (htable : table.Describes c.domain c.flags) (hseparates : c.Separates site)

include hproper htable

/-- **The data pointers of a dynamic kernel** begin where the parameters have their elements for the
first position of a call. -/
theorem triple_dynamicBegin (hscratch : scratch ∈ Kernel.pointerPool)
    (hfree : scratch ∉ c.program.pointers) (hrank : c.domain.rank = tensorRank)
    (hprovides : ∀ p, site.Provides (Shape.unravel c.callDims call)
      ((ArgumentBlock.ofTable table).withPointers c.sources c.targets)
      (site.AdmitsPointer .dynamic c.program c.callDims.length p) memory)
    (hcode : Kernel.dynamicPointers c.program.inputs (c.program.pointers.map (·.val))
      (gprs ++ [scratch.val]) = .ok code) :
    Triple (Kernel.Computed site (site.AdmitsPointer .dynamic c.program c.callDims.length) memory True []
        fun _ => 0)
      code code.length fun trace s =>
        Staged (site.AdmitsPointer .dynamic c.program c.callDims.length) c.program.params trace ∧
          storesOf trace = [] ∧ (c.setting .dynamic site (dynamicKept site) (call * c.share)
            memory).At (call * c.share) (c.place · (call * c.share)) [] s := by
  have hindex := Shape.length_unravel c.callDims call
  have hwidth : c.domain.master.length - 1 = maxCallDims := by
    rw [Domain.rank] at hrank
    rw [hrank]
    rfl
  have hlen : c.callDims.length = maxCallDims := by
    rw [← hwidth, callDims, hproper.planned.length_callShape.1, Domain.rowDims, List.length_dropLast]
  refine (Kernel.triple_dynamicPointers hprovides (Kernel.nodup_pointerPool.sublist
    (List.take_sublist _ _)) Kernel.assignable
      (fun _ _ hr _ hslot => offers_base .dynamic _ hr hslot)
    (Schedule.takeLast_eq_ok.2 rfl) hfree (Kernel.assignable_pool scratch hscratch)
    (hindex.trans hlen).ge
    (fun _ hk _ hd => offers_stride hfree _ hk hd (htable.master ▸ hwidth)) hcode _).weaken
      (fun _ _ hs => hs) le_rfl fun _ s hs => ?_
  refine at_of_computed hs (fun p hp => ?_) (by
    simpa [dynamicKept] using ⟨hs.2.2.stack, hs.2.2.block trivial⟩)
  have htile := tileRank_pos hproper.planned
  exact along_row hproper htable hp hlen.ge (by omega) call

include hseparates

/-- **The rows of a dynamic kernel.** -/
theorem triple_dynamicShare
    (hblock : ∀ (offset : Nat) (value : BitVec 64),
      ((ArgumentBlock.ofTable table).withPointers c.sources c.targets).WordAt offset value →
        memory.readWord (site.block + BitVec.ofNat 64 offset) = value)
    (hcall : call < c.callDims.count) {context : Schedule.Context} (hfree : scratch ∉ c.program.pointers)
    (hgprs : Register.indexArgument.val ∉ gprs) (hne : scratch ≠ .indexArgument)
    (hfits : context.Fits
      (c.setting .dynamic site (dynamicKept site) (call * c.share) memory)
      (c.source kernel gprs .vector) (c.source kernel gprs .scalar) scratch)
    (hcode : Schedule.dynamicCode context Register.indexArgument.val = .ok code) :
    Triple ((c.setting .dynamic site (dynamicKept site) (call * c.share) memory).At
        (call * c.share) (c.place · (call * c.share)))
      code (code.length * c.share)
      ((c.setting .dynamic site (dynamicKept site) (call * c.share) memory).Through
        ((call + 1) * c.share)) := by
  have hkept : ∀ x ∈ dynamicKept site, x.1 ∈ [Register.rsp, .blockArgument] := by simp [dynamicKept]
  have hpool : ∀ r ∈ [Register.rsp, .blockArgument],
      r ∉ Kernel.pointerPool ∧ r ≠ .indexArgument := by decide
  have hindex := (Kernel.not_mem_pointers c.program .indexArgument (by simp)).2.1
  have hsound : (c.setting .dynamic site (dynamicKept site) (call * c.share) memory).Sound :=
    sound hproper htable .dynamic hseparates (fun x hx => (hpool _ (hkept x hx)).1) (call * c.share) memory
  have houter := ArgumentBlock.wordAt_ofTable_outer table c.sources c.targets
  have hinner := ArgumentBlock.wordAt_ofTable_inner table c.sources c.targets
  rw [htable.tiled] at houter hinner
  refine triple_share (Setting.triple_dynamicCode hsound (rows hproper htable) hfits
    (spare_of_not_mem hindex hgprs (fun x hx => (hpool _ (hkept x hx)).2) _ _ _ _)
    hne (hproper.planned.tiled_pos hproper.pos).1 (rows_le hproper hcall) (links hproper htable call)
    (argument_dynamic houter (hblock _ _ houter) (.loadWord .indexArgument)
      (fun _ => ⟨_, ⟨rfl, hindex, .inl rfl⟩, houter.add_le, rfl⟩) _)
    (argument_dynamic hinner (hblock _ _ hinner) (.loadWord scratch)
      (fun _ => ⟨_, ⟨rfl, hfree, .inr rfl⟩, hinner.add_le, rfl⟩) _)
    (fun p r hr => ?_) hcode)
  obtain ⟨hlt, -⟩ := List.getElem?_eq_some_iff.1 hr
  have hrow := ArgumentBlock.wordAt_ofTable_row table c.sources c.targets (Kernel.lt_maxParams hlt)
  exact argument_dynamic hrow (hblock _ _ hrow) (.addLoad r)
    (fun _ => ⟨_, ⟨rfl, p, hr, rfl⟩, hrow.add_le, rfl⟩) _

end Call

/-- **Dynamic kernels walk through the share of each call** on every domain of rank six whose inputs are
broadcast along the rows like those of the domain they were compiled for.

**Proof sketch.** The argument block holds what a static kernel has built in, and the products along
all five dimensions are added. -/
theorem walksIn_dynamic {compiler : Compiler} {domain : Domain} {table : OffsetTable} {body : Code}
    (hproper : c.Proper) (hwidth : compiler.config.isa.vectorWidth = .ok c.w)
    (hsame : domain.broadcastFlags = .ok c.flags) (hrank : c.domain.rank = tensorRank)
    (htable : OffsetTable.ofDomain c.domain = .ok table)
    (hcode : compiler.generate c.program domain .dynamic =
      .ok (Kernel.preamble ++ body ++ Kernel.postamble)) :
    c.WalksIn .dynamic body ((ArgumentBlock.ofTable table).withPointers c.sources c.targets) := by
  intro site call s hseparates hcall hpushed hprovides
  obtain ⟨w, flags, kernel, pointers, rows, hw, hflags, -, hserves, hmode, hschedule, hpointers, hrows,
    hpieces⟩ := Compiler.generate_eq_ok hcode
  obtain rfl := eq_of_pieces hpieces
  obtain rfl : c.w = w := Except.ok.inj (hwidth.symm.trans hw)
  obtain rfl : c.flags = flags := Except.ok.inj (hsame.symm.trans hflags)
  have hfits := hproper.fits
  have hdescribes := OffsetTable.describes_of_ofDomain hproper.planned hproper.pos (by omega)
    hproper.flags htable
  rw [Kernel.pointerCode, hmode] at hpointers
  obtain ⟨scratch, gprs, hgprs, hscratch, hpointer, hnot, hdrop⟩ := Kernel.exists_scratch hserves hpointers
  rw [hgprs, ← Kernel.map_pointers hserves] at hpointers
  have hpool : kernel.schedulerPool = gprs ++ [scratch.val, Register.indexArgument.val] := by
    rw [Kernel.schedulerPool, hmode, hgprs]
    simp
  have hfree : ∀ r ∈ [Register.rsp, .indexArgument, .blockArgument], r.val ∉ gprs ∧ r ≠ scratch := by
    intro r hr
    obtain ⟨hr₁, -, hr₂⟩ := Kernel.not_mem_pointers c.program r hr
    refine ⟨fun hmem => hr₂ (List.mem_of_mem_drop (hdrop _ hmem)), ?_⟩
    rintro rfl
    exact hr₁ hscratch
  obtain ⟨context, hcontext, hrows⟩ := exists_context hserves
    (fun r hr hmem => Kernel.not_mem_drop hr (hdrop _ hmem)) hpointer hnot hpool hrows
  rw [hschedule] at hrows
  refine ⟨_, List.mem_cons_self, walked_of_pieces hproper hpushed
    (triple_dynamicBegin hproper hdescribes hscratch hpointer hrank hprovides hpointers)
    (triple_dynamicShare hproper hdescribes hseparates (hprovides 0).block hcall hpointer
      (hfree _ (by simp)).1 (hfree .indexArgument (by simp)).2.symm
      (hcontext _ _ _ _ _ fun x hx => hfree x.1 ?_) hrows)⟩
  simp only [dynamicKept, List.mem_cons, List.not_mem_nil, or_false] at hx
  rcases hx with rfl | rfl <;> simp

end Computation

/-! ## Both modes -/

/-- A kernel that was generated for a sample may be called for a domain with an argument block: a static
kernel for the sample itself, whatever the block holds, and a dynamic one for all domains of rank six with
the same inputs broadcast along the rows, the block describing the domain. -/
inductive KernelMode.Covers (sample : Domain) : KernelMode → Domain → ArgumentBlock → Prop
  | static {table : OffsetTable} (htable : OffsetTable.ofDomain sample = .ok table)
      (block : ArgumentBlock) : Covers sample (.static table) sample block
  | dynamic {domain : Domain} {flags : List Bool} {table : OffsetTable}
      (hsample : sample.broadcastFlags = .ok flags) (hflags : domain.broadcastFlags = .ok flags)
      (hrank : domain.rank = tensorRank) (htable : OffsetTable.ofDomain domain = .ok table) :
      Covers sample .dynamic domain (.ofTable table)

/-- **Code that is generated walks through the share of each call** between the saves and the restores,
in both modes. -/
theorem KernelMode.Covers.walksIn {compiler : Compiler} {program : Program} {sample domain : Domain}
    {mode : KernelMode} {code : Code} {block : ArgumentBlock} (h : mode.Covers sample domain block)
    (hcode : compiler.generate program sample mode = .ok code) :
    ∃ w flags body, compiler.config.isa.vectorWidth = .ok w ∧ domain.broadcastFlags = .ok flags ∧
      code = Kernel.preamble ++ body ++ Kernel.postamble ∧
      ∀ sources targets, Computation.Proper ⟨program, domain, flags, w, sources, targets⟩ →
        Computation.WalksIn ⟨program, domain, flags, w, sources, targets⟩ mode body
          (block.withPointers sources targets) := by
  obtain ⟨w, flags, -, pointers, rows, hw, hflags, -, -, -, -, -, -, rfl⟩ := Compiler.generate_eq_ok hcode
  rw [List.append_assoc Kernel.preamble pointers] at hcode ⊢
  cases h with
  | static htable =>
    exact ⟨w, flags, _, hw, hflags, rfl, fun sources targets hproper =>
      Computation.walksIn_static hproper hw htable block hcode⟩
  | @dynamic _ flags _ hsample hflags hrank htable =>
    exact ⟨w, flags, _, hw, hflags, rfl, fun sources targets hproper =>
      Computation.walksIn_dynamic hproper hw hsample hrank htable hcode⟩

/-- **Code that is generated computes**, in both modes, also in place. -/
theorem KernelMode.Covers.computesIn_of_inPlace {compiler : Compiler} {program : Program}
    {sample domain : Domain} {mode : KernelMode} {code : Code} {block : ArgumentBlock}
    (h : mode.Covers sample domain block) (hcode : compiler.generate program sample mode = .ok code) :
    ∃ w flags, compiler.config.isa.vectorWidth = .ok w ∧ domain.broadcastFlags = .ok flags ∧
      ∀ sources targets, Computation.InPlace ⟨program, domain, flags, w, sources, targets⟩ →
        Computation.ComputesIn ⟨program, domain, flags, w, sources, targets⟩ mode code
          (block.withPointers sources targets) := by
  obtain ⟨w, flags, body, hw, hflags, rfl, hwalks⟩ := h.walksIn hcode
  exact ⟨w, flags, hw, hflags, fun sources targets hplace =>
    (hwalks sources targets hplace.toProper).computesIn hplace⟩

/-- In particular it does where inputs are apart from the outputs. -/
theorem KernelMode.Covers.computesIn {compiler : Compiler} {program : Program}
    {sample domain : Domain} {mode : KernelMode} {code : Code} {block : ArgumentBlock}
    (h : mode.Covers sample domain block) (hcode : compiler.generate program sample mode = .ok code) :
    ∃ w flags, compiler.config.isa.vectorWidth = .ok w ∧ domain.broadcastFlags = .ok flags ∧
      ∀ sources targets, Computation.Valid ⟨program, domain, flags, w, sources, targets⟩ →
        Computation.ComputesIn ⟨program, domain, flags, w, sources, targets⟩ mode code
          (block.withPointers sources targets) := by
  obtain ⟨w, flags, hw, hflags, hcomputes⟩ := h.computesIn_of_inPlace hcode
  exact ⟨w, flags, hw, hflags, fun sources targets hvalid => hcomputes sources targets hvalid.inPlace⟩

/-- Code with the argument block of its calls, as it is generated for a domain in one of two modes: for
this domain only, whatever the block holds, or for all domains of rank six with the same inputs broadcast
along the rows, the block describing the domain. -/
inductive Compiler.Generates (compiler : Compiler) (program : Program) (domain : Domain) :
    Code → ArgumentBlock → Prop
  | static {table : OffsetTable} {code : Code} (htable : OffsetTable.ofDomain domain = .ok table)
      (hcode : compiler.generate program domain (.static table) = .ok code) (block : ArgumentBlock) :
      Generates compiler program domain code block
  | dynamic {sample : Domain} {flags : List Bool} {table : OffsetTable} {code : Code}
      (hsample : sample.broadcastFlags = .ok flags) (hflags : domain.broadcastFlags = .ok flags)
      (hrank : domain.rank = tensorRank) (htable : OffsetTable.ofDomain domain = .ok table)
      (hcode : compiler.generate program sample .dynamic = .ok code) :
      Generates compiler program domain code (.ofTable table)

/-- Such code is covered by its mode. -/
theorem Compiler.Generates.covers {compiler : Compiler} {program : Program} {domain : Domain}
    {code : Code} {block : ArgumentBlock} (h : compiler.Generates program domain code block) :
    ∃ sample mode, KernelMode.Covers sample mode domain block ∧
      compiler.generate program sample mode = .ok code := by
  cases h with
  | static htable hcode => exact ⟨_, _, .static htable block, hcode⟩
  | dynamic hsample hflags hrank htable hcode =>
    exact ⟨_, _, .dynamic hsample hflags hrank htable, hcode⟩

/-- Such code computes, also in place. -/
theorem Compiler.Generates.computes_of_inPlace {compiler : Compiler} {program : Program}
    {domain : Domain} {code : Code} {block : ArgumentBlock}
    (h : compiler.Generates program domain code block) :
    ∃ w flags, compiler.config.isa.vectorWidth = .ok w ∧ domain.broadcastFlags = .ok flags ∧
      ∀ sources targets, Computation.InPlace ⟨program, domain, flags, w, sources, targets⟩ →
        Computation.Computes ⟨program, domain, flags, w, sources, targets⟩ code
          (block.withPointers sources targets) := by
  obtain ⟨sample, mode, hcovers, hcode⟩ := h.covers
  obtain ⟨w, flags, hw, hflags, hcomputes⟩ := hcovers.computesIn_of_inPlace hcode
  exact ⟨w, flags, hw, hflags, fun sources targets hplace =>
    (hcomputes sources targets hplace).computes⟩

/-- In particular it does where inputs are apart from the outputs. -/
theorem Compiler.Generates.computes {compiler : Compiler} {program : Program} {domain : Domain}
    {code : Code} {block : ArgumentBlock} (h : compiler.Generates program domain code block) :
    ∃ w flags, compiler.config.isa.vectorWidth = .ok w ∧ domain.broadcastFlags = .ok flags ∧
      ∀ sources targets, Computation.Valid ⟨program, domain, flags, w, sources, targets⟩ →
        Computation.Computes ⟨program, domain, flags, w, sources, targets⟩ code
          (block.withPointers sources targets) := by
  obtain ⟨w, flags, hw, hflags, hcomputes⟩ := h.computes_of_inPlace
  exact ⟨w, flags, hw, hflags, fun sources targets hvalid => hcomputes sources targets hvalid.inPlace⟩

end Pointwise
