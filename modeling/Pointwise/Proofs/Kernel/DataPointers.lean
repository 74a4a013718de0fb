import Mathlib.Algebra.BigOperators.Intervals
import Pointwise.Proofs.Kernel.Call
import Pointwise.Proofs.Kernel.Capacity
import Pointwise.Subgraph.Buffers

/-!
# From the arguments of a call to the data pointers

Between its saves and its rows a kernel turns its two arguments, the addresses of an index vector and of
an argument block, into one pointer for each parameter. On the way it needs a scratch register. A static
kernel takes the last data pointer for that, until it is that one's turn, and then the register of the
argument block, of which nothing more is needed; a dynamic kernel has to go on reading the block and
takes a register that is free. In which order the addresses, the strides and the indices are loaded
decides whether the pointers come out right; that they do holds for all arguments, also for those that no
call passes.

## Main definitions

* `MachineState.Receives` — the two arguments lead to an index vector and an argument block.
* `KernelMode.stride`, `KernelMode.displacement` — the strides of a kernel, and what they make of an index
  vector.
* `Kernel.SetsPointers` — code behind which all data pointers are right.

## Main results

* `Kernel.setsPointers_static`, `Kernel.setsPointers_dynamic` — both ways to compute the pointers.
* `Compiler.generate_sets_pointers` — every kernel that is generated for a planned domain computes them.
-/

set_option autoImplicit false

namespace Pointwise

open Machine

/-- The argument registers hold the addresses of an index vector and of an argument block. -/
structure MachineState.Receives (s : MachineState) (index : List Nat) (block : ArgumentBlock) : Prop where
  index : ∀ (d i : Nat), index[d]? = some i →
    s.memory.readWord (s.words.get .indexArgument + BitVec.ofNat 64 (8 * d)) = BitVec.ofNat 64 i
  block : ∀ (k : Nat) (word : BitVec 64), block.words[k]? = some word →
    s.memory.readWord (s.words.get .blockArgument + BitVec.ofNat 64 (8 * k)) = word

/-! ## Displacements -/

namespace KernelMode

/-- How many entries of the index vector a kernel multiplies. -/
def callDims : KernelMode → Nat
  | .static table => table.master.length - table.tileRank
  | .dynamic => maxCallDims

/-- The stride of a parameter along a dimension: built in, or one of five in the argument block. -/
def stride (mode : KernelMode) (block : ArgumentBlock) (param dim : Nat) : Int :=
  match mode with
  | .static table => (table.row param).getD dim 0
  | .dynamic => block.strides.toList.getD (param * maxCallDims + dim) 0

/-- The sum of the strides of a parameter times the indices. -/
def displacement (mode : KernelMode) (block : ArgumentBlock) (index : List Nat) (param : Nat) : Int :=
  ∑ dim ∈ Finset.range mode.callDims, mode.stride block param dim * (index.getD dim 0 : Nat)

end KernelMode

/-- The displacement along the first dimensions is a sum. -/
theorem Strides.along_eq_sum (strides : List Int) (index : List Nat) (dims : Nat) :
    along strides index dims =
      ∑ dim ∈ Finset.range dims, strides.getD dim 0 * (index.getD dim 0 : Nat) := by
  induction dims with
  | zero => rfl
  | succ dims ih => rw [along, ih, Finset.sum_range_succ]

/-! ## Code that computes the pointers -/

/-- Code that computes the data pointers of a kernel. Wherever it stands, it runs to its end without a
store; then every parameter's pointer is its address in the argument block plus the displacement of the
index vector, modulo `2 ^ 64`, the index vector is where it was, and a dynamic kernel still finds its
argument block. -/
def Kernel.SetsPointers (kernel : Kernel) (program : Program) (setup : Code) : Prop :=
  ∀ (index : List Nat) (block : ArgumentBlock) (s : MachineState),
    kernel.mode.callDims ≤ index.length → s.Receives index block →
      ∃ (trace : Trace) (t : MachineState), Runs setup s trace t ∧ storesOf trace = [] ∧
        t.memory = s.memory ∧ t.words.get .indexArgument = s.words.get .indexArgument ∧
        (kernel.mode = .dynamic → t.words.get .blockArgument = s.words.get .blockArgument) ∧
        ∀ p < program.params, ∃ r : Register, kernel.pointers[p]? = some r.val ∧
          t.words.get r = block.address program.inputs p +
            BitVec.ofInt 64 (kernel.mode.displacement block index p)

namespace Kernel

variable {program : Program} {kernel : Kernel} {flags : List Bool} {w : VectorWidth} {setup : Code}
  {index : List Nat} {block : ArgumentBlock} {s : MachineState}

/-- The call whose arguments a state holds. -/
def siteOf (s : MachineState) : CallSite where
  stack := s.words.get .rsp + 48
  block := s.words.get .blockArgument
  index := s.words.get .indexArgument

/-- What the arguments lead to is provided to a call that may access everything. -/
theorem provides_of_receives (h : s.Receives index block) :
    (siteOf s).Provides index block (fun _ _ => True) s.memory := by
  refine ⟨fun d i hd => ⟨h.index d i hd, fun _ _ => trivial⟩, ?_⟩
  rintro - value ⟨k, rfl, hk⟩
  exact h.block k value hk

/-- A kernel that is called gets its arguments. -/
theorem receives_of_called {site : CallSite} (h : site.Called index block s) : s.Receives index block where
  index d i hd := by rw [h.begins.index, h.words d i hd]
  block k word hk := by rw [h.begins.block, h.arguments (8 * k) word ⟨k, rfl, hk⟩]

/-- No data pointer is computed yet. -/
theorem computed_start (s : MachineState) (pointer : Nat → Address) :
    Computed (siteOf s) (fun _ _ _ => True) s.memory True [] pointer [] s :=
  ⟨staged_zero, rfl, rfl, (BitVec.add_sub_cancel _ _).symm, rfl, fun _ => rfl, by simp, by simp, rfl⟩

/-- What holds of a state in which all pointers are computed. -/
theorem setsPointers_of_computed (hserves : kernel.Serves program flags w)
    (h : ∀ (index : List Nat) (block : ArgumentBlock) (s : MachineState),
      kernel.mode.callDims ≤ index.length → s.Receives index block →
        Triple (Computed (siteOf s) (fun _ _ _ => True) s.memory True [] fun _ => 0) setup setup.length
          (Computed (siteOf s) (fun _ _ _ => True) s.memory (kernel.mode = .dynamic) program.pointers
            fun p => block.address program.inputs p +
              BitVec.ofInt 64 (kernel.mode.displacement block index p))) :
    kernel.SetsPointers program setup := by
  intro index block s hdims hreceives
  obtain ⟨trace, t, hruns, -, -, hsilent, ht⟩ := h index block s hdims hreceives [] s (computed_start s _)
  refine ⟨trace, t, hruns, hsilent, ht.memory, ht.index, ht.block, fun p hp => ?_⟩
  have hlt : p < program.pointers.length := by rwa [program.length_pointers]
  have hget := List.getElem?_eq_getElem hlt
  refine ⟨program.pointers[p], ?_, ht.pointer p _ hget⟩
  rw [hserves.pointers, ← map_pointerPool, ← List.map_take, List.getElem?_map]
  exact congrArg (Option.map (·.val)) hget

/-- The address of a parameter may be loaded from its slot. -/
theorem offers_address {site : CallSite} {p slot : Nat} {r : Register} (hr : program.pointers[p]? = some r)
    (h : ArgumentBlock.pointerSlot p program.inputs = .ok slot) :
    site.Offers block (fun _ _ => True) r slot (block.address program.inputs p) := by
  obtain ⟨hlt, -⟩ := List.getElem?_eq_some_iff.1 hr
  exact ⟨ArgumentBlock.wordAt_slot (lt_maxParams hlt) h, fun _ => trivial⟩

section Planned

variable {domain : Domain} (hserves : kernel.Serves program flags w)
  (hcode : kernel.pointerCode program.inputs = .ok setup)
include hserves hcode

/-- **A static kernel computes its data pointers.** The products that it leaves out are zero, whatever the
index is: along a dimension of size one no parameter has a stride. -/
theorem setsPointers_static {table : OffsetTable} (hmode : kernel.mode = .static table)
    (hplanned : domain.Planned program.outputs.length)
    (hlength : domain.inputShapes.length = program.inputs)
    (htable : OffsetTable.ofDomain domain = .ok table) : kernel.SetsPointers program setup := by
  refine setsPointers_of_computed hserves fun index block s hdims hreceives => ?_
  rw [pointerCode, hmode, ← map_pointers hserves] at hcode
  obtain ⟨dims, hcalls, -⟩ := Checked.bind_eq_ok.1 hcode
  obtain rfl : kernel.mode.callDims = dims := by
    rw [hmode]
    exact (Checked.sub_eq_ok.1 hcalls).2
  have hone : ∀ p < program.pointers.length, ∀ d, table.master[d]? = some 1 →
      (table.row p).getD d 0 * (index.getD d 0 : Nat) = 0 := by
    intro p hp d hd
    rw [program.length_pointers, ← length_params_of_planned hplanned hlength] at hp
    rw [OffsetTable.row_getD_of_one hplanned htable hp hd, zero_mul]
  refine (triple_staticPointers (fun _ => provides_of_receives hreceives)
    (nodup_pointerPool.sublist (List.take_sublist _ _))
    assignable
    (fun _ _ hr _ hslot => offers_address hr hslot) hcalls hdims hone hcode _).weaken
      (fun _ _ hs => hs) le_rfl fun _ _ hs => ?_
  refine ⟨hs.1, hs.2.1, hs.2.2.congr (fun hdynamic => ?_) fun p r hr => ⟨hr, ?_⟩⟩
  · rw [hmode] at hdynamic
    cases hdynamic
  · simp only [KernelMode.displacement, KernelMode.stride, hmode, Strides.along_eq_sum]

/-- **A dynamic kernel computes its data pointers** with the strides of any argument block. -/
theorem setsPointers_dynamic (hmode : kernel.mode = .dynamic) : kernel.SetsPointers program setup := by
  refine setsPointers_of_computed hserves fun index block s hdims hreceives => ?_
  rw [pointerCode, hmode] at hcode
  obtain ⟨scratch, gprs, hfree, hpool, hnotmem, -, -⟩ :=
    exists_scratch hserves hcode
  rw [← map_pointers hserves, hfree] at hcode
  have hget : ∀ p d : Nat, (block.strides.toList.drop (p * maxCallDims)).getD d 0 =
      block.strides.toList.getD (p * maxCallDims + d) 0 := by
    intro p d
    rw [List.getD_eq_getElem?_getD, List.getElem?_drop, List.getD_eq_getElem?_getD]
  have hstride : ∀ p < program.pointers.length, ∀ d < maxCallDims,
      (siteOf s).Offers block (fun _ _ => True) scratch
        (ArgumentBlock.stridesAt + (p * maxCallDims + d) * 8)
        (BitVec.ofInt 64 ((block.strides.toList.drop (p * maxCallDims)).getD d 0)) := by
    intro p hp d hd
    have hlt := lt_strides hp hd
    refine ⟨?_, fun _ => trivial⟩
    rw [hget]
    have hword : block.WordAt (ArgumentBlock.stridesAt + (p * maxCallDims + d) * 8)
        (BitVec.ofInt 64 block.strides[p * maxCallDims + d]) := ArgumentBlock.wordAt_stride hlt
    simpa [hlt] using hword
  rw [hmode] at hdims
  refine (triple_dynamicPointers (fun _ => provides_of_receives hreceives)
    (nodup_pointerPool.sublist (List.take_sublist _ _)) assignable
    (fun _ _ hr _ hslot => offers_address hr hslot) (Schedule.takeLast_eq_ok.2 rfl) hnotmem
    (assignable_pool scratch hpool) hdims hstride hcode _).weaken (fun _ _ hs => hs) le_rfl fun _ _ hs => ?_
  refine ⟨hs.1, hs.2.1, hs.2.2.congr (fun _ => trivial) fun p r hr => ⟨hr, ?_⟩⟩
  simp only [KernelMode.displacement, KernelMode.stride, KernelMode.callDims, hmode,
    Strides.along_eq_sum, hget]

end Planned

end Kernel

/-! ## Generated kernels -/

/-- **Generated kernels set all data pointers.** For a planned domain, with or without elements, a kernel
of either mode has between its saves and its rows code that computes the pointer of every parameter from
any index vector and any argument block: in a static kernel with the strides of the domain's table along
the dimensions that are left to the calls, in a dynamic one with five strides from the block.

**Proof sketch.** Parameter by parameter: the address is loaded, and each product is added by way of the
scratch register, which holds no pointer that is computed already and none of the registers that are
still needed. Products that a static kernel leaves out are zero. -/
theorem Compiler.generate_sets_pointers {compiler : Compiler} {program : Program} {shapes : List Shape}
    {domain : Domain} {mode : KernelMode} {code : Code}
    (hplan : compiler.plan program shapes = .ok domain)
    (htable : ∀ table, mode = .static table → OffsetTable.ofDomain domain = .ok table)
    (hcode : compiler.generate program domain mode = .ok code) :
    ∃ w region kernel setup rows, compiler.config.isa.vectorWidth = .ok w ∧
      schedulerRegion program domain w mode = .ok region ∧ Kernel.ofRegion mode region = .ok kernel ∧
      kernel.mode = mode ∧ kernel.pointers.length = program.params ∧
      kernel.pointerCode program.inputs = .ok setup ∧
      code = Kernel.preamble ++ setup ++ rows ++ Kernel.postamble ∧
      kernel.SetsPointers program setup := by
  obtain ⟨hshapes, hplan⟩ := Checked.require_bind_eq_ok.1 hplan
  obtain ⟨hplanned, hlength⟩ := Optimizer.planned_of_plan hplan
  obtain ⟨w, hw, hcode⟩ := Checked.bind_eq_ok.1 hcode
  obtain ⟨region, hregion, hcode⟩ := Checked.bind_eq_ok.1 hcode
  obtain ⟨kernel, hkernel, hcode⟩ := Checked.bind_eq_ok.1 hcode
  obtain ⟨flags, dims, long, short, hmade⟩ := madeFor_of_ofRegion hregion hkernel
  obtain ⟨setup, rows, hsetup, -, rfl⟩ := Kernel.code_eq_ok hcode
  refine ⟨w, region, kernel, setup, rows, hw, hregion, hkernel, hmade.mode_eq, hmade.length_pointers,
    hsetup, rfl, ?_⟩
  cases mode with
  | static table =>
    exact Kernel.setsPointers_static hmade.serves hsetup hmade.mode_eq hplanned (hlength.trans hshapes)
      (htable table rfl)
  | dynamic => exact Kernel.setsPointers_dynamic hmade.serves hsetup hmade.mode_eq

/-- Both kernels of a program of two inputs, for two rows of nine, called with an index vector that is not
zero along the dimensions of size one either, whatever is found in the registers. -/
theorem Compiler.generate_sets_pointers_of_rows :
    ∃ domain table, Compiler.sample.plan .shiftedProduct [[2, 9], [9]] = .ok domain ∧
      OffsetTable.ofDomain domain = .ok table ∧
      ∀ mode ∈ [KernelMode.static table, .dynamic], ∀ found : Core, ∃ (code : Code) (kernel : Kernel)
          (setup : Code) (trace : Trace) (t : MachineState),
        Compiler.sample.generate .shiftedProduct domain mode = .ok code ∧
        kernel.mode = mode ∧ kernel.pointerCode 2 = .ok setup ∧
        Runs setup (Buffers.callSite.start found (Memory.empty.writeWords Buffers.callSite.block
          ArgumentBlock.empty.words) [3, 5, 1, 7, 2]) trace t ∧
        ∀ p < 3, ∃ r : Register, kernel.pointers[p]? = some r.val ∧
          t.words.get r = ArgumentBlock.empty.address 2 p +
            BitVec.ofInt 64 (mode.displacement .empty [3, 5, 1, 7, 2] p) := by
  have hall : (do
      let domain ← Compiler.sample.plan .shiftedProduct [[2, 9], [9]]
      let table ← OffsetTable.ofDomain domain
      let _ ← Compiler.sample.generate .shiftedProduct domain (.static table)
      let _ ← Compiler.sample.generate .shiftedProduct domain .dynamic
      return (table.master.length, table.tileRank)).toOption = some (6, 1) := by
    decide +kernel
  rw [Checked.toOption_eq_some] at hall
  obtain ⟨domain, hplan, hall⟩ := Checked.bind_eq_ok.1 hall
  obtain ⟨table, htable, hall⟩ := Checked.bind_eq_ok.1 hall
  obtain ⟨static, hstatic, hall⟩ := Checked.bind_eq_ok.1 hall
  obtain ⟨dynamic, hdynamic, hdims⟩ := Checked.bind_eq_ok.1 hall
  obtain ⟨hrank, htile⟩ := Prod.mk.inj (Checked.pure_eq_ok.1 hdims)
  refine ⟨domain, table, hplan, htable, fun mode hmode found => ?_⟩
  have hmodes : mode = .static table ∨ mode = .dynamic := by simpa using hmode
  have hlengths : mode.callDims ≤ [3, 5, 1, 7, 2].length := by
    rcases hmodes with rfl | rfl
    · simp [KernelMode.callDims, hrank, htile]
    · decide
  obtain ⟨code, hcode⟩ : ∃ code, Compiler.sample.generate .shiftedProduct domain mode = .ok code := by
    rcases hmodes with rfl | rfl
    · exact ⟨static, hstatic⟩
    · exact ⟨dynamic, hdynamic⟩
  have htables : ∀ table', mode = .static table' → OffsetTable.ofDomain domain = .ok table' := by
    intro table' heq
    rcases hmodes with rfl | rfl
    · obtain rfl := KernelMode.static.inj heq
      exact htable
    · cases heq
  obtain ⟨w, region, kernel, setup, rows, -, -, -, hkernel, -, hsetup, -, hsets⟩ :=
    generate_sets_pointers hplan htables hcode
  have hcalled : Buffers.callSite.Called [3, 5, 1, 7, 2] .empty (Buffers.callSite.start found
      (Memory.empty.writeWords Buffers.callSite.block ArgumentBlock.empty.words) [3, 5, 1, 7, 2]) :=
    Computation.called_start found (by decide) (Span.Before.disjoint (.inr (by decide)))
      fun _ _ hword => hword.readWord .empty Buffers.callSite.block
  obtain ⟨trace, t, hruns, -, -, -, -, hpointers⟩ := hsets [3, 5, 1, 7, 2] .empty _ (hkernel ▸ hlengths)
    (Kernel.receives_of_called hcalled)
  exact ⟨code, kernel, setup, trace, t, hcode, hkernel, hsetup, hruns, hkernel ▸ hpointers⟩

end Pointwise
