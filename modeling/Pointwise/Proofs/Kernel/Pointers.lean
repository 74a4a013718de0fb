import Pointwise.Proofs.Kernel.Allocation
import Pointwise.Proofs.Offset.Block
import Pointwise.Proofs.Region.Course.Basic
import Pointwise.Proofs.Region.Setting

/-!
# The data pointers of a kernel call

A kernel call begins by computing where each parameter has its first element for the call: the
address of the parameter plus, for every dimension that is left to the calls, the product of the
index and the stride. The products that a static kernel leaves out are zero.

## Main definitions

* `CallSite.Provides` — a memory that holds the index vector and the argument block of a call.
* `Kernel.Preparing` — the state of a call while the data pointers are computed.
* `Kernel.Computed` — the same, with a stage for each of them.
* `Kernel.Adds` — code that adds the product of a stride and an index to a data pointer.
* `Strides.along` — the displacement along the first dimensions.

## Main results

* `Kernel.triple_staticPointers`, `Kernel.triple_dynamicPointers` — the data pointers are computed.
-/

set_option autoImplicit false

namespace Pointwise

open Machine

/-! ## Displacements along the first dimensions -/

namespace Strides

/-- The displacement along the first dimensions. -/
def along (strides : List Int) (index : List Nat) : (dims : Nat) → Int
  | 0 => 0
  | dims + 1 => along strides index dims + strides.getD dims 0 * (index.getD dims 0 : Nat)

theorem along_cons (stride : Int) (strides : List Int) (i : Nat) (index : List Nat) (dims : Nat) :
    along (stride :: strides) (i :: index) (dims + 1) = stride * i + along strides index dims := by
  induction dims with
  | zero => simp [along]
  | succ dims ih =>
    rw [along, ih, along, List.getD_cons_succ, List.getD_cons_succ, add_assoc]

/-- Along all dimensions this is the whole displacement. -/
theorem along_length {strides : List Int} {index : List Nat} (h : strides.length = index.length) :
    along strides index strides.length = displacement strides index := by
  induction strides generalizing index with
  | nil => rfl
  | cons stride strides ih =>
    cases index with
    | nil => simp at h
    | cons i index =>
      rw [List.length_cons, along_cons, displacement_cons, ih (by simpa using h)]

/-- Dimensions with index zero do not count. -/
theorem along_eq_of_zero {strides : List Int} {index : List Nat} {dims dims' : Nat}
    (hle : dims ≤ dims') (h : ∀ d, dims ≤ d → d < dims' → index.getD d 0 = 0) :
    along strides index dims' = along strides index dims := by
  induction dims' with
  | zero =>
    obtain rfl : dims = 0 := by omega
    rfl
  | succ n ih =>
    rcases Nat.eq_or_lt_of_le hle with rfl | hlt
    · rfl
    · rw [along, h n (by omega) (by omega), ih (by omega) fun d hd hd' => h d hd (by omega)]
      simp

end Strides

/-! ## What a call finds in memory -/

/-- A memory that holds the index vector of a call, which it may multiply by, and the argument
block. -/
structure CallSite.Provides (site : CallSite) (index : List Nat) (block : ArgumentBlock)
    (admits : Instruction → Span → Prop) (memory : Memory) : Prop where
  index : ∀ (d i : Nat), index[d]? = some i →
    memory.readWord (site.index + BitVec.ofNat 64 (8 * d)) = BitVec.ofNat 64 i ∧
      ∀ (r : Register) (m : MemoryOperand),
        admits (.mulLoad r m) ⟨site.index + BitVec.ofNat 64 (8 * d), 8⟩
  block : ∀ (offset : Nat) (value : BitVec 64), block.WordAt offset value →
    memory.readWord (site.block + BitVec.ofNat 64 offset) = value

/-- The argument block has a word that may be loaded to a register. -/
def CallSite.Offers (site : CallSite) (block : ArgumentBlock) (admits : Instruction → Span → Prop)
    (r : Register) (offset : Nat) (value : BitVec 64) : Prop :=
  block.WordAt offset value ∧ ∀ m, admits (.loadWord r m) ⟨site.block + BitVec.ofNat 64 offset, 8⟩

namespace Kernel

/-- The state of a call while the data pointers are computed. Of the registers with which the call
began, that of the argument block is only needed for a while. -/
structure Preparing (site : CallSite) (admits : Instruction → Span → Prop) (memory : Memory)
    (needed : Prop) (pointers : List Register) (pointer : Nat → Address) (trace : Trace)
    (s : MachineState) : Prop where
  memory : s.memory = memory
  stack : s.words.get .rsp = site.stack - 48
  index : s.words.get .indexArgument = site.index
  block : needed → s.words.get .blockArgument = site.block
  pointer : ∀ (p : Nat) (r : Register), pointers[p]? = some r → s.words.get r = pointer p
  accesses : Respects admits trace
  stores : storesOf trace = []

/-- A register that may hold a data pointer. -/
def Assignable (r : Register) : Prop := r ≠ .rsp ∧ r ≠ .indexArgument ∧ r ≠ .blockArgument

variable {site : CallSite} {admits : Instruction → Span → Prop} {memory : Memory}
  {needed needed' : Prop}
  {pointers pointers' : List Register} {pointer pointer' : Nat → Address} {trace trace' : Trace}
  {s t : MachineState} {index : List Nat} {block : ArgumentBlock}

/-- Instructions that do not store. -/
theorem Preparing.step (h : Preparing site admits memory needed pointers pointer trace s)
    (hmemory : t.memory = s.memory)
    (hwords : t.words.get .rsp = s.words.get .rsp ∧
      t.words.get .indexArgument = s.words.get .indexArgument)
    (hblock : needed' → needed ∧ t.words.get .blockArgument = s.words.get .blockArgument)
    (hpointer : ∀ (p : Nat) (r : Register), pointers'[p]? = some r → t.words.get r = pointer' p)
    (haccesses : Respects admits trace') (hstores : storesOf trace' = []) :
    Preparing site admits memory needed' pointers' pointer' (trace ++ trace') t where
  memory := hmemory.trans h.memory
  stack := hwords.1.trans h.stack
  index := hwords.2.trans h.index
  block hneeded := (hblock hneeded).2.trans (h.block (hblock hneeded).1)
  pointer := hpointer
  accesses := respects_append.2 ⟨h.accesses, haccesses⟩
  stores := by rw [storesOf_append, h.stores, hstores, List.append_nil]

/-- Fewer pointers, and no more need of the argument block. -/
theorem Preparing.congr (h : Preparing site admits memory needed pointers pointer trace s)
    (hneeded : needed' → needed)
    (hpointer : ∀ (p : Nat) (r : Register), pointers'[p]? = some r →
      pointers[p]? = some r ∧ pointer p = pointer' p) :
    Preparing site admits memory needed' pointers' pointer' trace s :=
  { h with
    block := fun hn => h.block (hneeded hn)
    pointer := fun p r hr => (h.pointer p r (hpointer p r hr).1).trans (hpointer p r hr).2 }

/-! ## Products of strides and indices -/

/-- The entry of the index vector that an operand names. -/
theorem address_indexEntry (s : MachineState) (d : Nat) :
    s.address (indexEntry d) = s.words.get .indexArgument + BitVec.ofNat 64 (8 * d) := by
  have hoffset : ((d : Int) * 8) = ((8 * d : Nat) : Int) := by
    push_cast
    ring
  rw [MachineState.address, indexEntry, hoffset, BitVec.ofInt_natCast]

/-- The registers behind an added product. -/
theorem exec_addProduct {r scratch : Register} (hne : r ≠ scratch) {setStride : Instruction}
    {entry : MemoryOperand} {stride value : BitVec 64}
    (hset : setStride.exec s = s.setWord scratch stride)
    (hload : (s.setWord scratch stride).load entry = value) :
    execAll (addProduct r scratch setStride entry) s =
      ((s.setWord scratch stride).setSum scratch (stride * value)).setSum r
        (s.words.get r + stride * value) := by
  have hmul : Instruction.exec (.mulLoad scratch entry) (s.setWord scratch stride) =
      (s.setWord scratch stride).setSum scratch (stride * value) := by
    have hscratch : (s.setWord scratch stride).words.get scratch = stride :=
      RegisterFile.get_set_self _ _ _
    rw [Instruction.exec, hload, hscratch]
  rw [addProduct, execAll, List.foldl_cons, hset, List.foldl_cons, hmul, List.foldl_cons,
    List.foldl_nil]
  simp only [Instruction.exec, MachineState.setWord, MachineState.setSum, RegisterFile.get_set_self,
    RegisterFile.get_set_of_ne hne.symm]

/-- Code that adds the product of the stride and the index of a dimension to a data pointer. -/
def Adds (site : CallSite) (index : List Nat) (admits : Instruction → Span → Prop) (memory : Memory)
    (needed : Prop) (pointers : List Register) (k : Nat) (strides : List Int) (d : Nat)
    (code : Code) : Prop :=
  ∀ pointer, Triple (Preparing site admits memory needed pointers pointer) code code.length
    (Preparing site admits memory needed pointers (Function.update pointer k
      (pointer k + BitVec.ofInt 64 (strides.getD d 0 * (index.getD d 0 : Nat)))))

/-- A product that is zero needs no code. -/
theorem adds_nil {k d : Nat} {strides : List Int}
    (hzero : strides.getD d 0 * (index.getD d 0 : Nat) = 0) :
    Adds site index admits memory needed pointers k strides d [] := by
  intro pointer
  have hword : BitVec.ofInt 64 0 = 0 := rfl
  rw [hzero, hword, BitVec.ofNat_eq_ofNat, BitVec.add_zero, Function.update_eq_self]
  exact Triple.nil _

section Product

variable (hprovides : site.Provides index block admits memory) (hnodup : pointers.Nodup)
  {k : Nat} {r scratch : Register} (hk : pointers[k]? = some r) (hr : Assignable r)
  (hscratch : scratch ∉ pointers) (hstack : scratch ≠ .rsp) (hindex : scratch ≠ .indexArgument)
  (hblock : needed → scratch ≠ .blockArgument)

include hprovides hnodup hk hr hscratch hstack hindex hblock

/-- **A product is added to a pointer**, whatever sets the scratch register to the stride. -/
theorem adds_product {setStride : Instruction} {strides : List Int} {d : Nat}
    (hplain : setStride.Plain)
    (hset : ∀ pointer trace s, Preparing site admits memory needed pointers pointer trace s →
      setStride.exec s = s.setWord scratch (BitVec.ofInt 64 (strides.getD d 0)) ∧
      (∀ span ∈ setStride.loads s, admits setStride span) ∧ setStride.stores s = [])
    (hd : d < index.length) :
    Adds site index admits memory needed pointers k strides d
      (addProduct r scratch setStride (indexEntry d)) := by
  intro pointer
  have hne : r ≠ scratch := by
    rintro rfl
    exact hscratch (List.mem_of_getElem? hk)
  have hall : ∀ i ∈ addProduct r scratch setStride (indexEntry d), i.Plain := by
    intro i hi
    simp only [addProduct, List.mem_cons, List.not_mem_nil, or_false] at hi
    rcases hi with rfl | rfl | rfl
    · exact hplain
    · trivial
    · trivial
  refine Triple.plain hall fun trace s hs => ?_
  obtain ⟨hexec, hloads, hstores⟩ := hset pointer trace s hs
  rw [BitVec.ofInt_mul, BitVec.ofInt_natCast]
  generalize BitVec.ofInt 64 (strides.getD d 0) = stride at hexec ⊢
  have hd' : index[d]? = some (index.getD d 0) := by
    rw [List.getD_eq_getElem?_getD, List.getElem?_eq_getElem hd, Option.getD_some]
  obtain ⟨hword, hadmits⟩ := hprovides.index d _ hd'
  generalize index.getD d 0 = i at hword ⊢
  have haddress : (s.setWord scratch stride).address (indexEntry d) =
      site.index + BitVec.ofNat 64 (8 * d) := by
    rw [address_indexEntry, MachineState.setWord, RegisterFile.get_set_of_ne hindex, hs.index]
  have hload : (s.setWord scratch stride).load (indexEntry d) = BitVec.ofNat 64 i := by
    rw [MachineState.load, haddress, ← hword, ← hs.memory]
    rfl
  have hafter := exec_addProduct hne hexec hload
  have hother : ∀ q, r ≠ q → scratch ≠ q →
      (execAll (addProduct r scratch setStride (indexEntry d)) s).words.get q = s.words.get q := by
    intro q hq hq'
    rw [hafter, MachineState.setSum, RegisterFile.get_set_of_ne hq, MachineState.setSum,
      RegisterFile.get_set_of_ne hq', MachineState.setWord, RegisterFile.get_set_of_ne hq']
  refine hs.step (by rw [hafter]; rfl) ⟨hother _ hr.1 hstack, hother _ hr.2.1 hindex⟩
    (fun hneeded => ⟨hneeded, hother _ hr.2.2 (hblock hneeded)⟩) (fun p q hq => ?_) ?_ ?_
  · by_cases hpk : p = k
    · subst hpk
      obtain rfl : r = q := Option.some.inj (hk.symm.trans hq)
      rw [hafter, MachineState.setSum, RegisterFile.get_set_self, Function.update_self,
        hs.pointer p r hk]
    · have hrq : r ≠ q := by
        rintro rfl
        obtain ⟨hp, hget⟩ := List.getElem?_eq_some_iff.1 hq
        obtain ⟨hk', hget'⟩ := List.getElem?_eq_some_iff.1 hk
        exact hpk ((List.Nodup.getElem_inj_iff hnodup).1 (hget.trans hget'.symm))
      have hsq : scratch ≠ q := by
        rintro rfl
        exact hscratch (List.mem_of_getElem? hq)
      rw [hother q hrq hsq, Function.update_of_ne hpk, hs.pointer p q hq]
  · rw [addProduct, traceAll, hexec, traceAll, traceAll, traceAll]
    simp only [respects_cons, respects_nil, hstores, List.append_nil, and_true]
    refine ⟨hloads, ?_, by simp [Instruction.loads, Instruction.stores]⟩
    simpa [Instruction.loads, Instruction.stores, haddress] using hadmits scratch (indexEntry d)
  · rw [addProduct, traceAll, storesOf_cons, hstores]
    rfl

/-- **The product of a static kernel.** It is left out if it is zero in any case: along a dimension of
one element, or with a stride of zero. -/
theorem adds_static {table : OffsetTable} {strides : List Int} {d : Nat} (hd : d < index.length)
    (hone : table.master[d]? = some 1 → strides.getD d 0 * (index.getD d 0 : Nat) = 0) {code : Code}
    (hcode : addStaticProduct table strides r scratch d = .ok code) :
    Adds site index admits memory needed pointers k strides d code := by
  obtain ⟨m, hm, hcode⟩ := Checked.bind_eq_ok.1 hcode
  rw [Checked.get_eq_ok] at hm
  split at hcode
  · rename_i hm1
    obtain rfl := Checked.pure_eq_ok.1 hcode
    exact adds_nil (hone (hm1 ▸ hm))
  · obtain ⟨stride, hstride, hcode⟩ := Checked.bind_eq_ok.1 hcode
    rw [Checked.get_eq_ok] at hstride
    have hvalue : strides.getD d 0 = stride := by
      rw [List.getD_eq_getElem?_getD, hstride, Option.getD_some]
    split at hcode
    · rename_i hzero
      obtain rfl := Checked.pure_eq_ok.1 hcode
      exact adds_nil (by rw [hvalue, hzero, zero_mul])
    · obtain rfl := Checked.pure_eq_ok.1 hcode
      exact adds_product hprovides hnodup hk hr hscratch hstack hindex hblock trivial
        (fun _ _ _ _ => ⟨by rw [hvalue]; rfl, by simp [Instruction.loads], rfl⟩) hd

/-- **The product of a dynamic kernel**, whose stride is loaded from the argument block. -/
theorem adds_dynamic (hneeded : needed) {strides : List Int} {d : Nat} (hd : d < index.length)
    (hstride : site.Offers block admits scratch
      (ArgumentBlock.stridesAt + (k * maxCallDims + d) * 8) (BitVec.ofInt 64 (strides.getD d 0)))
    {code : Code} (hcode : addDynamicProduct k r scratch d = .ok code) :
    Adds site index admits memory needed pointers k strides d code := by
  obtain ⟨m, hm, hcode⟩ := Checked.bind_eq_ok.1 hcode
  obtain rfl := Checked.pure_eq_ok.1 hcode
  obtain ⟨hwordAt, hadmits⟩ := hstride
  have hword := hprovides.block _ _ hwordAt
  refine adds_product hprovides hnodup hk hr hscratch hstack hindex hblock trivial
    (fun pointer trace s hs => ?_) hd
  have haddress : s.address m = site.block +
      BitVec.ofNat 64 (ArgumentBlock.stridesAt + (k * maxCallDims + d) * 8) := by
    rw [MachineState.address_behind hm, hs.block hneeded]
  refine ⟨?_, ?_, rfl⟩
  · rw [Instruction.exec, MachineState.load, haddress, hs.memory, hword]
  · simpa [Instruction.loads, haddress] using hadmits m

end Product

/-- **The products of the first dimensions**, one after the other. -/
theorem triple_products {k : Nat} {strides : List Int} {codes : List Code}
    (h : ∀ (d : Nat) (hd : d < codes.length),
      Adds site index admits memory needed pointers k strides d codes[d])
    (pointer : Nat → Address) :
    Triple (Preparing site admits memory needed pointers pointer) codes.flatten codes.flatten.length
      (Preparing site admits memory needed pointers (Function.update pointer k
        (pointer k + BitVec.ofInt 64 (Strides.along strides index codes.length)))) := by
  have hall := Triple.flatten (fun d => Preparing site admits memory needed pointers
    (Function.update pointer k (pointer k + BitVec.ofInt 64 (Strides.along strides index d))))
    fun d hd => by
      have hpiece := h d hd (Function.update pointer k
        (pointer k + BitVec.ofInt 64 (Strides.along strides index d)))
      rwa [Function.update_idem, Function.update_self, BitVec.add_assoc, ← BitVec.ofInt_add] at hpiece
  have hzero : BitVec.ofInt 64 (Strides.along strides index 0) = 0 := rfl
  rwa [hzero, BitVec.ofNat_eq_ofNat, BitVec.add_zero, Function.update_eq_self] at hall

/-! ## One parameter -/

section Parameter

variable {all : List Register} (hprovides : site.Provides index block admits memory)
  (hnodup : all.Nodup) (hassignable : ∀ r ∈ all, Assignable r) {k : Nat} {r : Register}
  (hk : all[k]? = some r)

/-- A register is not among those in front of it. -/
theorem not_mem_take (hnodup : all.Nodup) (hk : all[k]? = some r) {n : Nat} (hle : n ≤ k) :
    r ∉ all.take n := by
  intro hmem
  obtain ⟨i, hi, heq⟩ := List.getElem_of_mem hmem
  obtain ⟨hlt, hget⟩ := List.getElem?_eq_some_iff.1 hk
  rw [List.getElem_take] at heq
  rw [List.length_take] at hi
  have := (List.Nodup.getElem_inj_iff hnodup).1 (heq.trans hget.symm)
  omega

/-- The scratch register for a parameter of a static kernel: the last data pointer, as long as it has
not got its value, and then the register of the argument block. -/
theorem staticScratch_spec (hnodup : all.Nodup) (hassignable : ∀ r ∈ all, Assignable r)
    {k : Nat} {scratch : Register}
    (h : (if k + 1 < (all.map (·.val)).length then (all.map (·.val)).getLastD 0
      else Register.blockArgument.val) = scratch.val) :
    scratch ∉ all.take (k + 1) ∧ scratch ≠ .rsp ∧ scratch ≠ .indexArgument ∧
      (k + 1 < all.length → scratch ≠ .blockArgument) := by
  rw [List.length_map] at h
  split at h
  · rename_i hlt
    have hlast : all[all.length - 1]? = some scratch := by
      rw [List.getLastD_eq_getLast?, List.getLast?_map, List.getLast?_eq_getElem?] at h
      rw [List.getElem?_eq_getElem (by omega)] at h ⊢
      exact congrArg some (Fin.ext h)
    have hassign := hassignable scratch (List.mem_of_getElem? hlast)
    exact ⟨not_mem_take hnodup hlast (by omega), hassign.1, hassign.2.1, fun _ => hassign.2.2⟩
  · rename_i hge
    obtain rfl : Register.blockArgument = scratch := Fin.ext h
    refine ⟨fun hmem => ?_, by decide, by decide, fun hlt => absurd hlt hge⟩
    exact (hassignable _ (List.mem_of_mem_take hmem)).2.2 rfl

include hprovides hnodup hassignable hk

/-- **The address of a parameter** is loaded from the argument block. -/
theorem triple_loadPointer {inputs : Nat} {base : Address}
    (hbase : ∀ slot, ArgumentBlock.pointerSlot k inputs = .ok slot →
      site.Offers block admits r slot base)
    {code : Code} (hcode : loadPointer r k inputs = .ok code) (pointer : Nat → Address) :
    Triple (Preparing site admits memory True (all.take k) pointer) code code.length
      (Preparing site admits memory True (all.take (k + 1)) (Function.update pointer k base)) := by
  obtain ⟨slot, hslot, hcode⟩ := Checked.bind_eq_ok.1 hcode
  obtain ⟨m, hm, hcode⟩ := Checked.bind_eq_ok.1 hcode
  rw [Checked.pure_eq_ok] at hcode
  subst hcode
  obtain ⟨hwordAt, hadmits⟩ := hbase slot hslot
  have hword := hprovides.block slot base hwordAt
  have hr := hassignable r (List.mem_of_getElem? hk)
  refine Triple.single trivial fun trace s hs => ?_
  have haddress : s.address m = site.block + BitVec.ofNat 64 slot := by
    rw [MachineState.address_behind hm, hs.block trivial]
  have hother : ∀ q, r ≠ q → (Instruction.exec (.loadWord r m) s).words.get q = s.words.get q :=
    fun q hq => RegisterFile.get_set_of_ne hq
  refine hs.step rfl ⟨hother _ hr.1, hother _ hr.2.1⟩ (fun _ => ⟨trivial, hother _ hr.2.2⟩)
    (fun p q hq => ?_) ?_ (by simp [Instruction.stores])
  · rw [List.getElem?_take] at hq
    split at hq
    · rename_i hlt
      by_cases hpk : p = k
      · subst hpk
        obtain rfl : r = q := Option.some.inj (hk.symm.trans hq)
        rw [Function.update_self, Instruction.exec, MachineState.setWord, RegisterFile.get_set_self,
          MachineState.load, haddress, hs.memory, hword]
      · have hq' : (all.take k)[p]? = some q := by rw [List.getElem?_take_of_lt (by omega), hq]
        have hne : r ≠ q := by
          rintro rfl
          exact not_mem_take hnodup hk le_rfl (List.mem_of_getElem? hq')
        rw [Function.update_of_ne hpk, hother q hne, hs.pointer p q hq']
    · simp at hq
  · simpa [Instruction.loads, Instruction.stores, haddress] using hadmits m

/-- **The data pointer of a parameter in a static kernel.** The products that are left out are
zero. -/
theorem triple_staticPointer {table : OffsetTable} {inputs dims : Nat} {base : Address}
    (hbase : ∀ slot, ArgumentBlock.pointerSlot k inputs = .ok slot →
      site.Offers block admits r slot base)
    (hdims : dims ≤ index.length)
    (hone : ∀ d, table.master[d]? = some 1 → (table.row k).getD d 0 * (index.getD d 0 : Nat) = 0)
    {code : Code} (hcode : staticPointer table inputs dims (all.map (·.val)) k r.val = .ok code)
    (pointer : Nat → Address) :
    Triple (Preparing site admits memory True (all.take k) pointer) code code.length
      (Preparing site admits memory (k + 1 < all.length) (all.take (k + 1))
        (Function.update pointer k
          (base + BitVec.ofInt 64 (Strides.along (table.row k) index dims)))) := by
  obtain ⟨r', hr', hcode⟩ := Checked.bind_eq_ok.1 hcode
  obtain rfl : r = r' := Fin.ext (RegisterClass.pick_eq_ok.1 hr')
  obtain ⟨scratch, hscratch, hcode⟩ := Checked.bind_eq_ok.1 hcode
  obtain ⟨load, hload, hcode⟩ := Checked.bind_eq_ok.1 hcode
  obtain ⟨strides, hstrides, hcode⟩ := Checked.bind_eq_ok.1 hcode
  obtain ⟨products, hproducts, hcode⟩ := Checked.bind_eq_ok.1 hcode
  obtain rfl := Checked.pure_eq_ok.1 hcode
  obtain rfl := OffsetTable.eq_row_of_paramStrides hstrides
  obtain ⟨hfree, hstack, hindex, hblock⟩ :=
    staticScratch_spec hnodup hassignable (RegisterClass.pick_eq_ok.1 hscratch)
  have hlen : products.length = dims := by rw [Checked.length_of_mapM hproducts, List.length_range]
  have htake : (all.take (k + 1))[k]? = some r :=
    (List.getElem?_take_of_lt (Nat.lt_succ_self k)).trans hk
  have hpiece : ∀ (d : Nat) (hd : d < products.length), Adds site index admits memory
      (k + 1 < all.length) (all.take (k + 1)) k (table.row k) d products[d] := by
    intro d hd
    have hproduct := Checked.getElem_of_mapM hproducts (i := d) (by rw [List.length_range]; omega) hd
    rw [List.getElem_range] at hproduct
    exact adds_static hprovides (hnodup.sublist (List.take_sublist _ _)) htake
      (hassignable r (List.mem_of_getElem? hk)) hfree hstack hindex hblock (by omega) (hone d)
      hproduct
  have hpieces := triple_products hpiece (Function.update pointer k base)
  rw [Function.update_idem, Function.update_self, hlen] at hpieces
  have hload' := triple_loadPointer hprovides hnodup hassignable hk hbase hload pointer
  rw [List.length_append]
  exact (hload'.weaken (fun _ _ hs => hs) le_rfl fun _ _ hs =>
    hs.congr (fun _ => trivial) fun _ _ hr => ⟨hr, rfl⟩).append hpieces

/-- **The data pointer of a parameter in a dynamic kernel.** -/
theorem triple_dynamicPointer {scratch : Register} (hscratch : scratch ∉ all)
    (hassign : Assignable scratch) {inputs : Nat} {base : Address}
    (hbase : ∀ slot, ArgumentBlock.pointerSlot k inputs = .ok slot →
      site.Offers block admits r slot base)
    (hindex : maxCallDims ≤ index.length) {strides : List Int}
    (hstride : ∀ d < maxCallDims, site.Offers block admits scratch
      (ArgumentBlock.stridesAt + (k * maxCallDims + d) * 8) (BitVec.ofInt 64 (strides.getD d 0)))
    {code : Code} (hcode : dynamicPointer inputs scratch k r.val = .ok code)
    (pointer : Nat → Address) :
    Triple (Preparing site admits memory True (all.take k) pointer) code code.length
      (Preparing site admits memory True (all.take (k + 1)) (Function.update pointer k
        (base + BitVec.ofInt 64 (Strides.along strides index maxCallDims)))) := by
  simp only [dynamicPointer, Checked.bind_eq_ok, Checked.pure_eq_ok, RegisterClass.pick_eq_ok] at hcode
  obtain ⟨r', hr', load, hload, products, hproducts, rfl⟩ := hcode
  obtain rfl : r = r' := Fin.ext hr'
  have htake : (all.take (k + 1))[k]? = some r :=
    (List.getElem?_take_of_lt (Nat.lt_succ_self k)).trans hk
  have hlen : products.length = maxCallDims := by
    rw [Checked.length_of_mapM hproducts, List.length_range]
  have hpiece : ∀ (d : Nat) (hd : d < products.length), Adds site index admits memory True
      (all.take (k + 1)) k strides d products[d] := by
    intro d hd
    have hproduct := Checked.getElem_of_mapM hproducts (i := d) (by rw [List.length_range]; omega) hd
    rw [List.getElem_range] at hproduct
    exact adds_dynamic hprovides (hnodup.sublist (List.take_sublist _ _)) htake
      (hassignable r (List.mem_of_getElem? hk)) (fun hmem => hscratch (List.mem_of_mem_take hmem))
      hassign.1 hassign.2.1 (fun _ => hassign.2.2) trivial (by omega) (hstride d (by omega)) hproduct
  have hpieces := triple_products hpiece (Function.update pointer k base)
  rw [Function.update_idem, Function.update_self, hlen] at hpieces
  rw [List.length_append]
  exact (triple_loadPointer hprovides hnodup hassignable hk hbase hload pointer).append hpieces

end Parameter

/-! ## All parameters -/

/-- The state of a call that has computed a number of data pointers, one in each stage. -/
def Computed (site : CallSite) (stage : (k : Nat) → Instruction → Span → Prop) (memory : Memory)
    (needed : Prop) (pointers : List Register) (pointer : Nat → Address) (trace : Trace)
    (s : MachineState) : Prop :=
  Staged stage pointers.length trace ∧ storesOf trace = [] ∧
    Preparing site (fun _ _ => False) memory needed pointers pointer [] s

section Parameters

variable {all : List Register} {stage : (k : Nat) → Instruction → Span → Prop}
  (hprovides : ∀ k, site.Provides index block (stage k) memory)
  (hnodup : all.Nodup) (hassignable : ∀ r ∈ all, Assignable r) {inputs : Nat}
  {base : Nat → Address}
  (hbase : ∀ (k : Nat) (r : Register), all[k]? = some r → ∀ slot,
    ArgumentBlock.pointerSlot k inputs = .ok slot → site.Offers block (stage k) r slot (base k))

/-- The parameters one after the other, where `needed k` says whether the argument block is still
needed in front of parameter `k`. -/
theorem triple_pointers {place : Nat → Address} (needed : Nat → Prop)
    (hneeded : ∀ k < all.length, needed k) {pieces : List Code} (hlen : pieces.length = all.length)
    (h : ∀ (k : Nat) (hk : k < pieces.length) (r : Register), all[k]? = some r → Triple
      (Preparing site (stage k) memory True (all.take k) place) pieces[k] pieces[k].length
      (Preparing site (stage k) memory (needed (k + 1)) (all.take (k + 1)) place))
    (pointer : Nat → Address) :
    Triple (Computed site stage memory True [] pointer) pieces.flatten pieces.flatten.length
      (Computed site stage memory (needed all.length) all place) := by
  have hstep : ∀ (k : Nat) (hk : k < pieces.length), Triple
      (Computed site stage memory (k < all.length ∨ needed k) (all.take k) place)
      pieces[k] pieces[k].length
      (Computed site stage memory (k + 1 < all.length ∨ needed (k + 1)) (all.take (k + 1))
        place) := by
    rintro k hk trace s ⟨hstaged, hsilent, hs⟩
    have hbegin : Preparing site (stage k) memory True (all.take k) place [] s :=
      { hs with
        block := fun _ => hs.block (.inl (by omega))
        accesses := respects_nil }
    obtain ⟨part, t, hruns, hsteps, ht⟩ := h k hk all[k] (List.getElem?_eq_getElem (by omega)) [] s hbegin
    rw [List.nil_append] at ht
    refine ⟨part, t, hruns, hsteps, ?_, ?_, ?_⟩
    · rw [List.length_take, Nat.min_eq_left (by omega)] at hstaged ⊢
      exact hstaged.concat ht.accesses
    · rw [storesOf_append, hsilent, ht.stores, List.append_nil]
    · refine { ht with
        block := fun hor => ht.block ?_
        accesses := respects_nil
        stores := rfl }
      rcases hor with hlt | hneed
      · exact hneeded (k + 1) hlt
      · exact hneed
  have hall := Triple.flatten
    (fun k => Computed site stage memory (k < all.length ∨ needed k) (all.take k) place) hstep
  rw [hlen, List.take_length] at hall
  refine hall.weaken (fun _ _ hs => ?_) le_rfl fun _ _ hs => ?_
  · exact ⟨hs.1, hs.2.1, hs.2.2.congr (fun _ => trivial) fun p r hr => by simp at hr⟩
  · exact ⟨hs.1, hs.2.1, hs.2.2.congr Or.inr fun _ _ hr => ⟨hr, rfl⟩⟩

include hprovides hnodup hassignable hbase

/-- **The data pointers of a static kernel** are the addresses of the first elements of a call. -/
theorem triple_staticPointers {table : OffsetTable} {dims : Nat} (htable : table.callDims = .ok dims)
    (hdims : dims ≤ index.length) (hone : ∀ k < all.length, ∀ d, table.master[d]? = some 1 →
      (table.row k).getD d 0 * (index.getD d 0 : Nat) = 0)
    {code : Code} (hcode : staticPointers table inputs (all.map (·.val)) = .ok code)
    (pointer : Nat → Address) :
    Triple (Computed site stage memory True [] pointer) code code.length
      (Computed site stage memory False all fun k =>
        base k + BitVec.ofInt 64 (Strides.along (table.row k) index dims)) := by
  obtain ⟨dims', hdims', hcode⟩ := Checked.bind_eq_ok.1 hcode
  obtain rfl : dims = dims' := Except.ok.inj (htable.symm.trans hdims')
  obtain ⟨pieces, hpieces, hcode⟩ := Checked.bind_eq_ok.1 hcode
  obtain rfl := Checked.pure_eq_ok.1 hcode
  have hlen : pieces.length = all.length := by
    rw [Checked.length_of_mapM hpieces, List.length_zipIdx, List.length_map]
  refine (triple_pointers (· < all.length) (fun _ hk => hk) hlen
    (fun k hk r hr => ?_) pointer).weaken (fun _ _ hs => hs) le_rfl fun _ _ hs =>
      ⟨hs.1, hs.2.1, hs.2.2.congr False.elim fun _ _ hq => ⟨hq, rfl⟩⟩
  have hpiece := Checked.getElem_of_mapM hpieces (i := k) (by simpa [hlen] using hk) hk
  obtain ⟨hk', rfl⟩ := List.getElem?_eq_some_iff.1 hr
  simp only [List.getElem_zipIdx, List.getElem_map, Nat.zero_add] at hpiece
  have htriple := triple_staticPointer (hprovides k) hnodup hassignable hr (hbase k _ hr) hdims
    (hone k hk') hpiece fun k => base k + BitVec.ofInt 64 (Strides.along (table.row k) index dims)
  rwa [Function.update_eq_self] at htriple

/-- **The data pointers of a dynamic kernel** are the addresses of the first elements of a call. -/
theorem triple_dynamicPointers {free : List Nat} {scratch : Register} {others : List Nat}
    (hfree : Schedule.takeLast free .pointerScratch = .ok (scratch.val, others))
    (hscratch : scratch ∉ all) (hassign : Assignable scratch) (hindex : maxCallDims ≤ index.length)
    {strides : Nat → List Int}
    (hstride : ∀ k < all.length, ∀ d < maxCallDims, site.Offers block (stage k) scratch
      (ArgumentBlock.stridesAt + (k * maxCallDims + d) * 8)
      (BitVec.ofInt 64 ((strides k).getD d 0)))
    {code : Code} (hcode : dynamicPointers inputs (all.map (·.val)) free = .ok code)
    (pointer : Nat → Address) :
    Triple (Computed site stage memory True [] pointer) code code.length
      (Computed site stage memory True all fun k =>
        base k + BitVec.ofInt 64 (Strides.along (strides k) index maxCallDims)) := by
  obtain ⟨⟨n, others'⟩, hfree', hcode⟩ := Checked.bind_eq_ok.1 hcode
  obtain ⟨r', hr', hcode⟩ := Checked.bind_eq_ok.1 hcode
  have hsame := Except.ok.inj (hfree.symm.trans hfree')
  obtain rfl : scratch = r' :=
    Fin.ext ((Prod.ext_iff.1 hsame).1.trans (RegisterClass.pick_eq_ok.1 hr'))
  obtain ⟨pieces, hpieces, hcode⟩ := Checked.bind_eq_ok.1 hcode
  obtain rfl := Checked.pure_eq_ok.1 hcode
  have hlen : pieces.length = all.length := by
    rw [Checked.length_of_mapM hpieces, List.length_zipIdx, List.length_map]
  refine triple_pointers (fun _ => True) (fun _ _ => trivial) hlen (fun k hk r hr => ?_)
    pointer
  have hpiece := Checked.getElem_of_mapM hpieces (i := k) (by simpa [hlen] using hk) hk
  obtain ⟨hk', rfl⟩ := List.getElem?_eq_some_iff.1 hr
  simp only [List.getElem_zipIdx, List.getElem_map, Nat.zero_add] at hpiece
  have htriple := triple_dynamicPointer (hprovides k) hnodup hassignable hr hscratch hassign
    (hbase k _ hr) hindex (hstride k hk') hpiece
    fun k => base k + BitVec.ofInt 64 (Strides.along (strides k) index maxCallDims)
  rwa [Function.update_eq_self] at htriple

end Parameters

end Kernel

end Pointwise
