import Pointwise.Proofs.Kernel.Capacity
import Pointwise.Proofs.Region.DynamicLimits

/-!
# Capacities that a dynamic kernel exhausts

A dynamic kernel needs more general registers than a static one. It goes on reading the argument block
while it runs, so that only one register of the arguments serves as a counter; the other counter, and
before it the strides, take a register that no parameter has. Whatever is left is for the bodies. Apart
from this, the code of a dynamic kernel is refused only if the values exhaust the vector registers.

## Main definitions

* `Program.FitsDynamicRegisters` — a program that has enough registers for a dynamic kernel.

## Main results

* `Kernel.limited_dynamicPointers` — the data pointers can be computed if a register is free.
* `Compiler.limited_generate_dynamic` — the code of a dynamic kernel is limited by the registers.
-/

set_option autoImplicit false

namespace Pointwise

open Checked

/-- The last register of a pool can be taken off it if there is one. -/
theorem Schedule.limited_takeLast {pool : List Nat} {cause : CapacityError} :
    Limited (Schedule.takeLast pool cause) (pool ≠ []) := by
  unfold Schedule.takeLast
  constructor
  · intro hne
    rw [List.getLast?_eq_some_getLast hne]
    exact ⟨_, rfl⟩
  · intro hnil
    rw [not_not] at hnil
    rw [hnil]
    exact ⟨cause, rfl⟩

namespace Kernel

/-! ## Data pointers -/

/-- The product for a dimension can be added to a data pointer. -/
theorem exists_addDynamicProduct {param dim : Nat} (hparam : param < maxParams)
    (hdim : dim < maxCallDims) (pointer scratch : Register) :
    ∃ code, addDynamicProduct param pointer scratch dim = .ok code := by
  have hoffset : ArgumentBlock.stridesAt + (param * maxCallDims + dim) * 8 < 0x80000000 := by
    simp only [ArgumentBlock.stridesAt, ArgumentBlock.rowsAt, ArgumentBlock.targetsAt,
      ArgumentBlock.sourcesAt, maxParams, maxCallDims] at hparam hdim ⊢
    omega
  obtain ⟨stride, hstride⟩ := MemoryOperand.exists_behind hoffset
  rw [addDynamicProduct, hstride]
  exact ⟨_, rfl⟩

/-- **The data pointers of a dynamic kernel** can be computed if a register is free for the strides. -/
theorem limited_dynamicPointers {pointers free : List Nat} (hpointers : InRange pointers)
    (hfree : InRange free) (hsmall : pointers.length ≤ maxParams) (inputs : Nat) :
    Limited (dynamicPointers inputs pointers free) (free ≠ []) := by
  refine (Schedule.limited_takeLast.bind (Q := True) fun taken htaken => ?_).congr
    (and_iff_left trivial)
  obtain ⟨scratch, others⟩ := taken
  have hscratch : scratch < registerCount := by
    apply hfree
    rw [Schedule.takeLast_eq_ok.1 htaken]
    simp
  have hpointer : ∀ pair ∈ pointers.zipIdx,
      ∃ code, dynamicPointer inputs ⟨scratch, hscratch⟩ pair.2 pair.1 = .ok code := by
    rintro ⟨pointer, param⟩ hmem
    have hp := hpointers pointer (List.fst_mem_of_mem_zipIdx hmem)
    have hparam := List.snd_lt_of_mem_zipIdx hmem
    obtain ⟨load, hload⟩ := @exists_loadPointer param inputs (by omega) ⟨pointer, hp⟩
    obtain ⟨products, hproducts⟩ : ∃ products, (List.range maxCallDims).mapM
        (addDynamicProduct param ⟨pointer, hp⟩ ⟨scratch, hscratch⟩) = .ok products := by
      refine exists_mapM fun dim hdim => ?_
      exact exists_addDynamicProduct (by omega) (List.mem_range.1 hdim) _ _
    rw [dynamicPointer, RegisterClass.pick_of_lt hp, ok_bind, hload, ok_bind, hproducts]
    exact ⟨_, rfl⟩
  obtain ⟨codes, hcodes⟩ := exists_mapM hpointer
  dsimp only
  exact .bind_of_ok (RegisterClass.pick_of_lt hscratch) (.bind_of_ok hcodes (.of_ok rfl))

/-! ## Code -/

variable {kernel : Kernel} {program : Program} {domain : Domain} {w : VectorWidth}
  {flags : List Bool} {dims : List Nat} {long short : Region}

/-- **The code of a dynamic kernel** is limited by a free register for the counter, and by what the
operations need of the others.

**Proof sketch.** The register that holds the strides is the last free one; the scheduler takes it as the
counter of the elements in a row, and that of the index vector as the counter of the rows. -/
theorem limited_code_dynamic (hcount : program.registers.count ≤ registerCount)
    (hmade : kernel.MadeFor program domain w .dynamic flags dims long short) :
    Limited (kernel.code program.inputs program.outputs.length) (kernel.freeGprs ≠ [] ∧
      Program.Spares program.ops kernel.freeVecs kernel.freeGprs.dropLast) := by
  obtain ⟨hpointers, hfreeGprs, hfreeVecs⟩ := hmade.inRange
  have hsmall : kernel.pointers.length ≤ maxParams := by
    rw [hmade.length_pointers]
    exact program.wellFormed.params_le
  have hoperands : kernel.checkOperands [program.inputs, program.outputs.length] [] = .ok () := by
    rw [checkOperands_eq hmade.length_pointers, hmade.mode_eq]
    rfl
  have hpointerCode : kernel.pointerCode program.inputs =
      dynamicPointers program.inputs kernel.pointers kernel.freeGprs := by
    rw [pointerCode, hmade.mode_eq]
  have hlimited := limited_dynamicPointers hpointers hfreeGprs hsmall program.inputs
  rw [← hpointerCode] at hlimited
  refine .bind_of_ok hoperands (.bind_of_ok (a := program.inputs) rfl
    (hlimited.bind fun pointers hcode => Limited.bind_pure ?_))
  obtain ⟨rest, inner, hfree⟩ :=
    (List.eq_nil_or_concat kernel.freeGprs).resolve_left (hlimited.iff_of_ok hcode)
  rw [List.concat_eq_append] at hfree
  have hpool : kernel.schedulerPool = rest ++ [inner, Register.indexArgument.val] := by
    rw [schedulerPool, hmade.mode_eq, hfree, List.append_assoc]
    rfl
  have hmode : kernel.scheduleMode = .dynamic := hmade.scheduleMode
  have hdims := hmade.length_dims.trans hmade.length_pointers.symm
  rw [hfree] at hfreeGprs
  have hrest : InRange rest := fun r hr => hfreeGprs r (List.mem_append_left _ hr)
  have hinner : inner < registerCount := hfreeGprs inner (by simp)
  rw [scheduler, hmade.body, hmade.input, hpool, hmode, hfree, List.dropLast_concat]
  refine Entry.limited_dynamic_scheduler ⟨hpointers, hinner, ?_, ?_⟩ Register.indexArgument.isLt
    hmade.length_pointers program.wellFormed.params_le
  · exact .of_le w.lanes_le rfl hdims
      (limited_emit hcount hmade.length_flags hmade.tiles.long hfreeVecs hrest)
  · exact .of_le (by norm_num : 1 ≤ 16) rfl hdims
      (limited_emit hcount hmade.length_flags hmade.tiles.short hfreeVecs hrest)

end Kernel

/-! ## The capacities of a program -/

/-- A program whose values have registers, and that leaves free ones to the operations that need them
besides the one that a dynamic kernel needs itself. -/
structure Program.FitsDynamicRegisters (program : Program) : Prop where
  values : program.registers.count ≤ 16
  vec : (∃ op ∈ program.ops, op.needsVec = true) → program.registers.count ≤ 15
  params : program.params ≤ 11
  gpr : (∃ op ∈ program.ops, op.needsGpr = true) → program.params ≤ 10

/-- **The registers that a dynamic kernel leaves** are what it and the operations need if the program
leaves free ones. -/
theorem Kernel.MadeFor.dynamic_spares_iff {kernel : Kernel} {program : Program} {domain : Domain}
    {w : VectorWidth} {mode : KernelMode} {flags : List Bool} {dims : List Nat} {long short : Region}
    (h : kernel.MadeFor program domain w mode flags dims long short)
    (hcount : program.registers.count ≤ registerCount) :
    (kernel.freeGprs ≠ [] ∧ Program.Spares program.ops kernel.freeVecs kernel.freeGprs.dropLast) ↔
      program.FitsDynamicRegisters := by
  have hgprs : kernel.freeGprs ≠ [] ↔ program.params ≤ 11 := by
    rw [← List.length_pos_iff, h.length_freeGprs]
    omega
  have hothers : kernel.freeGprs.dropLast ≠ [] ↔ program.params ≤ 10 := by
    rw [← List.length_pos_iff, List.length_dropLast, h.length_freeGprs]
    omega
  unfold Program.Spares
  rw [h.freeVecs_ne_nil, hgprs, hothers]
  constructor
  · rintro ⟨hparams, hall⟩
    exact ⟨hcount, fun ⟨op, hop, hneeds⟩ => (hall op hop).1 hneeds, hparams,
      fun ⟨op, hop, hneeds⟩ => (hall op hop).2 hneeds⟩
  · intro hfits
    refine ⟨hfits.params, fun op hop => ?_⟩
    exact ⟨fun hneeds => hfits.vec ⟨op, hop, hneeds⟩, fun hneeds => hfits.gpr ⟨op, hop, hneeds⟩⟩

/-- **The code of a dynamic kernel** for a planned domain is limited by the registers of the program. -/
theorem Compiler.limited_generate_dynamic {compiler : Compiler} {program : Program} {domain : Domain}
    {w : VectorWidth} (hisa : compiler.config.isa.vectorWidth = .ok w)
    (hplanned : domain.Planned program.outputs.length)
    (hlen : domain.inputShapes.length = program.inputs) :
    Limited (compiler.generate program domain .dynamic) program.FitsDynamicRegisters := by
  apply limited_generate_of_code hisa hplanned hlen fun hfits => hfits.values
  intro kernel flags dims long short hmade hcount
  rw [← hmade.dynamic_spares_iff hcount]
  exact Kernel.limited_code_dynamic hcount hmade

end Pointwise
