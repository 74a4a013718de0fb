import Pointwise.Proofs.Region.StaticLimits

/-!
# Capacities that a dynamic scheduler exhausts

The code of a scheduler with dynamic work amounts contains both tiles, twice. It could be refused for
one reason only: the body of a tile lacks a register. The offsets that it reads from the argument block
lie within its first few hundred bytes, and the increments of the tiles are small.

## Main results

* `Schedule.Context.LimitedBy.dynamicRow` — a row is limited by what the bodies need.
* `Schedule.Context.LimitedBy.dynamicCode` — so is the code.
* `Entry.limited_dynamic_scheduler` — a dynamic scheduler is limited by what its bodies need.
-/

set_option autoImplicit false

namespace Pointwise

open Checked

/-- The words of an argument block have addresses that fit an instruction. -/
theorem MemoryOperand.exists_behind {offset : Nat} (h : offset < 0x80000000) :
    ∃ operand, MemoryOperand.behind Register.blockArgument.val offset = .ok operand := by
  rw [MemoryOperand.behind, toOffset_of_lt (by omega), immediate_eq_ok.2 ⟨rfl, by omega, by omega⟩,
    ok_bind, RegisterClass.pick_of_lt Register.blockArgument.isLt]
  exact ⟨_, rfl⟩

namespace Schedule

/-- The row offset of a parameter can be read from the argument block. -/
theorem exists_blockWord_row {param : Nat} (h : param < registerCount) :
    ∃ operand, blockWord (ArgumentBlock.rowsAt + param * 8) = .ok operand := by
  apply MemoryOperand.exists_behind
  rw [registerCount] at h
  simp only [ArgumentBlock.rowsAt, ArgumentBlock.targetsAt, ArgumentBlock.sourcesAt, maxParams]
  omega

/-- So can the amounts of work. -/
theorem exists_blockWord_work {offset : Nat} (h : offset ≤ 8) :
    ∃ operand, blockWord (ArgumentBlock.workAt + offset) = .ok operand := by
  apply MemoryOperand.exists_behind
  simp only [ArgumentBlock.workAt, ArgumentBlock.stridesAt, ArgumentBlock.rowsAt,
    ArgumentBlock.targetsAt, ArgumentBlock.sourcesAt, maxParams, maxCallDims]
  omega

namespace Context.LimitedBy

variable {context : Context} {B : Prop} (h : context.LimitedBy B)
include h

/-- The loop of a tile with the test in front of it. -/
theorem dynamicTile {tile : TileCode} (htile : tile.LimitedBy context.pointers B)
    (counter : Register) : Limited (Schedule.dynamicTile context tile counter) B := by
  have hincrement := htile.increment
  refine .bind_of_ok (a := (tile.tile.increment : Int)) ?_ (h.loop htile).bind_pure
  rw [toOffset_of_lt (by omega), immediate_eq_ok]
  omega

/-- **A row** is limited by what the bodies need. -/
theorem dynamicRow : Limited (Schedule.dynamicRow context) B := by
  obtain ⟨inner, hinner⟩ := exists_blockWord_work (le_refl 8)
  refine .bind_of_ok (RegisterClass.pick_of_lt h.inner) (.bind_of_ok hinner ?_)
  exact ((h.dynamicTile h.vector _).bind fun _ _ => (h.dynamicTile h.scalar _).bind_pure).congr
    (and_self_iff)

/-- Row offsets can be added from the argument block. -/
theorem exists_loadRowOffsets (hsmall : context.pointers.length ≤ registerCount) :
    ∃ code, Schedule.loadRowOffsets context.pointers = .ok code := by
  refine exists_mapM ?_
  rintro ⟨pointer, param⟩ hmem
  have hpointer := h.pointers pointer (List.fst_mem_of_mem_zipIdx hmem)
  have hparam := List.snd_lt_of_mem_zipIdx hmem
  obtain ⟨offset, hoffset⟩ := exists_blockWord_row (by omega : param < registerCount)
  dsimp only
  rw [RegisterClass.pick_of_lt hpointer, ok_bind, hoffset]
  exact ⟨_, rfl⟩

/-- **The code of a scheduler** is limited by what its bodies need. -/
theorem dynamicCode {outer : Nat} (houter : outer < registerCount)
    (hsmall : context.pointers.length ≤ registerCount) :
    Limited (Schedule.dynamicCode context outer) B := by
  obtain ⟨rows, hrows⟩ := exists_blockWord_work (Nat.zero_le 8)
  obtain ⟨offsets, hoffsets⟩ := h.exists_loadRowOffsets hsmall
  refine .bind_of_ok (RegisterClass.pick_of_lt houter) (.bind_of_ok hrows ?_)
  refine (h.dynamicRow.bind fun row _ => ?_).congr (and_iff_left trivial)
  exact .bind_of_ok hoffsets (.of_ok rfl)

end Context.LimitedBy

end Schedule

/-- **A dynamic scheduler with registers** is limited by what its bodies need of the general registers
that it leaves to them. -/
theorem Entry.limited_dynamic_scheduler {vector scalar : Tile} {long short : Region}
    {inputs outputs lanes : Nat} {pointers vecs rest : List Nat} {inner outer : Nat} {B : Prop}
    (hlimited : Schedule.Context.LimitedBy ⟨⟨vector, Region.emit vecs rest long⟩,
      ⟨scalar, Region.emit vecs rest short⟩, pointers, inner⟩ B)
    (houter : outer < registerCount) (hparams : pointers.length = inputs + outputs)
    (hsmall : inputs + outputs ≤ maxParams) :
    Limited ((Entry.scheduler .dynamic [.tile vector long [] [], .tile scalar short [] []]
      [inputs, outputs, lanes] pointers).emit vecs (rest ++ [inner, outer])) B := by
  apply Entry.limited_scheduler_of_code hparams hsmall
  exact hlimited.dynamicCode houter ((hparams.trans_le hsmall).trans (by decide))

end Pointwise
