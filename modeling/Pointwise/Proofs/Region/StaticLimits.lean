import Pointwise.Proofs.Region.Course.Rows
import Pointwise.Proofs.Region.Limits
import Pointwise.Proofs.Region.Writes

/-!
# Capacities that a static scheduler exhausts

The code of a scheduler with static work amounts could be refused for two reasons: the body of a tile
that runs lacks a register, or a row offset that is added behind a row does not fit an instruction. As
the bodies of both tiles need the same registers, it does not matter which of them runs.

## Main definitions

* `Schedule.Context.LimitedBy` — a scheduler whose bodies are limited by a condition.

## Main results

* `Schedule.Context.LimitedBy.staticRow` — a row is limited by what the bodies need.
* `Schedule.Context.LimitedBy.staticCode` — the code is limited by this and by the row offsets.
-/

set_option autoImplicit false

namespace Pointwise

open Checked

/-- A number that fits the constant operand of an instruction. -/
def FitsImmediate (x : Int) : Prop := -0x80000000 ≤ x ∧ x < 0x80000000

/-! ## Tiles -/

/-- The data pointers of a tile can be moved. -/
theorem Tile.exists_advance {tile : Tile} {pointers : List Nat}
    (hbytes : tile.increment * tile.elemSize < 0x80000000) (hpointers : InRange pointers) :
    ∃ code, tile.advance pointers = .ok code := by
  have hstep : tile.stepBytes = .ok (tile.increment * tile.elemSize : Nat) := by
    rw [stepBytes, mul_eq_ok.2 ⟨rfl, by omega⟩, ok_bind, toOffset_of_lt (by omega), immediate_eq_ok]
    omega
  rw [advance, hstep, ok_bind]
  refine exists_mapM fun pointer hpointer => ?_
  obtain ⟨⟨_, p⟩, hmem, rfl⟩ := List.mem_map.1 hpointer
  have hlt := hpointers _ (List.fst_mem_of_mem_zipIdx (List.mem_filter.1 hmem).1)
  rw [RegisterClass.pick_of_lt hlt]
  exact ⟨_, rfl⟩

/-- The numbers of runs of the tiles can be found. -/
theorem TilePlan.exists_ofRow (inner : Nat) {lanes : Nat} (hlanes : 0 < lanes)
    (hle : lanes < 0x80000000) :
    ∃ plan, ofRow inner lanes = .ok plan := by
  have hvector : ∃ runs, vectorRuns inner lanes = .ok runs := by
    unfold vectorRuns
    split
    · exact ⟨_, rfl⟩
    · rw [mul_eq_ok.2 ⟨rfl, by omega⟩, ok_bind]
      split
      · exact ⟨_, rfl⟩
      · rw [div_eq_ok.2 ⟨hlanes.ne', rfl⟩]
        exact ⟨_, rfl⟩
  obtain ⟨runs, hruns⟩ := hvector
  rw [ofRow, hruns, ok_bind, mod_eq_ok.2 ⟨hlanes.ne', rfl⟩]
  exact ⟨_, rfl⟩

/-- A tile that is made for the data pointers of a scheduler, whose body is limited by a condition. -/
structure Schedule.TileCode.LimitedBy (tile : TileCode) (pointers : List Nat) (B : Prop) : Prop where
  increment : tile.tile.increment < 0x80000000
  bytes : tile.tile.increment * tile.tile.elemSize < 0x80000000
  dims : tile.tile.dims.length = pointers.length
  body : Limited tile.body B

/-- A tile for the lanes of a vector or for a single element. -/
theorem Schedule.TileCode.LimitedBy.of_le {tile : TileCode} {pointers : List Nat} {B : Prop}
    (hincrement : tile.tile.increment ≤ 16) (helem : tile.tile.elemSize = elementSize)
    (hdims : tile.tile.dims.length = pointers.length) (hbody : Limited tile.body B) :
    tile.LimitedBy pointers B := by
  refine ⟨by omega, ?_, hdims, hbody⟩
  rw [helem, elementSize]
  omega

/-- A scheduler whose registers exist and whose tiles are limited by a condition. -/
structure Schedule.Context.LimitedBy (context : Context) (B : Prop) : Prop where
  pointers : InRange context.pointers
  inner : context.innerRegister < registerCount
  vector : context.vector.LimitedBy context.pointers B
  scalar : context.scalar.LimitedBy context.pointers B

namespace Schedule.Context.LimitedBy

variable {context : Context} {B : Prop} (h : context.LimitedBy B)
include h

section Tiles

variable {tile : TileCode} (htile : tile.LimitedBy context.pointers B)
include htile

/-- The loop of a tile. -/
theorem loop : Limited (context.loop tile) B := by
  have hoperands : tile.tile.checkOperands [context.innerRegister] context.pointers = .ok () := by
    rw [Tile.checkOperands, require_eq_ok.2 (by simp), ok_bind, require_eq_ok]
    exact htile.dims.symm
  have hincrement := htile.increment
  obtain ⟨steps, hsteps⟩ := Tile.exists_advance htile.bytes h.pointers
  refine .bind_of_ok hoperands (.bind_of_ok (a := context.innerRegister) rfl ?_)
  refine .bind_of_ok (RegisterClass.pick_of_lt h.inner) ?_
  refine .bind_of_ok (a := (tile.tile.increment : Int)) ?_ ?_
  · rw [toOffset_of_lt (by omega), immediate_eq_ok]
    omega
  · refine (htile.body.bind fun body _ => ?_).congr (and_iff_left trivial)
    exact .bind_of_ok hsteps (.of_ok rfl)

/-- A single run of a tile. -/
theorem once {followed : Prop} [Decidable followed] :
    Limited (do
      let body ← tile.body
      if followed then return body ++ (← tile.tile.advance context.pointers) else return body) B := by
  obtain ⟨steps, hsteps⟩ := Tile.exists_advance htile.bytes h.pointers
  refine (htile.body.bind fun body _ => ?_).congr (and_iff_left trivial)
  split
  · exact .bind_of_ok hsteps (.of_ok rfl)
  · exact .of_ok rfl

end Tiles

variable {plan : TilePlan} {inner lanes : Nat} {followed : Bool} {counter : Register}

/-- The vector tile of a row is limited if it runs. -/
theorem staticVector :
    Limited (Schedule.staticVector context plan inner followed counter) (plan.vector ≠ .skip → B) := by
  unfold Schedule.staticVector
  split
  · rename_i hskip
    exact (Limited.of_ok rfl).congr (by simp [hskip])
  · rename_i honce
    exact (h.once h.vector).congr (by simp [honce])
  · rename_i hloop
    exact (h.loop h.vector).bind_pure.congr (by simp [hloop])

/-- So is the scalar tile. -/
theorem staticScalar (hplan : TilePlan.ofRow inner lanes = .ok plan) :
    Limited (Schedule.staticScalar context plan inner lanes followed counter)
      (plan.scalar ≠ .skip → B) := by
  have hruns := (TilePlan.ofRow_eq_ok hplan).1
  unfold Schedule.staticScalar
  split
  · rename_i hskip
    exact (Limited.of_ok rfl).congr (by simp [hskip])
  · rename_i honce
    exact (h.once h.scalar).congr (by simp [honce])
  · rename_i hloop
    have hlimited : ∀ setup, Limited (do return setup ++ (← context.loop context.scalar))
        (plan.scalar ≠ .skip → B) := fun setup =>
      (h.loop h.scalar).bind_pure.congr (by simp [hloop])
    split
    · exact hlimited _
    · -- The vector tile runs once only if the row is at least as long as it.
      rename_i honce
      have hle : lanes ≤ inner := by
        rcases hruns with ⟨hvector, -⟩ | ⟨-, hle, -⟩ | ⟨hvector, -⟩
        · rw [hvector] at honce
          cases honce
        · exact hle
        · rw [hvector] at honce
          cases honce
      exact .bind_of_ok (sub_eq_ok.2 ⟨hle, rfl⟩) (hlimited _)
    · exact hlimited _

/-- **A row** is limited by what the bodies need, as a tile runs in it unless it is empty. -/
theorem staticRow (hlanes : 0 < lanes) (hplan : TilePlan.ofRow inner lanes = .ok plan) :
    Limited (Schedule.staticRow context plan inner lanes followed) (0 < inner → B) := by
  refine .bind_of_ok (RegisterClass.pick_of_lt h.inner) ?_
  refine (h.staticVector.bind fun vector _ => (h.staticScalar hplan).bind_pure).congr ?_
  rw [TilePlan.vector_ne_skip_iff hplan, TilePlan.scalar_ne_skip_iff hplan]
  have hrun : lanes ≤ inner ∨ inner % lanes ≠ 0 ↔ 0 < inner := by
    by_cases hlt : inner < lanes
    · rw [Nat.mod_eq_of_lt hlt]
      omega
    · omega
  rw [← hrun]
  tauto

/-- Row offsets can be added if they fit an instruction. -/
theorem addRowOffsets {rowOffsets : List Int} (hlen : rowOffsets.length = context.pointers.length) :
    Limited (Schedule.addRowOffsets context.pointers rowOffsets)
      (∀ x ∈ rowOffsets, FitsImmediate x) := by
  have hoffset : ∀ pair ∈ (context.pointers.zip rowOffsets).filter (·.2 ≠ 0), Limited (do
      let r ← RegisterClass.gpr64.pick pair.1
      return Instruction.addImmediate r (← immediate pair.2)) (FitsImmediate pair.2) := by
    rintro ⟨pointer, x⟩ hmem
    have hlt := h.pointers _ (List.of_mem_zip (List.mem_filter.1 hmem).1).1
    exact .bind_of_ok (RegisterClass.pick_of_lt hlt) (limited_immediate x).bind_pure
  refine (Limited.mapM _ hoffset).congr ⟨fun hall x hx => ?_, fun hall pair hpair => ?_⟩
  · by_cases hzero : x = 0
    · rw [hzero, FitsImmediate]
      omega
    · have hsnd : (context.pointers.zip rowOffsets).map (·.2) = rowOffsets :=
        List.map_snd_zip hlen.le
      rw [← hsnd] at hx
      obtain ⟨pair, hpair, rfl⟩ := List.mem_map.1 hx
      exact hall pair (List.mem_filter.2 ⟨hpair, by simpa using hzero⟩)
  · exact hall _ (List.of_mem_zip (List.mem_filter.1 hpair).1).2

/-- **The code of a scheduler** is limited by what its bodies need unless its rows are empty, and by the
row offsets if there is more than one row. -/
theorem staticCode {outer : Nat} (houter : outer < registerCount) {work : WorkAmounts}
    (hlanes : 0 < lanes) (hlanes' : lanes < 0x80000000) {rowOffsets : List Int}
    (hlen : rowOffsets.length = context.pointers.length) :
    Limited (Schedule.staticCode context outer work lanes rowOffsets)
      ((0 < work.inner → B) ∧ (1 < work.outer → ∀ x ∈ rowOffsets, FitsImmediate x)) := by
  obtain ⟨plan, hplan⟩ := TilePlan.exists_ofRow work.inner hlanes hlanes'
  refine .bind_of_ok hplan ?_
  split
  · exact (h.staticRow hlanes hplan).congr (by simp [Nat.not_lt.2 ‹work.outer ≤ 1›])
  · refine .bind_of_ok (RegisterClass.pick_of_lt houter) ?_
    refine ((h.staticRow hlanes hplan).bind fun row _ => (h.addRowOffsets hlen).bind_pure).congr ?_
    simp [Nat.lt_of_not_le ‹¬ work.outer ≤ 1›]

end Schedule.Context.LimitedBy

/-- **A scheduler with registers** is limited by what limits the code of its rows: its operands are as
they have to be. -/
theorem Entry.limited_scheduler_of_code {mode : ScheduleMode} {vector scalar : Tile}
    {long short : Region} {inputs outputs lanes : Nat} {pointers vecs rest : List Nat}
    {inner outer : Nat} {P : Prop} (hparams : pointers.length = inputs + outputs)
    (hsmall : inputs + outputs ≤ maxParams)
    (hcode : let context : Schedule.Context := ⟨⟨vector, Region.emit vecs rest long⟩,
        ⟨scalar, Region.emit vecs rest short⟩, pointers, inner⟩
      Limited (match mode with
        | .static work rowOffsets => do
          require (rowOffsets.length = pointers.length)
            (.invalid (.schedulerOffsets rowOffsets.length pointers.length))
          Schedule.staticCode context outer work lanes rowOffsets
        | .dynamic => Schedule.dynamicCode context outer) P) :
    Limited ((Entry.scheduler mode [.tile vector long [] [], .tile scalar short [] []]
      [inputs, outputs, lanes] pointers).emit vecs (rest ++ [inner, outer])) P := by
  have hsplit : rest ++ [inner, outer] = rest ++ [inner] ++ [outer] := by simp
  have hoperands : Schedule.checkOperands [inputs, outputs, lanes] pointers = .ok () := by
    rw [maxParams] at hsmall
    refine bind_eq_ok.2 ⟨(), require_eq_ok.2 rfl, ?_⟩
    refine bind_eq_ok.2 ⟨inputs, rfl, bind_eq_ok.2 ⟨outputs, rfl, ?_⟩⟩
    exact bind_eq_ok.2 ⟨_, add_eq_ok.2 ⟨rfl, by omega⟩, require_eq_ok.2 hparams⟩
  rw [Entry.emit, Schedule.bodyPool_concat, hsplit]
  refine .bind_of_ok hoperands (.bind_of_ok rfl (.bind_of_ok (a := lanes) rfl ?_))
  refine .bind_of_ok (Schedule.takeLast_eq_ok.2 rfl) (.bind_of_ok (Schedule.takeLast_eq_ok.2 rfl) ?_)
  exact hcode

/-- **A static scheduler with registers** is limited by what its bodies need of the general registers
that it leaves to them, and by its row offsets. -/
theorem Entry.limited_scheduler {work : WorkAmounts} {rowOffsets : List Int} {vector scalar : Tile}
    {long short : Region} {inputs outputs lanes : Nat} {pointers vecs rest : List Nat}
    {inner outer : Nat} {B : Prop}
    (hlimited : Schedule.Context.LimitedBy ⟨⟨vector, Region.emit vecs rest long⟩,
      ⟨scalar, Region.emit vecs rest short⟩, pointers, inner⟩ B)
    (houter : outer < registerCount) (hinner : 0 < work.inner) (hlanes : 0 < lanes)
    (hlanes' : lanes ≤ 16) (hparams : pointers.length = inputs + outputs)
    (hsmall : inputs + outputs ≤ maxParams) (hlen : rowOffsets.length = pointers.length) :
    Limited ((Entry.scheduler (.static work rowOffsets)
        [.tile vector long [] [], .tile scalar short [] []] [inputs, outputs, lanes] pointers).emit
          vecs (rest ++ [inner, outer]))
      (B ∧ (1 < work.outer → ∀ x ∈ rowOffsets, FitsImmediate x)) := by
  apply Entry.limited_scheduler_of_code hparams hsmall
  refine .bind_of_ok (require_eq_ok.2 hlen) ?_
  exact (hlimited.staticCode houter hlanes (by omega) hlen).congr (by rw [imp_iff_right hinner])

end Pointwise
