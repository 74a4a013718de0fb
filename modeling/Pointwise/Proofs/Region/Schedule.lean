import Pointwise.Proofs.Region.Body
import Pointwise.Proofs.Region.Course.Rows

/-!
# The rows of a kernel call

The scheduler of a kernel processes the positions of a call in order, pass by pass. The columns that its
tiles come to are those at which the passes begin, and the data pointers stand where the parameters have
the elements of the pass.

## Main definitions

* `Setting.Rows` — a setting whose positions form rows.
* `Setting.Links` — row offsets that lead from row to row.
* `Setting.Spare`, `Schedule.Context.Fits` — a scheduler that is made for a setting.
* `Setting.Argument` — a word of the argument block.
* `Setting.Through` — the state of a call that has come to a position.
* `Setting.course` — what a scheduler does in a setting.

## Main results

* `Setting.Rows.onePass_vector`, `Setting.Rows.onePass_scalar` — the passes of a row.
* `Setting.triple_staticCode`, `Setting.triple_dynamicCode` — all rows of a call are processed.
-/

set_option autoImplicit false

namespace Pointwise

open Machine

/-! ## Passes of a row -/

/-- The positions of a vector pass belong to the pass that begins with the first of them. -/
theorem passStart_vector {lanes inner k j : Nat} (row : Nat) (hj : j < lanes)
    (hfits : k * lanes + lanes ≤ inner) :
    passStart lanes inner (row * inner + (k * lanes + j)) = row * inner + k * lanes := by
  have hcolumn : (row * inner + (k * lanes + j)) % inner = k * lanes + j := by
    rw [Nat.mul_comm, Nat.mul_add_mod, Nat.mod_eq_of_lt (by omega)]
  have hlane : (k * lanes + j) % lanes = j := by
    rw [Nat.mul_comm, Nat.mul_add_mod, Nat.mod_eq_of_lt hj]
  have hquot : k + 1 ≤ inner / lanes := by
    rw [Nat.le_div_iff_mul_le (by omega), Nat.succ_mul]
    exact hfits
  have hmul : (k + 1) * lanes ≤ inner / lanes * lanes := Nat.mul_le_mul_right _ hquot
  rw [Nat.succ_mul] at hmul
  rw [passStart, hcolumn, if_pos (by omega), hlane]
  omega

/-- A position behind the vector passes is a pass of its own. -/
theorem passStart_scalar {lanes inner column : Nat} (row : Nat)
    (hle : inner / lanes * lanes ≤ column) (hlt : column < inner) :
    passStart lanes inner (row * inner + column) = row * inner + column := by
  have hcolumn : (row * inner + column) % inner = column := by
    rw [Nat.mul_comm, Nat.mul_add_mod, Nat.mod_eq_of_lt hlt]
  rw [passStart, hcolumn, if_neg (by omega)]

namespace Setting

/-- The pointers that have walked a number of columns. -/
def shift (ctx : Setting) (base : Nat → Address) (column p : Nat) : Address :=
  base p + BitVec.ofNat 64 (if ctx.moves p then 4 * column else 0)

/-- The pointers at the beginning of a row. -/
def begins (ctx : Setting) (inner row p : Nat) : Address := ctx.place p (row * inner)

/-- A setting whose positions form rows of `inner` columns. -/
structure Rows (ctx : Setting) (lanes inner : Nat) : Prop where
  lanes_pos : 0 < lanes
  inner_pos : 0 < inner
  inner_lt : inner < 2 ^ 63
  start : ctx.start = passStart lanes inner
  /-- Along a row the pointers move or stay where they are. -/
  place : ∀ p < ctx.pointers.length, ∀ row column, column < inner →
    ctx.place p (row * inner + column) = ctx.shift (ctx.begins inner row) column p

/-- Row offsets lead from the end of a row to the beginning of the next one, within the `outer` rows
that begin with row `start`. -/
def Links (ctx : Setting) (inner start outer : Nat) (offset : Nat → Int) : Prop :=
  ∀ k, k + 1 < outer → ∀ p < ctx.pointers.length,
    ctx.shift (ctx.begins inner (start + k)) inner p + BitVec.ofInt 64 (offset p) =
      ctx.begins inner (start + (k + 1)) p

variable {ctx : Setting} {lanes inner : Nat}

@[simp] theorem shift_zero (base : Nat → Address) : ctx.shift base 0 = base := by
  funext p
  simp [shift]

theorem shift_add (base : Nat → Address) (column width p : Nat) :
    ctx.shift base (column + width) p =
      ctx.shift base column p + BitVec.ofNat 64 (if ctx.moves p then 4 * width else 0) := by
  rw [shift, shift, Span.add_ofNat_add]
  congr 2
  split <;> omega

/-- Consecutive columns of a row are consecutive elements, or the same one. -/
theorem Rows.place_add (h : ctx.Rows lanes inner) {p row column j : Nat}
    (hp : p < ctx.pointers.length) (hlt : column + j < inner) :
    ctx.place p (row * inner + column + j) =
      ctx.place p (row * inner + column) + BitVec.ofNat 64 (if ctx.moves p then 4 * j else 0) := by
  rw [Nat.add_assoc, h.place p hp row _ hlt, h.place p hp row column (by omega), shift_add]

/-- **The passes of the vector tile.** -/
theorem Rows.onePass_vector (h : ctx.Rows lanes inner) (hsound : ctx.Sound) {row k : Nat}
    (hrow : (row + 1) * inner ≤ ctx.elements) (hk : k < inner / lanes) :
    ctx.OnePass ⟨row * inner + k * lanes, lanes⟩ := by
  have hparams : ctx.program.inputs ≤ ctx.pointers.length := by
    rw [hsound.length_pointers, Program.params]
    omega
  have hmul : (k + 1) * lanes ≤ inner / lanes * lanes := Nat.mul_le_mul_right _ hk
  have hdiv := Nat.div_mul_le_self inner lanes
  rw [Nat.succ_mul] at hmul hrow
  refine ⟨by dsimp only; omega, fun j hj => ?_, fun p hp j hj => ?_⟩
  · dsimp only at hj ⊢
    rw [h.start, Nat.add_assoc, passStart_vector row hj (by omega)]
  · dsimp only at hj ⊢
    exact h.place_add (by omega) (by omega)

/-- **The passes of the scalar tile.** -/
theorem Rows.onePass_scalar (h : ctx.Rows lanes inner) (hsound : ctx.Sound) {row column : Nat}
    (hrow : (row + 1) * inner ≤ ctx.elements) (hle : inner / lanes * lanes ≤ column)
    (hlt : column < inner) : ctx.OnePass ⟨row * inner + column, 1⟩ := by
  have hparams : ctx.program.inputs ≤ ctx.pointers.length := by
    rw [hsound.length_pointers, Program.params]
    omega
  rw [Nat.succ_mul] at hrow
  refine ⟨by dsimp only; omega, fun j hj => ?_, fun p hp j hj => ?_⟩
  · dsimp only at hj ⊢
    obtain rfl : j = 0 := by omega
    rw [h.start, Nat.add_zero, passStart_scalar row hle hlt]
  · dsimp only at hj ⊢
    exact h.place_add (by omega) (by omega)

end Setting

/-! ## Schedulers that are made for a setting -/

/-- A tile that is made for a setting. -/
structure Schedule.TileCode.Walks (tile : TileCode) (ctx : Setting) (source : Program.BodySource) :
    Prop where
  isBody : ∀ code, tile.body = .ok code → ctx.program.IsBody source code
  increment : tile.tile.increment = source.kind.width source.w
  elemSize : tile.tile.elemSize = elementSize
  advances : ∀ p < ctx.pointers.length, tile.tile.advances p = ctx.moves p

/-- A register that a scheduler may use: it is neither a pointer nor kept, and no body uses it. -/
structure Setting.Spare (ctx : Setting) (long short : Program.BodySource) (r : Register) : Prop where
  not_pointer : r ∉ ctx.pointers
  not_kept : r ∉ ctx.kept.map (·.1)
  long_free : r.val ∉ long.gprs
  short_free : r.val ∉ short.gprs

/-- The tiles of a scheduler that is made for a setting, with the register of the inner count. -/
structure Schedule.Context.Fits (context : Schedule.Context) (ctx : Setting)
    (long short : Program.BodySource) (counter : Register) : Prop where
  vector : context.vector.Walks ctx long
  scalar : context.scalar.Walks ctx short
  long_kind : long.kind = .vector
  short_kind : short.kind = .scalar
  long_matches : long.Matches ctx
  short_matches : short.Matches ctx
  pointers : context.pointers = ctx.pointers.map (·.val)
  register : context.innerRegister = counter.val
  spare : ctx.Spare long short counter

namespace Setting

/-- The argument block holds a word that an instruction may load. -/
def Argument (ctx : Setting) (load : MemoryOperand → Instruction) (offset : Nat) (value : Address) :
    Prop :=
  ∃ block, (Register.blockArgument, block) ∈ ctx.kept ∧
    ctx.memory.readWord (block + BitVec.ofNat 64 offset) = value ∧
    (∀ a, Span.Covers ⟨block + BitVec.ofNat 64 offset, 8⟩ a → ctx.readable a) ∧
    ∀ m, ctx.admits (load m) ⟨block + BitVec.ofNat 64 offset, 8⟩

/-- The state of a call that has come to a position, wherever the pointers are. -/
def Through (ctx : Setting) (position : Nat) : Assertion :=
  fun trace s => ∃ pointer, ctx.At position pointer trace s

/-- What a scheduler does in a setting: at each column it has processed the positions in front of it. -/
def course (ctx : Setting) (context : Schedule.Context) (counter r : Register)
    (inner start outer : Nat) (offset : Nat → Int) : Schedule.Course where
  context := context
  pointers := ctx.pointers
  outerRegister := r
  innerRegister := counter
  outer := outer
  inner := inner
  place row := ctx.shift (ctx.begins inner (start + row))
  rowOffset := offset
  Reached row column trace s := (start + row) * inner + column ≤ ctx.elements ∧
    ctx.Through ((start + row) * inner + column) trace s
  Admits i s := (∀ span ∈ i.loads s, ctx.admits i span) ∧ i.pointer? = none ∧ i.stores s = []
  pace := 1

section Schedulers

variable {ctx : Setting} {context : Schedule.Context} {long short : Program.BodySource}
  {counter r : Register} {inner start outer : Nat} {offset : Nat → Int} {code : Code}

/-- The increment of the vector tile. -/
theorem increment_vector (h : context.Fits ctx long short counter) :
    context.vector.tile.increment = long.w.lanes := by
  rw [h.vector.increment, h.long_kind]
  rfl

/-- The increment of the scalar tile. -/
theorem increment_scalar (h : context.Fits ctx long short counter) :
    context.scalar.tile.increment = 1 := by
  rw [h.scalar.increment, h.short_kind]
  rfl

/-- The state with the pointers where the registers have them. -/
theorem Through.at_pointer {position : Nat} {pointer : Nat → Address} {trace : Trace} {s : MachineState}
    (h : ctx.Through position trace s)
    (hpointer : ∀ (p : Nat) (q : Register), ctx.pointers[p]? = some q → s.words.get q = pointer p) :
    ctx.At position pointer trace s := by
  obtain ⟨_, hat⟩ := h
  exact { hat with pointer := hpointer }

/-- An instruction that accesses no numbers, and changes no register but those of the scheduler. -/
theorem Through.step {position : Nat} {trace : Trace} {s t : MachineState} {i : Instruction}
    (h : ctx.Through position trace s) (hloads : ∀ span ∈ i.loads s, ctx.admits i span)
    (hquiet : i.pointer? = none ∧ i.stores s = []) (hmemory : t.memory = s.memory)
    (hkept : ∀ x ∈ ctx.kept, t.words.get x.1 = s.words.get x.1) :
    ctx.Through position (trace ++ [(i, s)]) t := by
  obtain ⟨_, hat⟩ := h
  refine ⟨fun p => (ctx.pointers[p]?.map t.words.get).getD 0, hat.step hmemory (fun p q hq => ?_) hkept
    (by simpa [hquiet.2] using hloads) (by simpa [Quiet] using hquiet)⟩
  rw [hq, Option.map_some, Option.getD_some]

/-- **A body leads from column to column.** -/
theorem exists_bodyRun (hsound : ctx.Sound) {source : Program.BodySource} (hmatches : source.Matches ctx)
    {tile : Schedule.TileCode} (htile : tile.Walks ctx source) (hcode : tile.body = .ok code)
    {row column : Nat} {base : Nat → Address}
    (hpass : ctx.OnePass ⟨row * inner + column, tile.tile.increment⟩)
    (hplace : ∀ p < ctx.pointers.length, base p = ctx.place p (row * inner + column))
    {trace : Trace} {s : MachineState} (h : ctx.Through (row * inner + column) trace s)
    (hpointer : ∀ (p : Nat) (q : Register), ctx.pointers[p]? = some q → s.words.get q = base p) :
    ∃ trace' t, Runs code s trace' t ∧ trace'.length ≤ 1 * code.length ∧
      (∀ q : Register, q.val ∉ source.gprs → t.words.get q = s.words.get q) ∧
      row * inner + (column + tile.tile.increment) ≤ ctx.elements ∧
      ctx.Through (row * inner + (column + tile.tile.increment)) (trace ++ trace') t := by
  have hat := h.at_pointer fun p q hq =>
    (hpointer p q hq).trans (hplace p (List.getElem?_eq_some_iff.1 hq).1)
  obtain ⟨trace', t, hruns, hsteps, hwords, hat'⟩ :=
    At.exists_run hat hsound hmatches hpass htile.increment (htile.isBody code hcode)
  rw [Nat.one_mul, ← Nat.add_assoc]
  exact ⟨trace', t, hruns, hsteps, hwords, hpass.le, _, hat'⟩

/-- **A word of the argument block is read.** -/
theorem Argument.provides (hsound : ctx.Sound) {load : MemoryOperand → Instruction} {distance : Nat}
    {value : Address} (h : ctx.Argument load distance value)
    (hloads : ∀ m (s : MachineState), (load m).loads s = [⟨s.address m, 8⟩])
    (hquiet : ∀ m (s : MachineState), (load m).pointer? = none ∧ (load m).stores s = []) :
    (ctx.course context counter r inner start outer offset).Provides load distance value := by
  rintro row column trace s ⟨hle, _, hat⟩ m hm
  obtain ⟨block, hblock, hword, hreadable, hadmits⟩ := h
  obtain ⟨passes, hmemory, hpasses⟩ := hat.passes_le hle
  have haddress : s.address m = block + BitVec.ofNat 64 distance := by
    rw [MachineState.address_behind hm, hat.kept _ hblock]
  refine ⟨?_, ?_, hquiet m s⟩
  · rw [MachineState.load, haddress, ← hword, hmemory]
    exact Memory.readWord_congr fun b hb => hsound.read hpasses (hreadable b hb)
  · rw [hloads, haddress]
    simpa using hadmits m

/-- What the tile of a kind is made from. -/
theorem exists_source (hfits : context.Fits ctx long short counter) (hr : ctx.Spare long short r)
    (kind : BodyKind) : ∃ source : Program.BodySource, (context.tileOf kind).Walks ctx source ∧
      source.Matches ctx ∧ r.val ∉ source.gprs ∧ counter.val ∉ source.gprs := by
  cases kind with
  | vector =>
    exact ⟨long, hfits.vector, hfits.long_matches, hr.long_free, hfits.spare.long_free⟩
  | scalar =>
    exact ⟨short, hfits.scalar, hfits.short_matches, hr.short_free, hfits.spare.short_free⟩

variable (hsound : ctx.Sound) (hrows : ctx.Rows long.w.lanes inner)
  (hfits : context.Fits ctx long short counter) (hr : ctx.Spare long short r)
  (hne : counter ≠ r) (houter : 0 < outer) (hend : (start + outer) * inner ≤ ctx.elements)
include hrows hend

/-- What a scheduler does, by the positions of a call. -/
theorem triple_of_paced
    (h : Paced 1 (outer * (ctx.course context counter r inner start outer offset).columns)
      ((ctx.course context counter r inner start outer offset).At 0 0
        (ctx.shift (ctx.begins inner (start + 0)) 0) []) code
      ((ctx.course context counter r inner start outer offset).Reached outer 0)) :
    Triple (ctx.At (start * inner) (ctx.begins inner start)) code (code.length * (outer * inner))
      (ctx.Through ((start + outer) * inner)) := by
  have hpos := hrows.inner_pos
  refine Triple.weaken h (fun trace s hs => ⟨⟨?_, ?_⟩, ?_, by simp⟩) (le_of_eq ?_)
    fun trace s hs => hs.2
  · exact (Nat.mul_le_mul_right inner (Nat.le_add_right start outer)).trans hend
  · exact ⟨_, hs⟩
  · rw [Nat.add_zero, shift_zero]
    exact hs.pointer
  · have hcolumns : (ctx.course context counter r inner start outer offset).columns = inner :=
      Nat.max_eq_left hpos
    rw [hcolumns, Nat.one_mul, Nat.mul_comm]

include hsound

/-- A call has few rows, as its elements fit the memory. -/
theorem outer_lt : outer < 2 ^ 63 := by
  have hfits := hsound.fits
  have hle := Nat.le_mul_of_pos_right (start + outer) hrows.inner_pos
  omega

include hfits

/-- Where a body begins, there is a pass for it. -/
theorem onePass_of_begins {row column : Nat} (hrow : row < outer) {kind : BodyKind}
    (hbegins : (ctx.course context counter r inner start outer offset).Begins kind column) :
    column < inner ∧
      ctx.OnePass ⟨(start + row) * inner + column, (context.tileOf kind).tile.increment⟩ := by
  have hle : (start + row + 1) * inner ≤ ctx.elements :=
    (Nat.mul_le_mul_right inner (by omega)).trans hend
  have hincrement : (ctx.course context counter r inner start outer offset).increment .vector =
      long.w.lanes := increment_vector hfits
  cases kind with
  | vector =>
    obtain ⟨k, hk, rfl⟩ := hbegins
    rw [hincrement] at hk ⊢
    change k < inner / long.w.lanes at hk
    have hpass := hrows.onePass_vector hsound hle hk
    refine ⟨?_, ?_⟩
    · have hmul := Nat.mul_le_mul_right long.w.lanes (Nat.succ_le_of_lt hk)
      have hdiv := Nat.div_mul_le_self inner long.w.lanes
      have hpos := hrows.lanes_pos
      rw [Nat.succ_mul] at hmul
      omega
    · rwa [Schedule.Context.tileOf, increment_vector hfits]
  | scalar =>
    obtain ⟨hbehind, hlt⟩ := hbegins
    rw [hincrement] at hbehind
    refine ⟨hlt, ?_⟩
    rw [Schedule.Context.tileOf, increment_scalar hfits]
    exact hrows.onePass_scalar hsound hle hbehind hlt

include hr hne houter

/-- **The course of a call is sound** if the row offsets link the rows. -/
theorem sound_course (hlinks : ctx.Links inner start outer offset) :
    (ctx.course context counter r inner start outer offset).Sound where
  nodup := by
    refine List.nodup_cons.2 ⟨?_, List.nodup_cons.2 ⟨hfits.spare.not_pointer, hsound.nodup⟩⟩
    rw [List.mem_cons, not_or]
    exact ⟨hne.symm, hr.not_pointer⟩
  pointers := hfits.pointers
  register := hfits.register
  vector_pos := hrows.lanes_pos.trans_eq (increment_vector hfits).symm
  vector_lt := by
    have hle := long.w.lanes_le
    exact (increment_vector hfits).trans_lt (by omega)
  scalar := increment_scalar hfits
  outer_pos := houter
  outer_lt := outer_lt hsound hrows hend
  inner_lt := hrows.inner_lt
  pace_pos := Nat.one_pos
  place_add kind row column p hp := by
    obtain ⟨source, htile, -⟩ := exists_source hfits hr kind
    have hadvances := htile.advances p hp
    change ctx.shift _ (column + (context.tileOf kind).tile.increment) p = ctx.shift _ column p +
      BitVec.ofNat 64 (if (context.tileOf kind).tile.advances p then
        (context.tileOf kind).tile.increment * (context.tileOf kind).tile.elemSize else 0)
    rw [shift_add, hadvances, htile.elemSize, elementSize, Nat.mul_comm 4]
  place_next row hrow p hp := by
    have hlink := hlinks row hrow p hp
    change ctx.shift _ inner p + _ = ctx.shift (ctx.begins inner (start + (row + 1))) 0 p
    rwa [shift_zero]
  next row _ trace s hs := by
    have hposition : (start + (row + 1)) * inner + 0 = (start + row) * inner + inner := by
      rw [← Nat.add_assoc, Nat.succ_mul, Nat.add_zero]
    change (start + (row + 1)) * inner + 0 ≤ ctx.elements ∧ ctx.Through _ trace s
    rw [hposition]
    exact hs
  admits i s hkeeps hloads := by
    refine ⟨by simp [hloads], ?_⟩
    cases i <;> first | exact ⟨rfl, rfl⟩ | exact hkeeps.elim
  step row column trace s i hs hi hmemory hwords := by
    refine ⟨hs.1, hs.2.step hi.1 hi.2 hmemory fun x hx => hwords x.1 ?_⟩
    have hspare : ∀ q, ctx.Spare long short q → x.1 ≠ q := fun q hq heq =>
      hq.not_kept (heq ▸ List.mem_map.2 ⟨x, hx, rfl⟩)
    simp only [Schedule.Course.registers, course, List.mem_cons, not_or]
    exact ⟨hspare r hr, hspare counter hfits.spare, hsound.kept x hx⟩
  body kind code hcode row hrow column hbegins trace s hs hpointer := by
    obtain ⟨source, htile, hmatches, hr, hcounter⟩ := exists_source hfits hr kind
    obtain ⟨hlt, hpass⟩ := onePass_of_begins hsound hrows hfits hend hrow hbegins
    obtain ⟨trace', t, hruns, hsteps, hwords, hreached⟩ := exists_bodyRun hsound hmatches htile hcode
      hpass (fun p hp => (hrows.place p hp _ _ hlt).symm) hs.2 hpointer
    refine ⟨trace', t, hruns, hsteps, fun q hq => hwords q ?_, hreached⟩
    rcases List.mem_cons.1 hq with rfl | hq
    · exact hr
    rcases List.mem_cons.1 hq with rfl | hq
    · exact hcounter
    · exact hmatches.gprs q (.inl hq)

/-- **The rows of a static kernel.** -/
theorem triple_staticCode {rowOffsets : List Int} (hlen : rowOffsets.length = ctx.pointers.length)
    (hlinks : ctx.Links inner start outer (rowOffsets.getD · 0))
    (hcode : Schedule.staticCode context r.val ⟨outer, inner⟩ long.w.lanes rowOffsets = .ok code) :
    Triple (ctx.At (start * inner) (ctx.begins inner start)) code (code.length * (outer * inner))
      (ctx.Through ((start + outer) * inner)) := by
  rw [← increment_vector hfits] at hcode
  exact triple_of_paced hrows hend
    ((sound_course hsound hrows hfits hr hne houter hend hlinks).paced_staticCode hlen (fun _ => rfl)
      hcode)

/-- **The rows of a dynamic kernel.** -/
theorem triple_dynamicCode (hlinks : ctx.Links inner start outer offset)
    (houterWord : ctx.Argument (.loadWord r) ArgumentBlock.workAt (BitVec.ofNat 64 outer))
    (hinnerWord : ctx.Argument (.loadWord counter) (ArgumentBlock.workAt + 8) (BitVec.ofNat 64 inner))
    (hoffset : ∀ (p : Nat) (r : Register), ctx.pointers[p]? = some r →
      ctx.Argument (.addLoad r) (ArgumentBlock.rowsAt + p * 8) (BitVec.ofInt 64 (offset p)))
    (hcode : Schedule.dynamicCode context r.val = .ok code) :
    Triple (ctx.At (start * inner) (ctx.begins inner start)) code (code.length * (outer * inner))
      (ctx.Through ((start + outer) * inner)) :=
  triple_of_paced hrows hend
    ((sound_course hsound hrows hfits hr hne houter hend hlinks).paced_dynamicCode
      (houterWord.provides hsound (fun _ _ => rfl) fun _ _ => ⟨rfl, rfl⟩)
      (hinnerWord.provides hsound (fun _ _ => rfl) fun _ _ => ⟨rfl, rfl⟩)
      (fun p q hq => (hoffset p q hq).provides hsound (fun _ _ => rfl) fun _ _ => ⟨rfl, rfl⟩) hcode)

end Schedulers

end Setting

end Pointwise
