import Pointwise.Program.Value
import Pointwise.Proofs.Region.PassRun

/-!
# What a kernel walks over

While a kernel runs its rows, its state is determined by the position that it has come to: the
memory is the one behind the passes so far, every data pointer stands where its parameter has the
element for some position, and some registers keep their values. The inputs may overlap the outputs:
a pass loads all that it needs before it stores anything, so that it computes from the memory that the
passes before have left.

## Main definitions

* `Setting` — what a kernel call computes, from where and to where.
* `Setting.OnePass` — positions that a body can process at once.
* `Setting.process` — the memory behind a sequence of passes.
* `Setting.Sound` — what has to hold so that the call can go well.
* `Setting.Processes` — the pass of a call.
* `Setting.At` — the state of a call that has come to a position.
* `Machine.Respects`, `Machine.Staged` — a run whose instructions access only what they are admitted to,
  and one in stages.

## Main results

* `Setting.read_process` — passes change no byte outside of the outputs.
* `Setting.process_eq_storeAll` — passes store the values of the program for the inputs at the beginning.
* `Setting.Processes.covers_of_loads` — what a pass loads of an input with an element for every position.
* `Setting.At.step` — instructions that neither store nor move a pointer the wrong way.
-/

set_option autoImplicit false

namespace Pointwise

open Machine

namespace Machine

/-- A run whose instructions access only what they are admitted to. -/
def Respects (admits : Instruction → Span → Prop) (trace : Trace) : Prop :=
  ∀ v ∈ trace, ∀ span ∈ v.1.loads v.2 ++ v.1.stores v.2, admits v.1 span

variable {admits : Instruction → Span → Prop}

@[simp] theorem respects_nil : Respects admits [] := fun v hv => by simp at hv

@[simp] theorem respects_append {trace trace' : Trace} :
    Respects admits (trace ++ trace') ↔ Respects admits trace ∧ Respects admits trace' :=
  List.forall_mem_append

@[simp] theorem respects_cons {i : Instruction} {s : MachineState} {trace : Trace} :
    Respects admits ((i, s) :: trace) ↔
      (∀ span ∈ i.loads s ++ i.stores s, admits i span) ∧ Respects admits trace :=
  List.forall_mem_cons

/-- What such a run writes, an instruction is admitted to. -/
theorem Respects.of_mem_storesOf {trace : Trace} (h : Respects admits trace) {span : Span}
    (hspan : span ∈ storesOf trace) : ∃ i, admits i span := by
  obtain ⟨v, hv, hspan⟩ := List.mem_flatMap.1 hspan
  exact ⟨v.1, h v hv span (List.mem_append_right _ hspan)⟩

/-- Instructions may be admitted to more. -/
theorem Respects.mono {admits' : Instruction → Span → Prop} {trace : Trace} (h : Respects admits trace)
    (hle : ∀ i span, admits i span → admits' i span) : Respects admits' trace :=
  fun v hv span hspan => hle v.1 span (h v hv span hspan)

/-- A run that may not access numbers does not do so. -/
theorem Respects.pointer?_eq_none {trace : Trace} (h : Respects admits trace)
    (hadmits : ∀ i span, admits i span → i.pointer? = none) : ∀ v ∈ trace, v.1.pointer? = none := by
  intro v hv
  cases haccess : v.1.loads v.2 ++ v.1.stores v.2 with
  | nil =>
    obtain ⟨hloads, hstores⟩ := List.append_eq_nil_iff.1 haccess
    exact Instruction.pointer?_eq_none hloads hstores
  | cons span spans => exact hadmits v.1 span (h v hv span (haccess ▸ List.mem_cons_self))

/-- A run in stages, each of which accesses only what it is admitted to. -/
def Staged (stage : (k : Nat) → Instruction → Span → Prop) (stages : Nat) (trace : Trace) : Prop :=
  ∃ parts : List Trace, parts.length = stages ∧ trace = parts.flatten ∧
    ∀ (k : Nat) (part : Trace), parts[k]? = some part → Respects (stage k) part

section Staged

variable {stage : (k : Nat) → Instruction → Span → Prop} {stages : Nat} {trace trace' : Trace}

theorem staged_zero : Staged stage 0 [] := ⟨[], rfl, rfl, fun k part h => by simp at h⟩

/-- The next stage. -/
theorem Staged.concat (h : Staged stage stages trace) (h' : Respects (stage stages) trace') :
    Staged stage (stages + 1) (trace ++ trace') := by
  obtain ⟨parts, rfl, rfl, hparts⟩ := h
  refine ⟨parts ++ [trace'], by simp, by simp, fun k part hk => ?_⟩
  rw [List.getElem?_append] at hk
  split at hk
  · exact hparts k part hk
  · obtain ⟨hlt, rfl⟩ := List.getElem?_eq_some_iff.1 hk
    obtain rfl : k = parts.length := by
      rw [List.length_singleton] at hlt
      omega
    simpa using h'

/-- Each instruction belongs to a stage. -/
theorem Staged.exists_stage (h : Staged stage stages trace) {v : Instruction × MachineState}
    (hv : v ∈ trace) : ∃ k < stages, ∀ span ∈ v.1.loads v.2 ++ v.1.stores v.2, stage k v.1 span := by
  obtain ⟨parts, rfl, rfl, hparts⟩ := h
  obtain ⟨part, hpart, hv⟩ := List.mem_flatten.1 hv
  obtain ⟨k, hk⟩ := List.mem_iff_getElem?.1 hpart
  obtain ⟨hlt, -⟩ := List.getElem?_eq_some_iff.1 hk
  exact ⟨k, hlt, hparts k part hk v hv⟩

/-- Instructions of stages access what some stage admits them to. -/
theorem Staged.respects (h : Staged stage stages trace) :
    Respects (fun i span => ∃ k, stage k i span) trace := fun _ hv span hspan => by
  obtain ⟨k, -, hstage⟩ := h.exists_stage hv
  exact ⟨k, hstage span hspan⟩

end Staged

end Machine

/-- What a kernel call computes, from where and to where. -/
structure Setting where
  program : Program
  /-- The first position of the pass that a position belongs to. -/
  start : Nat → Nat
  /-- The addresses of the outputs. -/
  targets : List Address
  /-- The registers of the data pointers, inputs first. -/
  pointers : List Register
  /-- Where a parameter has the element for a position. -/
  place : (param position : Nat) → Address
  /-- Whether the pointer of a parameter moves along a row. -/
  moves : (param : Nat) → Bool
  /-- The number of positions. -/
  elements : Nat
  /-- The position at which the call begins. -/
  first : Nat
  /-- The memory at this point. -/
  memory : Memory
  /-- Registers that keep their values. -/
  kept : List (Register × Address)
  /-- Bytes that stay as they are: those of the call's arguments. -/
  readable : Address → Prop
  /-- What an instruction of the call may access. -/
  admits : Instruction → Span → Prop

namespace Setting

/-- Positions that a body can process at once: they belong to one pass of the reading, and the
elements of every input follow each other or are the same. -/
structure OnePass (ctx : Setting) (pass : Pass) : Prop where
  le : pass.first + pass.width ≤ ctx.elements
  start : ∀ j < pass.width, ctx.start (pass.first + j) = pass.first
  place : ∀ p < ctx.program.inputs, ∀ j < pass.width, ctx.place p (pass.first + j) =
    ctx.place p pass.first + BitVec.ofNat 64 (if ctx.moves p then 4 * j else 0)

/-! ## What passes leave in memory -/

section Process

variable (ctx : Setting)

/-- What the program finds at each position in a memory. -/
def reading (memory : Memory) : Reading :=
  ⟨.vector, ctx.start, fun p f => memory.readNumber (ctx.place p f)⟩

@[simp] theorem reading_start (memory : Memory) : (ctx.reading memory).start = ctx.start := rfl

@[simp] theorem reading_input (memory : Memory) (p f : Nat) :
    (ctx.reading memory).input p f = memory.readNumber (ctx.place p f) :=
  rfl

/-- The outputs, with the values for the inputs that a memory holds. -/
def outputs (memory : Memory) : List Target :=
  List.zipWith (fun start value => ⟨start, ctx.program.valueAt (ctx.reading memory) value⟩) ctx.targets
    ctx.program.outputs

/-- The memory behind a sequence of passes. Each of them finds the inputs as the passes before have
left them. -/
def process (passes : List Pass) (memory : Memory) : Memory :=
  passes.foldl (fun memory pass => Pass.store (ctx.outputs memory) memory pass) memory

theorem process_append (passes passes' : List Pass) (memory : Memory) :
    ctx.process (passes ++ passes') memory = ctx.process passes' (ctx.process passes memory) :=
  List.foldl_append

theorem process_cons (pass : Pass) (passes : List Pass) (memory : Memory) :
    ctx.process (pass :: passes) memory =
      ctx.process passes (Pass.store (ctx.outputs memory) memory pass) :=
  rfl

variable {ctx}

/-- There are as many outputs as addresses. -/
theorem length_outputs (hlength : ctx.targets.length = ctx.program.outputs.length) (memory : Memory) :
    (ctx.outputs memory).length = ctx.program.outputs.length := by
  simp [outputs, hlength]

/-- Outputs lie at the addresses of the call, whatever their values. -/
theorem map_start_outputs (hlength : ctx.targets.length = ctx.program.outputs.length)
    (memory : Memory) : (ctx.outputs memory).map (·.start) = ctx.targets := by
  refine List.ext_getElem ?_ fun i _ _ => ?_
  · rw [List.length_map, length_outputs hlength, hlength]
  · simp [outputs]

theorem start_mem_targets {memory : Memory} {target : Target} (h : target ∈ ctx.outputs memory) :
    target.start ∈ ctx.targets := by
  obtain ⟨i, hi, rfl⟩ := List.getElem_of_mem h
  simp only [outputs, List.getElem_zipWith]
  exact List.getElem_mem _

/-- **Passes change no byte outside of the outputs.** -/
theorem read_process {passes : List Pass}
    (hpasses : ∀ pass ∈ passes, pass.first + pass.width ≤ ctx.elements) {memory : Memory} {a : Address}
    (h : ∀ target ∈ ctx.targets, ¬ Span.Covers ⟨target, 4 * ctx.elements⟩ a) :
    (ctx.process passes memory).read a = memory.read a := by
  induction passes generalizing memory with
  | nil => rfl
  | cons pass passes ih =>
    rw [process_cons, ih fun q hq => hpasses q (List.mem_cons_of_mem _ hq)]
    refine Pass.read_store fun target htarget hcovers => ?_
    have hwithin := Pass.span_within (hpasses pass List.mem_cons_self) target
    exact h _ (start_mem_targets htarget) (hwithin a hcovers)

/-- A pass stores the values for elements that it finds. -/
theorem store_eq_of_reads {input : (param position : Nat) → Binary32} {pass : Pass}
    (hpass : ctx.OnePass pass) {memory : Memory} (hinput : ∀ p < ctx.program.inputs,
      ∀ f, pass.Covers f → memory.readNumber (ctx.place p f) = input p f) :
    Pass.store (ctx.outputs memory) memory pass = Pass.store (List.zipWith (fun start value =>
      ⟨start, ctx.program.valueAt ⟨.vector, ctx.start, input⟩ value⟩) ctx.targets ctx.program.outputs)
        memory pass := by
  refine Pass.store_congr (List.forall₂_iff_get.2 ⟨by simp [outputs], fun k hk _ => ?_⟩) memory
  simp only [outputs, List.length_zipWith, lt_min_iff] at hk
  simp only [outputs, List.get_eq_getElem, List.getElem_zipWith, true_and]
  intro i hi
  refine Program.valueAt_congr pass.Covers ?_ ?_ (fun f hf => ?_) ?_ _
    ⟨Nat.le_add_right _ _, Nat.add_lt_add_left hi _⟩
  · rfl
  · rfl
  · obtain ⟨j, rfl⟩ := Nat.exists_eq_add_of_le hf.1
    have hj : j < pass.width := Nat.lt_of_add_lt_add_left hf.2
    rw [reading_start, hpass.start j hj]
    exact ⟨le_rfl, Nat.lt_add_of_pos_right (Nat.zero_lt_of_lt hj)⟩
  · exact hinput

/-- **Passes store the values for the inputs at the beginning** if what is written for a position are no
bytes of inputs for other positions. An input may lie in the place of an output: its elements have been
loaded when they are overwritten.

**Proof sketch.** Induction on the passes: a pass leaves the elements alone that the passes behind it
need. -/
theorem process_eq_storeAll {input : (param position : Nat) → Binary32}
    (hapart : ∀ p < ctx.program.inputs, ∀ f < ctx.elements, ∀ g < ctx.elements, f ≠ g →
      ∀ target ∈ ctx.targets,
        Span.Disjoint ⟨ctx.place p f, 4⟩ ⟨target + BitVec.ofNat 64 (4 * g), 4⟩)
    {first stop : Nat} {passes : List Pass} (htiles : Pass.Tiles first passes stop)
    (hstop : stop ≤ ctx.elements) (hpasses : ∀ pass ∈ passes, ctx.OnePass pass) {memory : Memory}
    (hinput : ∀ p < ctx.program.inputs, ∀ f, first ≤ f ∧ f < stop →
      memory.readNumber (ctx.place p f) = input p f) :
    ctx.process passes memory = Pass.storeAll (List.zipWith (fun start value =>
      ⟨start, ctx.program.valueAt ⟨.vector, ctx.start, input⟩ value⟩) ctx.targets ctx.program.outputs)
        passes memory := by
  induction htiles generalizing memory with
  | nil => rfl
  | @cons first width stop passes htiles ih =>
    have hle := htiles.le
    have hstore := store_eq_of_reads (hpasses ⟨first, width⟩ List.mem_cons_self) fun p hp f hf =>
      hinput p hp f ⟨hf.1, hf.2.trans_le hle⟩
    have hread : ∀ p < ctx.program.inputs, ∀ f, first + width ≤ f ∧ f < stop →
        (Pass.store (ctx.outputs memory) memory ⟨first, width⟩).readNumber (ctx.place p f) =
          input p f := by
      intro p hp f hf
      rw [← hinput p hp f ⟨(Nat.le_add_right _ _).trans hf.1, hf.2⟩]
      refine Memory.readNumber_congr fun a ha => Pass.read_store fun target htarget hcovers => ?_
      obtain ⟨g, ⟨-, hg⟩, hcovers⟩ := Pass.exists_position hcovers
      have hlt : g < first + width := hg
      exact hapart p hp f (by omega) g (by omega) (by omega) _ (start_mem_targets htarget) a ha hcovers
    rw [process_cons, ih hstop (fun pass hpass => hpasses pass (List.mem_cons_of_mem _ hpass)) hread,
      hstore]
    rfl

end Process

/-- What has to hold so that a call can go well. -/
structure Sound (ctx : Setting) : Prop where
  length_pointers : ctx.pointers.length = ctx.program.params
  nodup : ctx.pointers.Nodup
  kept : ∀ x ∈ ctx.kept, x.1 ∉ ctx.pointers
  length_targets : ctx.targets.length = ctx.program.outputs.length
  fits : 4 * ctx.elements ≤ 2 ^ 64
  /-- The outputs are not read. -/
  not_readable : ∀ a, ctx.readable a → ∀ target ∈ ctx.targets,
    ¬ Span.Covers ⟨target, 4 * ctx.elements⟩ a
  /-- The elements of the outputs follow each other. -/
  output : ∀ (k : Nat) (target : Address), ctx.targets[k]? = some target → ∀ f < ctx.elements,
    ctx.place (ctx.program.inputs + k) f = target + BitVec.ofNat 64 (4 * f)
  /-- Single elements of the inputs may be loaded through their pointers. -/
  load : ∀ p < ctx.program.inputs, ∀ q : Register, ctx.pointers[p]? = some q → ∀ f < ctx.elements,
    ∀ d : Register, ctx.admits (.loadLane d q) ⟨ctx.place p f, 4⟩ ∧
      ∀ w : VectorWidth, ctx.admits (.splatLoad w d q) ⟨ctx.place p f, 4⟩
  /-- The elements of a pass may be loaded at once if the pointer moves. -/
  loadVector : ∀ p < ctx.program.inputs, ∀ q : Register, ctx.pointers[p]? = some q →
    ctx.moves p = true → ∀ (w : VectorWidth) (d : Register) (f : Nat), f + w.lanes ≤ ctx.elements →
      (∀ j < w.lanes, ctx.start (f + j) = f) →
      ctx.admits (.loadVector w d q) ⟨ctx.place p f, 4 * w.lanes⟩
  /-- The elements of the outputs may be stored through their pointers. -/
  store : ∀ (k : Nat) (q : Register) (target : Address),
    ctx.pointers[ctx.program.inputs + k]? = some q → ctx.targets[k]? = some target →
      ∀ (r : Register) (f : Nat),
        (f < ctx.elements → ctx.admits (.storeLane q r) ⟨target + BitVec.ofNat 64 (4 * f), 4⟩) ∧
        ∀ w : VectorWidth, f + w.lanes ≤ ctx.elements →
          ctx.admits (.storeVector w q r) ⟨target + BitVec.ofNat 64 (4 * f), 4 * w.lanes⟩

/-- The pass of a call: it loads an element of each input that it needs, or those for all of its positions
if the input moves along the row. -/
structure Processes (ctx : Setting) (run : PassRun) : Prop extends
    run.Body ctx.program ctx.targets where
  pass : ctx.OnePass run.pass
  pos : 0 < run.pass.width
  loads : ∀ v ∈ run.loading, ∀ q, v.1.pointer? = some q →
    ∃ p < ctx.program.inputs, ctx.pointers[p]? = some q ∧
      v.1.loads v.2 = [⟨ctx.place p run.pass.first, 4 * if ctx.moves p then run.pass.width else 1⟩]

/-- The bytes of the elements of inputs for the positions from `first` to `stop`. -/
def Needs (ctx : Setting) (first stop : Nat) (a : Address) : Prop :=
  ∃ p < ctx.program.inputs, ∃ f, (first ≤ f ∧ f < stop) ∧ Span.Covers ⟨ctx.place p f, 4⟩ a

/-- **What a pass loads** are elements for its positions. -/
theorem Processes.needs {ctx : Setting} {run : PassRun} (h : ctx.Processes run)
    {v : Instruction × MachineState} (hv : v ∈ run.trace) (hpointer : v.1.pointer? ≠ none) {span : Span}
    (hspan : span ∈ v.1.loads v.2) {a : Address} (ha : span.Covers a) :
    ctx.Needs run.pass.first (run.pass.first + run.pass.width) a := by
  simp only [PassRun.trace, List.mem_append] at hv
  rcases hv with hv | hv | hv
  · exact absurd (h.leading v hv).1 hpointer
  · obtain ⟨q, hq⟩ := Option.ne_none_iff_exists'.1 hpointer
    obtain ⟨p, hp, -, hloads⟩ := h.loads v hv q hq
    obtain rfl := List.mem_singleton.1 (hloads ▸ hspan)
    have hpos := h.pos
    -- the element that the byte belongs to
    obtain ⟨i, hi, rfl⟩ := ha
    obtain ⟨j, hj, hplace⟩ : ∃ j < run.pass.width, ctx.place p run.pass.first + BitVec.ofNat 64 i =
        ctx.place p (run.pass.first + j) + BitVec.ofNat 64 (i % 4) := by
      have hplace := h.pass.place p hp (i / 4)
      cases hmoves : ctx.moves p with
      | true =>
        simp only [hmoves, if_true] at hi hplace
        refine ⟨i / 4, by omega, ?_⟩
        rw [hplace (by omega), Span.add_ofNat_add, Nat.div_add_mod]
      | false =>
        simp only [hmoves, Bool.false_eq_true, if_false, Nat.mul_one] at hi
        refine ⟨0, hpos, ?_⟩
        rw [Nat.add_zero, Nat.mod_eq_of_lt hi]
    exact ⟨p, hp, _, ⟨Nat.le_add_right _ _, Nat.add_lt_add_left hj _⟩, i % 4,
      Nat.mod_lt _ (by decide), hplace⟩
  · rw [h.storing v hv] at hspan
    cases hspan

/-- **A pass loads elements for its own positions only** from an input that has an element of its own for
every position. -/
theorem Processes.covers_of_loads {ctx : Setting} {run : PassRun} (h : ctx.Processes run)
    (hnodup : ctx.pointers.Nodup) (hfits : 4 * ctx.elements ≤ 2 ^ 64) {p : Nat} {q : Register}
    (hq : ctx.pointers[p]? = some q) {source : Address}
    (hplace : ∀ f < ctx.elements, ctx.place p f = source + BitVec.ofNat 64 (4 * f)) {e : Nat}
    (he : e < ctx.elements) (hloads : run.Loads q source e) : run.pass.Covers e := by
  obtain ⟨v, hv, hpointer, span, hspan, hcommon⟩ := hloads
  obtain ⟨p', -, hq', hspans⟩ := h.loads v hv q hpointer
  obtain ⟨hlt, -⟩ := List.getElem?_eq_some_iff.1 hq
  obtain rfl : p = p' := (List.getElem?_inj hlt hnodup).1 (hq.trans hq'.symm)
  obtain rfl := List.mem_singleton.1 (hspans ▸ hspan)
  have hpos := h.pos
  have hle := h.pass.le
  rw [hplace _ (by omega)] at hcommon
  have hwidth : (if ctx.moves p then run.pass.width else 1) ≤ run.pass.width := by
    split <;> omega
  by_contra hcovers
  refine hcommon fun a ha ha' => ?_
  have hwithin : Span.Covers ⟨source + BitVec.ofNat 64 (4 * run.pass.first), 4 * run.pass.width⟩ a :=
    Span.within_of_length_le (Nat.mul_le_mul_left 4 hwidth) a ha
  -- the byte belongs to an element for a position of the pass
  obtain ⟨f, hf, hbyte⟩ := Pass.exists_position hwithin
  have hne : f ≠ e := by
    rintro rfl
    exact hcovers hf
  exact Pass.disjoint_numbers hfits (by omega) he hne source a hbyte ha'

/-- The state of a call that has come to a position. -/
structure At (ctx : Setting) (position : Nat) (pointer : Nat → Address) (trace : Trace)
    (s : MachineState) : Prop where
  /-- The call has come there pass by pass, and the memory is the one behind these passes. -/
  passes : ∃ runs : List PassRun, Pass.Tiles ctx.first (runs.map (·.pass)) position ∧
    s.memory = ctx.process (runs.map (·.pass)) ctx.memory ∧ PassRun.Split ctx.Processes runs trace
  pointer : ∀ (p : Nat) (r : Register), ctx.pointers[p]? = some r → s.words.get r = pointer p
  kept : ∀ x ∈ ctx.kept, s.words.get x.1 = x.2
  accesses : Respects ctx.admits trace

variable {ctx : Setting}

/-- **What the call may read stays as it is.** -/
theorem Sound.read (hsound : ctx.Sound) {passes : List Pass}
    (hpasses : ∀ pass ∈ passes, pass.first + pass.width ≤ ctx.elements) {a : Address}
    (ha : ctx.readable a) :
    (ctx.process passes ctx.memory).read a = ctx.memory.read a :=
  read_process hpasses (hsound.not_readable a ha)

section Step

variable {position : Nat} {pointer pointer' : Nat → Address} {trace trace' : Trace}
  {s t : MachineState}

/-- **Instructions that do not store.** The memory and the kept registers stay, and the pointers are
accounted for. -/
theorem At.step (h : ctx.At position pointer trace s) (hmemory : t.memory = s.memory)
    (hpointer : ∀ (p : Nat) (r : Register), ctx.pointers[p]? = some r → t.words.get r = pointer' p)
    (hkept : ∀ x ∈ ctx.kept, t.words.get x.1 = s.words.get x.1)
    (haccesses : Respects ctx.admits trace') (hquiet : Quiet trace') :
    ctx.At position pointer' (trace ++ trace') t where
  passes := by
    obtain ⟨runs, htiles, hmem, hsplit⟩ := h.passes
    exact ⟨runs, htiles, hmemory.trans hmem, hsplit.step hquiet⟩
  pointer := hpointer
  kept x hx := (hkept x hx).trans (h.kept x hx)
  accesses := respects_append.2 ⟨h.accesses, haccesses⟩

/-- The passes so far stay within the outputs. -/
theorem At.passes_le (h : ctx.At position pointer trace s) (hle : position ≤ ctx.elements) :
    ∃ passes, s.memory = ctx.process passes ctx.memory ∧
      ∀ pass ∈ passes, pass.first + pass.width ≤ ctx.elements := by
  obtain ⟨runs, htiles, hmem, -⟩ := h.passes
  exact ⟨_, hmem, fun pass hpass => (htiles.within pass hpass).2.trans hle⟩

/-- **What a call has loaded** are elements for the positions that it has processed. -/
theorem At.needs (h : ctx.At position pointer trace s) {v : Instruction × MachineState} (hv : v ∈ trace)
    (hpointer : v.1.pointer? ≠ none) {span : Span} (hspan : span ∈ v.1.loads v.2) {a : Address}
    (ha : span.Covers a) : ctx.Needs ctx.first position a := by
  obtain ⟨runs, htiles, -, rest, rfl, hrest, hruns⟩ := h.passes
  rcases List.mem_append.1 hv with hv | hv
  · obtain ⟨run, hrun, hv⟩ := List.mem_flatMap.1 hv
    obtain ⟨p, hp, f, ⟨hfirst, hstop⟩, hcovers⟩ := (hruns run hrun).needs hv hpointer hspan ha
    obtain ⟨hle, hle'⟩ := htiles.within _ (List.mem_map_of_mem hrun)
    exact ⟨p, hp, f, ⟨hle.trans hfirst, hstop.trans_le hle'⟩, hcovers⟩
  · exact absurd (hrest v hv).1 hpointer

/-- **What a call has stored** are the bytes of its passes. -/
theorem At.storesOf (h : ctx.At position pointer trace s) :
    ∃ passes, Pass.Tiles ctx.first passes position ∧
      storesOf trace = passes.flatMap fun pass => ctx.targets.map pass.bytes := by
  obtain ⟨runs, htiles, -, hsplit⟩ := h.passes
  exact ⟨_, htiles, hsplit.storesOf fun run hrun => hrun.toBody⟩

end Step

end Setting

end Pointwise
