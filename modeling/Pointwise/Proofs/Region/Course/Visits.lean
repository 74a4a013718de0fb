import Mathlib.Data.Fintype.Card
import Pointwise.Proofs.Machine.Writes
import Pointwise.Proofs.Offset.Block
import Pointwise.Proofs.Region.Course.Rows
import Pointwise.Proofs.Region.DynamicLimits

/-!
# The visits of a scheduler

The code of a scheduler with static work amounts and the code of one with dynamic work amounts run the
same bodies, in the same order and with the same data pointers. Which bodies these are is said by the work
amounts alone: in each row as many vector passes as fit, then a scalar pass for each column that remains.

What the bodies do is left open. They have to run through, and to leave the data pointers, the counts and
whatever else they rely on as these are.

## Main definitions

* `Schedule.Job` — what a scheduler has to do.
* `Schedule.Job.visits` — the runs of bodies that make it up.
* `Schedule.Job.Carries` — a run of code that makes a list of visits.
* `Schedule.Job.Performs` — code that runs through and makes the visits of a job.
* `Schedule.Job.Obeyed` — what is asked of the bodies.
* `Schedule.Job.Given` — an argument block with the work amounts.

## Main results

* `Schedule.Job.obeyed_of_plain` — bodies without branches do what is asked of them.
* `Schedule.Job.sound_course` — the visits column by column are a sound course.
* `Schedule.Job.static_dynamic_perform` — both codes perform the job.
-/

set_option autoImplicit false

namespace Pointwise

open Machine

/-- No code visits nothing. -/
theorem Machine.Runs.eq_nil {s t : MachineState} {trace : Trace} (h : Runs [] s trace t) :
    trace = [] := by
  cases h [] [] with
  | refl => rfl
  | cons hi _ _ => simp at hi

namespace Schedule

/-- A run of the body of a tile: which one it is, and where the data pointers are when it begins. -/
structure Visit where
  kind : BodyKind
  pointers : List Address
  deriving DecidableEq

/-- What a scheduler has to do: the bodies of a vector tile and of a tile for single elements, which have
the same parameters, the registers, the work amounts and the row offsets. -/
structure Job where
  bodies : BodyKind → Code
  /-- The increment of the vector tile. -/
  lanes : Nat
  inputs : Nat
  /-- The last dimension of every parameter. -/
  dims : List Nat
  elemSize : Nat
  pointers : List Register
  outerRegister : Register
  innerRegister : Register
  work : WorkAmounts
  rowOffsets : List Int

namespace Job

/-- The tiles of a job, with its registers. -/
def context (job : Job) : Context where
  vector := ⟨⟨job.lanes, job.inputs, job.dims, job.elemSize⟩, .ok (job.bodies .vector)⟩
  scalar := ⟨⟨1, job.inputs, job.dims, job.elemSize⟩, .ok (job.bodies .scalar)⟩
  pointers := job.pointers.map (·.val)
  innerRegister := job.innerRegister.val

/-! ## The visits of a job -/

/-- Zero for an input whose last dimension is one, and one for all other parameters. -/
def factor (job : Job) (p : Nat) : Nat := if p < job.inputs ∧ job.dims[p]? = some 1 then 0 else 1

/-- Where the pointer of a parameter is at an element of a row, from where it begins. -/
def address (job : Job) (start : Address) (row element p : Nat) : Address :=
  start + BitVec.ofInt 64 (row * (job.factor p * job.work.inner * job.elemSize +
    job.rowOffsets.getD p 0) + job.factor p * element * job.elemSize)

/-- The visit of a body at an element of a row, from the state in which the job begins. -/
def visit (job : Job) (s : MachineState) (kind : BodyKind) (row element : Nat) : Visit :=
  ⟨kind, job.pointers.zipIdx.map fun (r, p) => job.address (s.words.get r) row element p⟩

/-- The vector passes of a row, up to a number of them. -/
def vectorVisits (job : Job) (s : MachineState) (row passes : Nat) : List Visit :=
  (List.range passes).map fun k => job.visit s .vector row (k * job.lanes)

/-- The scalar passes behind them, up to a number of them. -/
def scalarVisits (job : Job) (s : MachineState) (row passes : Nat) : List Visit :=
  (List.range passes).map fun k =>
    job.visit s .scalar row (job.work.inner / job.lanes * job.lanes + k)

/-- **The visits of a job**: in each row as many vector passes as fit, then scalar passes for what
remains. -/
def visits (job : Job) (s : MachineState) : List Visit :=
  (List.range job.work.outer).flatMap fun row =>
    job.vectorVisits s row (job.work.inner / job.lanes) ++
      job.scalarVisits s row (job.work.inner % job.lanes)

/-! ## Code that performs a job -/

/-- **A run from a state that makes a list of visits**, with the state to which it comes. Each visit is a run
of a body from the state that is reached, with the data pointers that it says; in between the counts are
kept, pointers are moved, and branches are taken, which have no effect on the state. -/
inductive Carries (job : Job) (start : MachineState) : Trace → List Visit → MachineState → Prop
  | nil : Carries job start [] [] start
  | keep {trace : Trace} {visits : List Visit} {i : Instruction} {s : MachineState}
      (h : Carries job start trace visits s)
      (hi : Keeps job.outerRegister job.innerRegister job.pointers i) :
      Carries job start (trace ++ [(i, s)]) visits (i.exec s)
  | body {trace trace' : Trace} {visits : List Visit} {kind : BodyKind} {s t : MachineState}
      (h : Carries job start trace visits s) (hruns : Runs (job.bodies kind) s trace' t) :
      Carries job start (trace ++ trace') (visits ++ [⟨kind, job.pointers.map s.words.get⟩]) t

/-- Code that runs through from a state and makes the visits of a job. -/
def Performs (job : Job) (code : Code) (s : MachineState) : Prop :=
  ∃ trace t, Runs code s trace t ∧ job.Carries s trace (job.visits s) t

/-! ## What is asked of a job -/

/-- Work amounts and operands that stay in range, with registers of their own. -/
structure Proper (job : Job) : Prop where
  lanes_pos : 0 < job.lanes
  /-- A vector pass moves a pointer by a number of bytes that fits an instruction. -/
  bytes_lt : job.lanes * job.elemSize < 2 ^ 31
  /-- So does the increment; this is known unless elements have no bytes. -/
  lanes_lt : 0 < job.elemSize ∨ job.lanes < 2 ^ 31
  outer_pos : 0 < job.work.outer
  outer_lt : job.work.outer < 2 ^ 63
  inner_lt : job.work.inner < 2 ^ 63
  length_dims : job.dims.length = job.pointers.length
  length_rowOffsets : job.rowOffsets.length = job.pointers.length
  rowOffsets : ∀ x ∈ job.rowOffsets, FitsImmediate x
  nodup : (job.outerRegister :: job.innerRegister :: job.pointers).Nodup

/-- A condition that the scheduler cannot break: it depends on the memory and on registers that do not
belong to the scheduler. -/
def Stable (job : Job) (intact : MachineState → Prop) : Prop :=
  ∀ s t, t.memory = s.memory →
    (∀ r, r ∉ job.outerRegister :: job.innerRegister :: job.pointers →
      t.words.get r = s.words.get r) → intact s → intact t

/-- The bodies run through at every visit of a job, in a limited number of steps. They leave the data
pointers and the counts alone, and keep a condition. -/
def Obeyed (job : Job) (limit : Nat) (start : MachineState) (intact : MachineState → Prop) : Prop :=
  ∀ visit ∈ job.visits start, ∀ s, intact s → job.pointers.map s.words.get = visit.pointers →
    ∃ trace t, Runs (job.bodies visit.kind) s trace t ∧ trace.length ≤ limit ∧
      (∀ r ∈ job.outerRegister :: job.innerRegister :: job.pointers,
        t.words.get r = s.words.get r) ∧ intact t

/-- The word at a distance in the argument block. -/
def argument (s : MachineState) (distance : Nat) : BitVec 64 :=
  s.memory.readWord (s.words.get .blockArgument + BitVec.ofNat 64 distance)

/-- The argument block holds the work amounts and the row offsets. -/
structure Given (job : Job) (s : MachineState) : Prop where
  outer : argument s ArgumentBlock.workAt = BitVec.ofNat 64 job.work.outer
  inner : argument s (ArgumentBlock.workAt + 8) = BitVec.ofNat 64 job.work.inner
  rowOffsets : ∀ p < job.pointers.length, argument s (ArgumentBlock.rowsAt + p * 8) =
    BitVec.ofInt 64 (job.rowOffsets.getD p 0)

/-- The argument block is given where it was given at the start. -/
def Finds (job : Job) (start s : MachineState) : Prop :=
  job.Given s ∧ s.words.get .blockArgument = start.words.get .blockArgument

/-! ## Bodies without branches -/

section Plain

variable {job : Job} (hparams : job.pointers.length ≤ maxParams)
include hparams

/-- What is given stays given as long as the argument block is left alone. -/
theorem Given.congr {s t : MachineState} (h : job.Given s)
    (hword : t.words.get .blockArgument = s.words.get .blockArgument)
    (hread : ∀ a, Span.Covers ⟨s.words.get .blockArgument, ArgumentBlock.byteSize⟩ a →
      t.memory.read a = s.memory.read a) : job.Given t := by
  have hargument : ∀ distance, distance + 8 ≤ ArgumentBlock.byteSize →
      argument t distance = argument s distance := by
    intro distance hle
    rw [argument, argument, hword]
    exact Memory.readWord_congr fun a ha => hread a (Span.within_of_le hle a ha)
  refine ⟨(hargument _ (by decide)).trans h.outer, (hargument _ (by decide)).trans h.inner,
    fun p hp => (hargument _ ?_).trans (h.rowOffsets p hp)⟩
  have hsize : ArgumentBlock.rowsAt + maxParams * 8 ≤ ArgumentBlock.byteSize := by decide
  omega

/-- The scheduler leaves the argument block alone. -/
theorem stable_finds
    (hblock : .blockArgument ∉ job.outerRegister :: job.innerRegister :: job.pointers)
    (start : MachineState) : job.Stable (job.Finds start) := by
  refine fun s t hmemory hwords h => ⟨h.1.congr hparams (hwords _ hblock) fun _ _ => ?_,
    (hwords _ hblock).trans h.2⟩
  rw [hmemory]

/-- **Bodies without branches** do what is asked of them if they write neither to the registers of the
scheduler nor to the argument block. -/
theorem obeyed_of_plain {limit : Nat} {start : MachineState}
    (hplain : ∀ kind, ∀ i ∈ job.bodies kind, i.Plain)
    (hlimit : ∀ kind, (job.bodies kind).length ≤ limit)
    (hwrites : ∀ kind, ∀ i ∈ job.bodies kind,
      ∀ r ∈ .blockArgument :: job.outerRegister :: job.innerRegister :: job.pointers, r ∉ i.writes)
    (hstores : ∀ visit ∈ job.visits start, ∀ s, job.pointers.map s.words.get = visit.pointers →
      ∀ span ∈ storesOf (traceAll (job.bodies visit.kind) s),
        span.Disjoint ⟨start.words.get .blockArgument, ArgumentBlock.byteSize⟩) :
    job.Obeyed limit start (job.Finds start) := by
  rintro visit hvisit s ⟨hgiven, hsame⟩ hpointers
  have hruns := runs_plain (hplain visit.kind) s
  have hkept : ∀ r ∈ .blockArgument :: job.outerRegister :: job.innerRegister :: job.pointers,
      (execAll (job.bodies visit.kind) s).words.get r = s.words.get r :=
    fun r hr => get_execAll (fun i hi => hwrites visit.kind i hi r hr) s
  refine ⟨_, _, hruns, (length_traceAll _ s).trans_le (hlimit _), fun r hr =>
    hkept r (List.mem_cons_of_mem _ hr), ?_, (hkept _ List.mem_cons_self).trans hsame⟩
  refine hgiven.congr hparams (hkept _ List.mem_cons_self) fun a ha =>
    hruns.read fun span hspan hcovers => ?_
  exact hstores visit hvisit s hpointers span hspan a hcovers (hsame ▸ ha)

end Plain

/-! ## Visits column by column -/

section Visits

variable {job : Job} (start : MachineState)

/-- The visits in front of a column of a row. -/
def visitsTo (job : Job) (start : MachineState) (row column : Nat) : List Visit :=
  ((List.range row).flatMap fun row =>
    job.vectorVisits start row (job.work.inner / job.lanes) ++
      job.scalarVisits start row (job.work.inner % job.lanes)) ++
  (job.vectorVisits start row (min (column / job.lanes) (job.work.inner / job.lanes)) ++
    job.scalarVisits start row (column - job.work.inner / job.lanes * job.lanes))

/-- Behind the last column the next row begins. -/
theorem visitsTo_next (row : Nat) :
    job.visitsTo start row job.work.inner = job.visitsTo start (row + 1) 0 := by
  have hrest : job.work.inner - job.work.inner / job.lanes * job.lanes =
      job.work.inner % job.lanes := by
    have hdiv := Nat.div_add_mod job.work.inner job.lanes
    rw [Nat.mul_comm] at hdiv
    omega
  simp [visitsTo, hrest, List.range_succ, vectorVisits, scalarVisits]

/-- Behind the last row all visits are made. -/
theorem visitsTo_outer : job.visitsTo start job.work.outer 0 = job.visits start := by
  simp [visitsTo, visits, vectorVisits, scalarVisits]

/-- A vector pass. -/
theorem visitsTo_vector (hlanes : 0 < job.lanes) (row : Nat) {k : Nat}
    (hk : k < job.work.inner / job.lanes) :
    job.visitsTo start row (k * job.lanes + job.lanes) =
      job.visitsTo start row (k * job.lanes) ++ [job.visit start .vector row (k * job.lanes)] := by
  have hle : (k + 1) * job.lanes ≤ job.work.inner / job.lanes * job.lanes :=
    Nat.mul_le_mul_right _ hk
  rw [← Nat.succ_mul, visitsTo, visitsTo, Nat.mul_div_cancel _ hlanes, Nat.mul_div_cancel _ hlanes,
    Nat.min_eq_left (by omega), Nat.min_eq_left (by omega), Nat.sub_eq_zero_of_le hle,
    Nat.sub_eq_zero_of_le (by rw [Nat.succ_mul] at hle; omega)]
  simp [vectorVisits, scalarVisits, List.range_succ]

/-- A scalar pass. -/
theorem visitsTo_scalar (hlanes : 0 < job.lanes) (row : Nat) {column : Nat}
    (hle : job.work.inner / job.lanes * job.lanes ≤ column) :
    job.visitsTo start row (column + 1) =
      job.visitsTo start row column ++ [job.visit start .scalar row column] := by
  have hquot : ∀ column', column ≤ column' → job.work.inner / job.lanes ≤ column' / job.lanes :=
    fun column' h => (Nat.le_div_iff_mul_le hlanes).2 (hle.trans h)
  rw [visitsTo, visitsTo, Nat.min_eq_right (hquot _ (Nat.le_succ _)), Nat.min_eq_right (hquot _ le_rfl),
    Nat.sub_add_comm hle]
  simp [scalarVisits, List.range_succ, Nat.add_sub_cancel' hle]

/-- The visits of the vector tile belong to the job. -/
theorem visit_vector_mem {row k : Nat} (hrow : row < job.work.outer)
    (hk : k < job.work.inner / job.lanes) :
    job.visit start .vector row (k * job.lanes) ∈ job.visits start :=
  List.mem_flatMap.2 ⟨row, List.mem_range.2 hrow,
    List.mem_append_left _ (List.mem_map.2 ⟨k, List.mem_range.2 hk, rfl⟩)⟩

/-- So do those of the scalar tile. -/
theorem visit_scalar_mem {row column : Nat} (hrow : row < job.work.outer)
    (hle : job.work.inner / job.lanes * job.lanes ≤ column) (hlt : column < job.work.inner) :
    job.visit start .scalar row column ∈ job.visits start := by
  have hdiv := Nat.div_add_mod job.work.inner job.lanes
  rw [Nat.mul_comm] at hdiv
  refine List.mem_flatMap.2 ⟨row, List.mem_range.2 hrow, List.mem_append_right _ (List.mem_map.2
    ⟨column - job.work.inner / job.lanes * job.lanes, List.mem_range.2 (by omega), ?_⟩)⟩
  rw [Nat.add_sub_cancel' hle]

end Visits

/-! ## The course of a job -/

section Course

variable (job : Job) (start : MachineState) (intact : MachineState → Prop) (limit : Nat)

/-- What a scheduler does for a job: at each column it has made the visits in front of it. -/
def course : Course where
  context := job.context
  pointers := job.pointers
  outerRegister := job.outerRegister
  innerRegister := job.innerRegister
  outer := job.work.outer
  inner := job.work.inner
  place row column p := job.address ((job.pointers.map start.words.get).getD p 0) row column p
  rowOffset p := job.rowOffsets.getD p 0
  Reached row column trace s := job.Carries start trace (job.visitsTo start row column) s ∧ intact s
  Admits i _ := Keeps job.outerRegister job.innerRegister job.pointers i
  pace := limit + 1

variable {job start intact limit}

/-- Along a row a pointer moves with the tiles, unless it stays where it is. -/
theorem address_add (base : Address) (row element increment p : Nat) :
    job.address base row (element + increment) p = job.address base row element p +
      BitVec.ofNat 64 (if (⟨increment, job.inputs, job.dims, job.elemSize⟩ : Tile).advances p then
        increment * job.elemSize else 0) := by
  have hbytes : (if (⟨increment, job.inputs, job.dims, job.elemSize⟩ : Tile).advances p then
      increment * job.elemSize else 0) = job.factor p * increment * job.elemSize := by
    rw [Tile.advances, factor]
    by_cases hinput : p < job.inputs
    · by_cases hone : job.dims[p]? = some 1
      · simp [hinput, hone]
      · simp [hone]
    · simp [hinput, Nat.le_of_not_lt hinput]
  rw [hbytes, address, address, BitVec.add_assoc, ← BitVec.ofInt_natCast, ← BitVec.ofInt_add]
  congr 2
  push_cast
  ring

/-- The row offset brings it to the next row. -/
theorem address_next (base : Address) (row p : Nat) :
    job.address base row job.work.inner p + BitVec.ofInt 64 (job.rowOffsets.getD p 0) =
      job.address base (row + 1) 0 p := by
  rw [address, address, BitVec.add_assoc, ← BitVec.ofInt_add]
  congr 2
  push_cast
  ring

/-- Where the pointers are at a visit. -/
theorem visit_pointers {s : MachineState} (kind : BodyKind) {row column : Nat}
    (h : ∀ (p : Nat) (r : Register), job.pointers[p]? = some r → s.words.get r =
      job.address ((job.pointers.map start.words.get).getD p 0) row column p) :
    (job.visit start kind row column).pointers = job.pointers.map s.words.get := by
  refine List.ext_getElem (by simp [visit]) fun p hp hp' => ?_
  rw [List.length_map] at hp'
  have hpointer := h p _ (List.getElem?_eq_getElem hp')
  have hstart : (job.pointers.map start.words.get).getD p 0 = start.words.get job.pointers[p] := by
    rw [List.getD_eq_getElem?_getD, List.getElem?_map, List.getElem?_eq_getElem hp', Option.map_some,
      Option.getD_some]
  rw [hstart] at hpointer
  simp only [visit, List.getElem_map, List.getElem_zipIdx, Nat.zero_add, hpointer]

/-- **A body makes a visit.** -/
theorem Obeyed.exists_visit (hobeyed : job.Obeyed limit start intact) {kind : BodyKind}
    {row column : Nat} {trace : Trace} {visits : List Visit} {s : MachineState}
    (hmem : job.visit start kind row column ∈ job.visits start)
    (hcarries : job.Carries start trace visits s) (hintact : intact s)
    (hpointer : ∀ (p : Nat) (r : Register), job.pointers[p]? = some r → s.words.get r =
      job.address ((job.pointers.map start.words.get).getD p 0) row column p) :
    ∃ trace' t, Runs (job.bodies kind) s trace' t ∧
      trace'.length ≤ (limit + 1) * (job.bodies kind).length ∧
      (∀ r ∈ job.outerRegister :: job.innerRegister :: job.pointers,
        t.words.get r = s.words.get r) ∧
      job.Carries start (trace ++ trace') (visits ++ [job.visit start kind row column]) t ∧ intact t := by
  have hpointers := visit_pointers kind hpointer
  obtain ⟨trace', t, hruns, hsteps, hwords, hkept⟩ := hobeyed _ hmem s hintact hpointers.symm
  refine ⟨trace', t, hruns, ?_, hwords, ?_, hkept⟩
  · rcases hcode : job.bodies kind with _ | ⟨i, code⟩
    · have hnone : trace' = [] := Runs.eq_nil (hcode ▸ hruns)
      rw [hnone]
      exact Nat.zero_le _
    · rw [List.length_cons, Nat.mul_succ]
      omega
  · have hvisit : job.visit start kind row column = ⟨kind, job.pointers.map s.words.get⟩ := by
      rw [← hpointers]
      rfl
    rw [hvisit]
    exact hcarries.body hruns

/-- The increment of a job fits an instruction. -/
theorem Proper.increment_lt (hjob : job.Proper) : job.lanes < 2 ^ 31 := by
  rcases hjob.lanes_lt with hpos | hlt
  · exact (Nat.le_mul_of_pos_right job.lanes hpos).trans_lt hjob.bytes_lt
  · exact hlt

/-- **The course of a job is sound.** -/
theorem sound_course (hjob : job.Proper) (hstable : job.Stable intact)
    (hobeyed : job.Obeyed limit start intact) : (job.course start intact limit).Sound where
  nodup := hjob.nodup
  pointers := rfl
  register := rfl
  vector_pos := hjob.lanes_pos
  vector_lt := hjob.increment_lt
  scalar := rfl
  outer_pos := hjob.outer_pos
  outer_lt := hjob.outer_lt
  inner_lt := hjob.inner_lt
  pace_pos := Nat.succ_pos limit
  place_add kind row column p _ := by
    cases kind with
    | vector => exact address_add _ row column job.lanes p
    | scalar => exact address_add _ row column 1 p
  place_next row _ p _ := address_next _ row p
  next row _ trace s hs := by
    change job.Carries start trace (job.visitsTo start (row + 1) 0) s ∧ intact s
    rw [← visitsTo_next]
    exact hs
  admits i s hkeeps _ := hkeeps
  step row column trace s i hs hi hmemory hwords :=
    ⟨hs.1.keep hi, hstable s _ hmemory hwords hs.2⟩
  body kind code hcode row hrow column hbegins trace s hs hpointer := by
    cases kind with
    | vector =>
      obtain rfl := Except.ok.inj hcode
      obtain ⟨k, hk, rfl⟩ := hbegins
      have hcarries : job.Carries start trace (job.visitsTo start row (k * job.lanes)) s := hs.1
      have hrun := hobeyed.exists_visit (visit_vector_mem start hrow hk) hcarries hs.2 hpointer
      rw [← visitsTo_vector start hjob.lanes_pos row hk] at hrun
      exact hrun
    | scalar =>
      obtain rfl := Except.ok.inj hcode
      obtain ⟨hle, hlt⟩ := hbegins
      have hrun := hobeyed.exists_visit (visit_scalar_mem start hrow hle hlt) hs.1 hs.2 hpointer
      rw [← visitsTo_scalar start hjob.lanes_pos row hle] at hrun
      exact hrun

/-- Code that follows the course of a job performs it. -/
theorem performs_of_paced {code : Code} {times : Nat} (hintact : intact start)
    (h : Paced (limit + 1) times ((job.course start intact limit).At 0 0
      ((job.course start intact limit).place 0 0) []) code
      ((job.course start intact limit).Reached job.work.outer 0)) : job.Performs code start := by
  have hbegin : (job.course start intact limit).At 0 0
      ((job.course start intact limit).place 0 0) [] [] start := by
    refine ⟨⟨?_, hintact⟩, fun p r hr => ?_, by simp⟩
    · have hnone : job.visitsTo start 0 0 = [] := by simp [visitsTo, vectorVisits, scalarVisits]
      rw [hnone]
      exact .nil
    · have hr : job.pointers[p]? = some r := hr
      change _ = job.address _ 0 0 p
      simp [address, List.getD_eq_getElem?_getD, hr]
  obtain ⟨trace, t, hruns, -, hreached, -⟩ := h [] start hbegin
  rw [List.nil_append, visitsTo_outer] at hreached
  exact ⟨trace, t, hruns, hreached⟩

end Course

/-! ## Both codes -/

section Codes

variable {job : Job} (hjob : job.Proper)
include hjob

/-- The tiles of a job have all that their code needs. -/
theorem Proper.limitedBy : job.context.LimitedBy True where
  pointers r hr := by
    obtain ⟨q, -, rfl⟩ := List.mem_map.1 hr
    exact q.isLt
  inner := job.innerRegister.isLt
  vector := ⟨hjob.increment_lt, hjob.bytes_lt,
    hjob.length_dims.trans (List.length_map _).symm, .of_ok rfl⟩
  scalar := by
    refine ⟨(by decide : 1 < 0x80000000), ?_, hjob.length_dims.trans (List.length_map _).symm,
      .of_ok rfl⟩
    exact (Nat.mul_le_mul_right job.elemSize hjob.lanes_pos).trans_lt hjob.bytes_lt

/-- There is code for static work amounts. -/
theorem Proper.exists_staticCode : ∃ code,
    staticCode job.context job.outerRegister.val job.work job.lanes job.rowOffsets = .ok code :=
  (hjob.limitedBy.staticCode job.outerRegister.isLt hjob.lanes_pos hjob.increment_lt
    (hjob.length_rowOffsets.trans (List.length_map _).symm)).succeeds
      ⟨fun _ => trivial, fun _ => hjob.rowOffsets⟩

/-- There is code for dynamic ones. -/
theorem Proper.exists_dynamicCode : ∃ code,
    dynamicCode job.context job.outerRegister.val = .ok code := by
  refine (hjob.limitedBy.dynamicCode job.outerRegister.isLt ?_).succeeds trivial
  have hlength : job.pointers.length ≤ registerCount := by
    have hcard := List.Nodup.length_le_card hjob.nodup.of_cons.of_cons
    rwa [Fintype.card_fin] at hcard
  rwa [context, List.length_map]

/-- **Static and dynamic code perform the same job.** Both codes exist. Run from a state at which the
bodies can be relied on, each of them runs through and makes the visits of the job, in their order and with
the data pointers that belong to them; the dynamic one has to find the work amounts and the row offsets in
the argument block.

**Proof sketch.** The visits in front of a column of a row are the course of a scheduler: a vector pass
appends the visit at its column and so does a scalar pass, and behind the last column of a row the next row
begins without a further visit. Every scheduler follows the course, by the lemmas on loops, whether its
counts are constants or are loaded. -/
theorem static_dynamic_perform :
    ∃ static dynamic,
      staticCode job.context job.outerRegister.val job.work job.lanes job.rowOffsets = .ok static ∧
      dynamicCode job.context job.outerRegister.val = .ok dynamic ∧
      ∀ (s : MachineState) (intact : MachineState → Prop) (limit : Nat),
        job.Stable intact → intact s → job.Obeyed limit s intact →
          job.Performs static s ∧ ((∀ t, intact t → job.Given t) → job.Performs dynamic s) := by
  obtain ⟨static, hstatic⟩ := hjob.exists_staticCode
  obtain ⟨dynamic, hdynamic⟩ := hjob.exists_dynamicCode
  refine ⟨static, dynamic, hstatic, hdynamic, fun s intact limit hstable hintact hobeyed => ?_⟩
  have hsound := sound_course hjob hstable hobeyed
  refine ⟨performs_of_paced hintact
    (hsound.paced_staticCode hjob.length_rowOffsets (fun _ => rfl) hstatic), fun hgiven => ?_⟩
  have hword : ∀ (load : MemoryOperand → Instruction) (distance : Nat) (value : Address),
      (∀ m, Keeps job.outerRegister job.innerRegister job.pointers (load m)) →
      (∀ t, job.Given t → argument t distance = value) →
        (job.course s intact limit).Provides load distance value := by
    rintro load distance value hkeeps hvalue row column trace t ⟨-, hintact⟩ m hm
    refine ⟨?_, hkeeps m⟩
    rw [MachineState.load, MachineState.address_behind hm]
    exact hvalue t (hgiven t hintact)
  refine performs_of_paced hintact (hsound.paced_dynamicCode
    (hword _ _ _ (fun _ => .inl rfl) fun _ h => h.outer)
    (hword _ _ _ (fun _ => .inr rfl) fun _ h => h.inner)
    (fun p r hr => hword _ _ _ (fun _ => List.mem_of_getElem? hr) fun _ h => ?_) hdynamic)
  exact h.rowOffsets p (List.getElem?_eq_some_iff.1 hr).1

end Codes

/-! ## Sums of a row and a column -/

/-- The register with a given number. -/
def register (number : Nat) : Register := ⟨number % registerCount, Nat.mod_lt number registerCount_pos⟩

/-- The job that adds each of three numbers to a row of nineteen. -/
def sums : Job where
  bodies
    | .vector => [.splatLoad .ymm (register 0) (register 8), .loadVector .ymm (register 1) (register 9),
        .binary .ymm .add (register 0) (register 0) (register 1),
        .storeVector .ymm (register 10) (register 0)]
    | .scalar => [.loadLane (register 0) (register 8), .loadLane (register 1) (register 9),
        .binary .ymm .add (register 0) (register 0) (register 1),
        .storeLane (register 10) (register 0)]
  lanes := 8
  inputs := 2
  dims := [1, 19, 19]
  elemSize := 4
  pointers := [register 8, register 9, register 10]
  outerRegister := register 0
  innerRegister := register 1
  work := ⟨3, 19⟩
  rowOffsets := [4, -76, 0]

/-- The argument block of the sums. -/
def sumsBlock : ArgumentBlock :=
  { ArgumentBlock.empty with
    rowOffsets := .ofFn fun p => sums.rowOffsets.getD p 0
    outer := 3
    inner := 19 }

/-- A state in which the sums may begin. -/
def sumsStart : MachineState where
  words := (((RegisterFile.fill 0).set .blockArgument 0x10000).set (register 8) 0x1000).set
    (register 9) 0x2000 |>.set (register 10) 0x3000
  vectors := .fill (.upTo 0 fun _ => ⟨0⟩)
  outcome := none
  memory := Memory.empty.writeWords 0x10000 sumsBlock.words

theorem finds_sumsStart : sums.Finds sumsStart sumsStart := by
  have hargument : ∀ {distance value}, sumsBlock.WordAt distance value →
      argument sumsStart distance = value := fun h => h.readWord .empty 0x10000
  refine ⟨⟨hargument ArgumentBlock.wordAt_outer, hargument ArgumentBlock.wordAt_inner,
    fun p hp => ?_⟩, rfl⟩
  have hlt : p < maxParams := Nat.lt_trans hp (by decide)
  rw [hargument (ArgumentBlock.wordAt_row hlt)]
  simp [sumsBlock]

theorem proper_sums : sums.Proper where
  lanes_pos := by decide
  bytes_lt := by decide
  lanes_lt := by decide
  outer_pos := by decide
  outer_lt := by decide
  inner_lt := by decide
  length_dims := rfl
  length_rowOffsets := rfl
  rowOffsets := by simp [sums, FitsImmediate]
  nodup := by decide

/-- The sums lie in front of the argument block. -/
theorem sums_before : ∀ visit ∈ sums.visits sumsStart, Span.Before ⟨visit.pointers.getD 2 0, 32⟩
    ⟨sumsStart.words.get .blockArgument, ArgumentBlock.byteSize⟩ := by
  decide

theorem obeyed_sums : sums.Obeyed 4 sumsStart (sums.Finds sumsStart) := by
  refine obeyed_of_plain (by decide) ?_ ?_ ?_ fun visit hvisit s hpointers span hspan => ?_
  · rintro (_ | _) <;> simp [sums, Instruction.Plain]
  · rintro (_ | _) <;> decide
  · rintro (_ | _) <;> decide
  · have hdisjoint := Span.Before.disjoint (.inl (sums_before visit hvisit))
    rw [← hpointers] at hdisjoint
    refine hdisjoint.mono ?_ (.refl _)
    cases hkind : visit.kind <;> rw [hkind] at hspan <;> obtain rfl := List.mem_singleton.1 hspan
    · exact .refl _
    · exact Span.within_of_length_le (by decide)

/-- Each of the three rows is made by two vector passes and three scalar passes. -/
theorem static_dynamic_perform_of_sums : sums.Proper ∧ ∃ static dynamic,
    staticCode sums.context sums.outerRegister.val sums.work sums.lanes sums.rowOffsets = .ok static ∧
    dynamicCode sums.context sums.outerRegister.val = .ok dynamic ∧
    sums.Performs static sumsStart ∧ sums.Performs dynamic sumsStart := by
  obtain ⟨static, dynamic, hstatic, hdynamic, h⟩ := static_dynamic_perform proper_sums
  obtain ⟨hperforms, hperforms'⟩ := h sumsStart (sums.Finds sumsStart) 4
    (stable_finds (by decide) (by decide) _) finds_sumsStart obeyed_sums
  exact ⟨proper_sums, static, dynamic, hstatic, hdynamic, hperforms, hperforms' fun t ht => ht.1⟩

end Job

end Schedule

end Pointwise
