import Pointwise.Proofs.Region.Code
import Pointwise.Proofs.Region.Pass

/-!
# The run of a call, pass by pass

The instructions of a kernel that access numbers belong to the runs of a tile's body. Each of these runs
makes up a pass: it loads through the data pointers first and then stores. Between the passes the scheduler
counts and moves the data pointers.

## Main definitions

* `Instruction.pointer?` — the data pointer through which an instruction accesses numbers.
* `PassRun` — a pass with the instructions that lead to it and those that make it up.
* `PassRun.Body` — a run of a tile's body that stores to outputs.
* `PassRun.MakeUp` — the passes that code is made up of.
* `PassRun.LoadOwn` — passes of calls that load elements of a tensor for their own positions only.
* `PassRun.Split` — a run that consists of passes.

## Main results

* `PassRun.Split.step`, `PassRun.Split.concat` — instructions between passes, and one more pass.
* `PassRun.Split.storesOf` — what such a run writes.
* `PassRun.LoadOwn.of_tiles` — no element is loaded twice if the shares of the calls follow each other.
-/

set_option autoImplicit false

namespace Pointwise

open Machine

/-- The register through which an instruction loads or stores numbers. -/
def Instruction.pointer? : Instruction → Option Register
  | .loadVector _ _ q | .loadLane _ q | .splatLoad _ _ q | .storeVector _ q _ | .storeLane q _ => some q
  | _ => none

/-- An instruction that accesses no memory accesses no numbers. -/
theorem Instruction.pointer?_eq_none {i : Instruction} {s : MachineState} (hloads : i.loads s = [])
    (hstores : i.stores s = []) : i.pointer? = none := by
  cases i <;> simp_all [loads, stores, pointer?]

/-- Instructions that do not store, and load no numbers. -/
def Machine.Quiet (trace : Trace) : Prop := ∀ v ∈ trace, v.1.pointer? = none ∧ v.1.stores v.2 = []

@[simp] theorem Machine.quiet_append {trace trace' : Trace} :
    Quiet (trace ++ trace') ↔ Quiet trace ∧ Quiet trace' :=
  List.forall_mem_append

theorem Machine.Quiet.storesOf {trace : Trace} (h : Quiet trace) : Machine.storesOf trace = [] :=
  List.flatMap_eq_nil_iff.2 fun v hv => (h v hv).2

/-- The bytes that a pass writes to an output at an address. -/
def Pass.bytes (pass : Pass) (target : Address) : Span :=
  ⟨target + BitVec.ofNat 64 (4 * pass.first), 4 * pass.width⟩

/-- The bytes that passes write to outputs, by the addresses of these. -/
theorem Pass.spans_eq_bytes (outputs : List Target) (passes : List Pass) :
    Pass.spans outputs passes =
      passes.flatMap fun pass => (outputs.map (·.start)).map pass.bytes := by
  simp only [spans, List.map_map]
  rfl

/-- A pass, with the instructions that lead to it and those that make it up: loads of what it needs, and
stores behind them. -/
structure PassRun where
  pass : Pass
  leading : Trace
  loading : Trace
  storing : Trace

namespace PassRun

/-- All instructions of a pass. -/
def trace (run : PassRun) : Trace := run.leading ++ (run.loading ++ run.storing)

/-- A run of a tile's body for a program. It stores the outputs for the positions of its pass, and loads
nothing from the first store on. -/
structure Body (program : Program) (targets : List Address) (run : PassRun) : Prop where
  leading : Quiet run.leading
  body : ∃ source code s t, program.IsBody source code ∧ Runs code s (run.loading ++ run.storing) t
  loading : ∀ v ∈ run.loading, v.1.stores v.2 = []
  storing : ∀ v ∈ run.storing, v.1.loads v.2 = []
  stores : storesOf run.storing = targets.map run.pass.bytes

/-- What the run of a body writes. -/
theorem Body.storesOf_trace {program : Program} {targets : List Address} {run : PassRun}
    (h : run.Body program targets) : storesOf run.trace = targets.map run.pass.bytes := by
  have hloading : storesOf run.loading = [] := List.flatMap_eq_nil_iff.2 h.loading
  rw [trace, storesOf_append, storesOf_append, h.leading.storesOf, hloading, h.stores]
  rfl

/-- Whether a pass loads bytes of an element of a tensor through a data pointer. -/
def Loads (run : PassRun) (q : Register) (source : Address) (element : Nat) : Prop :=
  ∃ v ∈ run.loading, v.1.pointer? = some q ∧
    ∃ span ∈ v.1.loads v.2, ¬ span.Disjoint ⟨source + BitVec.ofNat 64 (4 * element), 4⟩

/-- The passes of a program that code is made up of which returns: no instruction in front of them or behind
them accesses numbers. -/
structure MakeUp (program : Program) (targets : List Address) (code : Code) (bound : Nat)
    (s : MachineState) (runs : List PassRun) : Prop where
  returns : ∃ t, run code bound 0 s = some t
  split : ∃ before after, visited code bound 0 s = before ++ runs.flatMap PassRun.trace ++ after ∧
    ∀ v ∈ before ++ after, v.1.pointer? = none
  bodies : ∀ run ∈ runs, run.Body program targets

/-- Passes of a number of calls that load elements of a tensor through a data pointer for their own positions
only, and no element in two passes. -/
structure LoadOwn (q : Register) (source : Address) (elements calls : Nat)
    (runs : (call : Nat) → List PassRun) : Prop where
  covers : ∀ call < calls, ∀ run ∈ runs call, ∀ e < elements, run.Loads q source e → run.pass.Covers e
  once : ∀ call < calls, ∀ call' < calls, ∀ (i i' : Nat) (run run' : PassRun),
    (runs call)[i]? = some run → (runs call')[i']? = some run' → ∀ e < elements,
      run.Loads q source e → run'.Loads q source e → call = call' ∧ i = i'

/-- **Passes of calls whose shares follow each other** do not load an element twice if they load elements for
their own positions only. -/
theorem LoadOwn.of_tiles {q : Register} {source : Address} {elements calls share : Nat}
    {runs : (call : Nat) → List PassRun}
    (htiles : ∀ call < calls, Pass.Tiles (call * share) ((runs call).map (·.pass)) ((call + 1) * share))
    (hcovers : ∀ call < calls, ∀ run ∈ runs call, ∀ e < elements, run.Loads q source e →
      run.pass.Covers e) : LoadOwn q source elements calls runs where
  covers := hcovers
  once := by
    intro call hcall call' hcall' i i' run run' hrun hrun' e he hloads hloads'
    have hcovers₁ := hcovers call hcall run (List.mem_of_getElem? hrun) e he hloads
    have hcovers₂ := hcovers call' hcall' run' (List.mem_of_getElem? hrun') e he hloads'
    have hpass : ((runs call).map (·.pass))[i]? = some run.pass := by rw [List.getElem?_map, hrun]; rfl
    have hpass' : ((runs call').map (·.pass))[i']? = some run'.pass := by
      rw [List.getElem?_map, hrun']
      rfl
    -- both calls have the element in their shares
    obtain ⟨hfirst, hstop⟩ := (htiles call hcall).exists_covers.1 ⟨_, List.mem_of_getElem? hpass, hcovers₁⟩
    obtain ⟨hfirst', hstop'⟩ :=
      (htiles call' hcall').exists_covers.1 ⟨_, List.mem_of_getElem? hpass', hcovers₂⟩
    obtain rfl : call = call' := by
      have hlt := Nat.lt_of_mul_lt_mul_right (hfirst.trans_lt hstop')
      have hlt' := Nat.lt_of_mul_lt_mul_right (hfirst'.trans_lt hstop)
      omega
    exact ⟨rfl, (htiles call hcall).eq_of_covers hpass hpass' hcovers₁ hcovers₂⟩

/-- A run that consists of passes, with instructions behind them that access no numbers. -/
def Split (Holds : PassRun → Prop) (runs : List PassRun) (trace : Trace) : Prop :=
  ∃ rest, trace = runs.flatMap PassRun.trace ++ rest ∧ Quiet rest ∧ ∀ run ∈ runs, Holds run

variable {Holds : PassRun → Prop} {runs : List PassRun} {trace trace' : Trace}

theorem Split.holds (h : Split Holds runs trace) : ∀ run ∈ runs, Holds run := by
  obtain ⟨-, -, -, hruns⟩ := h
  exact hruns

theorem split_nil : Split Holds [] [] := ⟨[], rfl, by simp [Quiet], by simp⟩

/-- Instructions between passes. -/
theorem Split.step (h : Split Holds runs trace) (hquiet : Quiet trace') :
    Split Holds runs (trace ++ trace') := by
  obtain ⟨rest, rfl, hrest, hruns⟩ := h
  exact ⟨rest ++ trace', List.append_assoc _ _ _, quiet_append.2 ⟨hrest, hquiet⟩, hruns⟩

/-- One more pass, to which the instructions behind the last one lead. -/
theorem Split.concat (h : Split Holds runs trace) {pass : Pass} {loading storing : Trace}
    (hnext : ∀ leading, Quiet leading → Holds ⟨pass, leading, loading, storing⟩) :
    ∃ run : PassRun, run.pass = pass ∧ Split Holds (runs ++ [run]) (trace ++ (loading ++ storing)) := by
  obtain ⟨rest, rfl, hrest, hruns⟩ := h
  refine ⟨⟨pass, rest, loading, storing⟩, rfl, [], ?_, by simp [Quiet], fun run hrun => ?_⟩
  · simp [PassRun.trace]
  · rcases List.mem_append.1 hrun with hrun | hrun
    · exact hruns run hrun
    · obtain rfl := List.mem_singleton.1 hrun
      exact hnext rest hrest

/-- **What a run writes that consists of passes.** -/
theorem Split.storesOf {program : Program} {targets : List Address} (h : Split Holds runs trace)
    (hbody : ∀ run, Holds run → run.Body program targets) :
    storesOf trace = (runs.map (·.pass)).flatMap fun pass => targets.map pass.bytes := by
  obtain ⟨rest, rfl, hrest, hruns⟩ := h
  rw [storesOf_append, hrest.storesOf, List.append_nil]
  induction runs with
  | nil => rfl
  | cons run runs ih =>
    rw [List.flatMap_cons, storesOf_append, ih fun r hr => hruns r (List.mem_cons_of_mem _ hr),
      (hbody run (hruns run List.mem_cons_self)).storesOf_trace]
    rfl

end PassRun

end Pointwise
