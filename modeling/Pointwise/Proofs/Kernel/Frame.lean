import Pointwise.Kernel.Image
import Pointwise.Proofs.Region.Schedule

/-!
# The frame of a kernel call

A call saves the registers that it has to give back in the bytes below its return address, and
restores them from there before it returns. In between its code finds the memory with these bytes
written. All this holds from every state in which a call begins, whatever its other registers hold.

## Main definitions

* `CallSite.Begins`, `CallSite.Pushed` — the states of a call in front of the saves and behind them.
* `CallSite.frame` — the bytes in which a call saves registers.
* `Kernel.saved` — the memory behind the saves.
* `CallSite.Phases` — what a call may access in its phases.
* `Setting.Walked` — what the code between the saves and the restores does.
* `CallSite.Performs` — what a call does that processes the positions between two ends.

## Main results

* `CallSite.begins_iff` — the states in which a call begins.
* `CallSite.path_of_runs`, `CallSite.run_of_runs` — the run of a call.
* `Setting.walked_of_triples` — what the computation of the data pointers and the rows make up.
* `Setting.Walked.exists_run` — the run of a call that walks.
* `CallSite.performs_of_walked` — what the code between the saves and the restores does, a call performs.
-/

set_option autoImplicit false

namespace Pointwise

open Machine

namespace Machine

/-- A path that comes to the end of the code is the whole run. -/
theorem Path.done {code : Code} {p q : Nat} {s t : MachineState} {trace : Trace}
    (h : Path code p s trace q t) (hret : code[q]? = some .ret) {bound : Nat}
    (hbound : trace.length < bound) :
    run code bound p s = some t ∧ visited code bound p s = trace ++ [(.ret, t)] := by
  obtain ⟨rest, rfl⟩ : ∃ rest, bound = trace.length + (rest + 1) :=
    ⟨bound - trace.length - 1, by omega⟩
  have hstep : step code q t = .done t := by rw [step, hret]
  constructor
  · rw [h.run_eq, run, hstep]
  · rw [h.visited_eq, visited, hret]
    dsimp only
    rw [hstep]

end Machine

/-! ## Saving and restoring -/

namespace Kernel

/-- A push writes the word below the stack pointer. -/
theorem get_rsp_push {s : MachineState} {base : Address} {n : Nat}
    (hstack : s.words.get .rsp = base + BitVec.ofNat 64 (8 * (n + 1))) (r : Register) :
    s.words.get .rsp - 8 = base + BitVec.ofNat 64 (8 * n) ∧
      (Instruction.exec (.push r) s).words.get .rsp = base + BitVec.ofNat 64 (8 * n) := by
  have htop : s.words.get .rsp - 8 = base + BitVec.ofNat 64 (8 * n) := by
    rw [hstack, Nat.mul_succ, ← Span.add_ofNat_add]
    exact BitVec.add_sub_cancel _ _
  exact ⟨htop, (RegisterFile.get_set_self _ _ _).trans htop⟩

/-- A pop of another register moves the stack pointer to the next word. -/
theorem get_rsp_pop {s : MachineState} {base : Address} {k : Nat}
    (hstack : s.words.get .rsp = base + BitVec.ofNat 64 (8 * k)) {r : Register} (hr : .rsp ≠ r) :
    (Instruction.exec (.pop r) s).words.get .rsp = base + BitVec.ofNat 64 (8 * (k + 1)) := by
  rw [Nat.mul_succ, ← Span.add_ofNat_add, ← hstack]
  exact (RegisterFile.get_set_of_ne hr.symm).trans (RegisterFile.get_set_self _ _ _)

/-- **Registers are pushed** below an address. -/
theorem execAll_push {registers : List Register} {s : MachineState} {base : Address}
    (hstack : s.words.get .rsp = base + BitVec.ofNat 64 (8 * registers.length)) :
    (execAll (registers.map .push) s).words.get .rsp = base ∧
      (∀ r, r ≠ .rsp → (execAll (registers.map .push) s).words.get r = s.words.get r) ∧
      Respects (fun i span => (∃ r, i = .push r) ∧ span.Within ⟨base, 8 * registers.length⟩)
        (traceAll (registers.map .push) s) := by
  induction registers generalizing s with
  | nil => exact ⟨by simpa [execAll] using hstack, fun _ _ => rfl, respects_nil⟩
  | cons r registers ih =>
    obtain ⟨htop, hnext⟩ := get_rsp_push hstack r
    obtain ⟨hrsp, hothers, haccesses⟩ := ih hnext
    refine ⟨hrsp, fun q hq => ?_, respects_cons.2 ⟨fun span hspan => ⟨⟨r, rfl⟩, ?_⟩, ?_⟩⟩
    · rw [List.map_cons, execAll, List.foldl_cons]
      exact (hothers q hq).trans (RegisterFile.get_set_of_ne hq.symm)
    · obtain rfl : span = ⟨s.words.get .rsp - 8, 8⟩ := by
        simpa [Instruction.loads, Instruction.stores] using hspan
      rw [htop]
      exact Span.within_of_le (by simp [Nat.mul_succ])
    · exact haccesses.mono fun i span h => ⟨h.1, h.2.trans (Span.within_of_length_le (by simp))⟩

/-- Pushes change no byte but those of the words that they write. -/
theorem read_push {registers : List Register} {s : MachineState} {base : Address}
    (hstack : s.words.get .rsp = base + BitVec.ofNat 64 (8 * registers.length)) {a : Address}
    (h : ¬ Span.Covers ⟨base, 8 * registers.length⟩ a) :
    (execAll (registers.map .push) s).memory.read a = s.memory.read a := by
  have hplain : ∀ i ∈ registers.map Instruction.push, i.Plain := by simp [Instruction.Plain]
  refine (runs_plain hplain s).read fun span hspan hcovers => ?_
  obtain ⟨-, -, hwithin⟩ := (execAll_push hstack).2.2.of_mem_storesOf hspan
  exact h (hwithin a hcovers)

/-- **Registers are popped** from the bytes behind an address. -/
theorem execAll_pop {registers : List Register} (hrsp : .rsp ∉ registers) {s : MachineState}
    {base : Address} {k n : Nat} (hstack : s.words.get .rsp = base + BitVec.ofNat 64 (8 * k))
    (hle : k + registers.length ≤ n) :
    (execAll (registers.map .pop) s).memory = s.memory ∧
      storesOf (traceAll (registers.map .pop) s) = [] ∧
      Respects (fun i span => (∃ r, i = .pop r) ∧ span.Within ⟨base, 8 * n⟩)
        (traceAll (registers.map .pop) s) := by
  induction registers generalizing s k with
  | nil => exact ⟨rfl, rfl, respects_nil⟩
  | cons r registers ih =>
    rw [List.mem_cons, not_or] at hrsp
    rw [List.length_cons] at hle
    obtain ⟨hmemory, hstores, haccesses⟩ := ih hrsp.2 (get_rsp_pop hstack hrsp.1) (by omega)
    refine ⟨hmemory, hstores, respects_cons.2 ⟨fun span hspan => ⟨⟨r, rfl⟩, ?_⟩, haccesses⟩⟩
    obtain rfl : span = ⟨s.words.get .rsp, 8⟩ := by
      simpa [Instruction.loads, Instruction.stores] using hspan
    rw [hstack]
    exact Span.within_of_le (by omega)

/-- The memory behind the saves. -/
def saved (s : MachineState) : Memory := (execAll preamble s).memory

/-- What a kernel does in front of its return. -/
def restores : Code := .zeroUpper :: calleeSaved.reverse.map .pop

theorem postamble_eq : postamble = restores ++ [.ret] := rfl

theorem plain_preamble : ∀ i ∈ preamble, i.Plain := by
  intro i hi
  obtain ⟨r, -, rfl⟩ := List.mem_map.1 hi
  trivial

theorem plain_restores : ∀ i ∈ restores, i.Plain := by
  intro i hi
  rcases List.mem_cons.1 hi with rfl | hi
  · trivial
  · obtain ⟨r, -, rfl⟩ := List.mem_map.1 hi
    trivial

end Kernel

/-! ## Calls -/

namespace CallSite

/-- The state in which a call begins: the stack pointer and the arguments are in their registers. -/
structure Begins (site : CallSite) (s : MachineState) : Prop where
  stack : s.words.get .rsp = site.stack
  index : s.words.get .indexArgument = site.index
  block : s.words.get .blockArgument = site.block

/-- The state of a call that has saved registers. -/
structure Pushed (site : CallSite) (s : MachineState) : Prop where
  stack : s.words.get .rsp = site.stack - 48
  index : s.words.get .indexArgument = site.index
  block : s.words.get .blockArgument = site.block

/-- **The states in which a call begins** are those of a call that finds anything in the other registers
and in memory. -/
theorem begins_iff {site : CallSite} {s : MachineState} :
    site.Begins s ↔ ∃ found memory, s = site.entry found memory := by
  constructor
  · intro h
    refine ⟨s.core, s.memory, ?_⟩
    rw [entry, MachineState.core, ← h.stack, ← h.index, ← h.block]
    simp
  · rintro ⟨found, memory, rfl⟩
    refine ⟨?_, ?_, RegisterFile.get_set_self _ _ _⟩
    · exact (RegisterFile.get_set_of_ne (by decide)).trans
        ((RegisterFile.get_set_of_ne (by decide)).trans (RegisterFile.get_set_self _ _ _))
    · exact (RegisterFile.get_set_of_ne (by decide)).trans (RegisterFile.get_set_self _ _ _)

/-- The bytes in which a call saves registers. -/
def frame (site : CallSite) : Span := ⟨site.stack - 48, 48⟩

/-- The phases of a call: it saves registers to the frame, computes the data pointers in stages, and
processes the rows before it restores the registers. In each phase it accesses only what it may. -/
def Phases (site : CallSite) (stages : Nat) (stage : (k : Nat) → Instruction → Span → Prop)
    (admits : Instruction → Span → Prop) (trace : Trace) : Prop :=
  ∃ saves pointers rows, trace = saves ++ pointers ++ rows ∧
    Respects (fun i span => (∃ r, i = .push r) ∧ span.Within site.frame) saves ∧
    Staged stage stages pointers ∧ Respects admits rows

/-- What a call does that begins in a state and processes the positions between two ends for outputs: it
returns, apart from the frame it writes what passes over these positions write, and it loads numbers from
bytes that it needs. -/
structure Performs (site : CallSite) (code : Code) (bound : Nat) (s : MachineState)
    (outputs : List Target) (first stop : Nat) (needs : Address → Prop) (phases : Trace → Prop) :
    Prop where
  passes : ∃ passes t saves, Pass.Tiles first passes stop ∧
    run code bound 0 s = some t ∧ t.memory = Pass.storeAll outputs passes (Kernel.saved s) ∧
    storesOf (visited code bound 0 s) = saves ++ Pass.spans outputs passes ∧
    ∀ span ∈ saves, span.Within site.frame
  needs : ∀ v ∈ visited code bound 0 s, v.1.pointer? ≠ none →
    ∀ span ∈ v.1.loads v.2, ∀ a, span.Covers a → needs a
  phases : phases (visited code bound 0 s)

variable {site : CallSite} {s t : MachineState}

/-- The words of the frame lie below the return address. -/
theorem Begins.stack_eq (h : site.Begins s) :
    s.words.get .rsp = site.stack - 48 + BitVec.ofNat 64 (8 * calleeSaved.length) :=
  h.stack.trans (BitVec.sub_add_cancel site.stack 48).symm

/-- **What a call has done when its registers are saved.** -/
theorem Begins.pushed (h : site.Begins s) :
    site.Pushed (execAll Kernel.preamble s) ∧
      Respects (fun i span => (∃ r, i = .push r) ∧ span.Within site.frame)
        (traceAll Kernel.preamble s) := by
  obtain ⟨hrsp, hothers, haccesses⟩ := Kernel.execAll_push h.stack_eq
  have hindex := hothers .indexArgument (by decide)
  have hblock := hothers .blockArgument (by decide)
  exact ⟨⟨hrsp, hindex.trans h.index, hblock.trans h.block⟩, haccesses⟩

/-- The saves change no byte but those of the frame. -/
theorem Begins.read_saved (hbegins : site.Begins s) {a : Address} (h : ¬ site.frame.Covers a) :
    (Kernel.saved s).read a = s.memory.read a :=
  Kernel.read_push hbegins.stack_eq h

/-- What a call does when it restores the registers: it reads the frame. -/
theorem restores_spec (hstack : t.words.get .rsp = site.stack - 48) :
    (execAll Kernel.restores t).memory = t.memory ∧ storesOf (traceAll Kernel.restores t) = [] ∧
      Respects (fun i span => (∃ r, i = .pop r) ∧ span.Within site.frame)
        (traceAll Kernel.restores t) := by
  have hbase : (Instruction.exec .zeroUpper t).words.get .rsp =
      site.stack - 48 + BitVec.ofNat 64 (8 * 0) := hstack.trans (BitVec.add_zero _).symm
  have hrsp : Register.rsp ∉ calleeSaved.reverse := by decide
  obtain ⟨hmemory, hstores, haccesses⟩ := Kernel.execAll_pop (n := 6) hrsp hbase le_rfl
  rw [Kernel.restores, execAll, List.foldl_cons, traceAll, storesOf_cons, respects_cons, hstores]
  exact ⟨hmemory, rfl, by simp [Instruction.loads, Instruction.stores], haccesses⟩

/-- **The path of a call to its end**, given that of the code between the saves and the restores. -/
theorem path_of_runs {body : Code} {trace : Trace} (hruns : Runs body (execAll Kernel.preamble s) trace t) :
    Path (Kernel.preamble ++ body ++ Kernel.postamble) 0 s
        (traceAll Kernel.preamble s ++ trace ++ traceAll Kernel.restores t)
        (Kernel.preamble ++ body ++ Kernel.restores).length (execAll Kernel.restores t) ∧
      (Kernel.preamble ++ body ++ Kernel.postamble)[
        (Kernel.preamble ++ body ++ Kernel.restores).length]? = some .ret := by
  have hpath := (((runs_plain Kernel.plain_preamble s).append hruns).append
    (runs_plain Kernel.plain_restores t)) [] [.ret]
  rw [List.nil_append, List.append_assoc _ Kernel.restores, ← Kernel.postamble_eq, List.length_nil,
    Nat.zero_add] at hpath
  refine ⟨hpath, ?_⟩
  rw [Kernel.postamble_eq, ← List.append_assoc]
  simp

/-- **The run of a call**, given that of the code between the saves and the restores. -/
theorem run_of_runs {body : Code} {trace : Trace} {bound : Nat}
    (hruns : Runs body (execAll Kernel.preamble s) trace t)
    (hbound : Kernel.preamble.length + trace.length + Kernel.postamble.length ≤ bound) :
    run (Kernel.preamble ++ body ++ Kernel.postamble) bound 0 s = some (execAll Kernel.restores t) ∧
      visited (Kernel.preamble ++ body ++ Kernel.postamble) bound 0 s =
        traceAll Kernel.preamble s ++ trace ++ traceAll Kernel.restores t ++
          [(.ret, execAll Kernel.restores t)] := by
  obtain ⟨hpath, hret⟩ := path_of_runs hruns
  refine hpath.done hret ?_
  rw [Kernel.postamble_eq, List.length_append, List.length_singleton] at hbound
  simp only [List.length_append, length_traceAll]
  omega

end CallSite

/-! ## From the saves to the restores -/

/-- What the code between the saves and the restores does from a state in which nothing is computed: it
computes the data pointers in stages, and then processes the positions up to an end. -/
def Setting.Walked (ctx : Setting) (stages : Nat) (stage : (k : Nat) → Instruction → Span → Prop)
    (stop steps : Nat) (body : Code) (s : MachineState) : Prop :=
  ∃ pointers rows t, Runs body s (pointers ++ rows) t ∧ (pointers ++ rows).length ≤ steps ∧
    Staged stage stages pointers ∧ storesOf pointers = [] ∧ ctx.Through stop rows t

/-- **The computation of the data pointers and the rows make it up.** -/
theorem Setting.walked_of_triples {ctx : Setting} {pre : Assertion} {pointers rows : Code}
    {steps steps' stop stages : Nat} {stage : (k : Nat) → Instruction → Span → Prop}
    {pointer : Nat → Address}
    (hpointers : Triple pre pointers steps fun trace s => Staged stage stages trace ∧
      storesOf trace = [] ∧ ctx.At ctx.first pointer [] s)
    (hrows : Triple (ctx.At ctx.first pointer) rows steps' (ctx.Through stop)) {s : MachineState}
    (hs : pre [] s) : ctx.Walked stages stage stop (steps + steps') (pointers ++ rows) s := by
  obtain ⟨first, middle, hruns, hsteps, hstaged, hsilent, hbegin⟩ := hpointers [] s hs
  obtain ⟨second, t, hruns', hsteps', hthrough⟩ := hrows [] middle hbegin
  refine ⟨first, second, t, hruns.append hruns', ?_, hstaged, hsilent, hthrough⟩
  rw [List.length_append]
  omega

/-- **The run of a call that walks.** It saves registers, computes the data pointers, processes the rows and
restores the registers; only the rows access numbers. -/
theorem Setting.Walked.exists_run {ctx : Setting} {site : CallSite} {s : MachineState} {body : Code}
    {steps stop bound stages : Nat} {stage : (k : Nat) → Instruction → Span → Prop}
    (hwalked : ctx.Walked stages stage stop steps body (execAll Kernel.preamble s))
    (hbegins : site.Begins s) (hstage : ∀ k i span, stage k i span → i.pointer? = none)
    (hbound : Kernel.preamble.length + steps + Kernel.postamble.length ≤ bound)
    (hkept : (Register.rsp, site.stack - 48) ∈ ctx.kept) :
    ∃ pointers rows t, Staged stage stages pointers ∧ storesOf pointers = [] ∧ ctx.Through stop rows t ∧
      run (Kernel.preamble ++ body ++ Kernel.postamble) bound 0 s = some (execAll Kernel.restores t) ∧
      visited (Kernel.preamble ++ body ++ Kernel.postamble) bound 0 s =
        traceAll Kernel.preamble s ++ pointers ++ (rows ++
          (traceAll Kernel.restores t ++ [(.ret, execAll Kernel.restores t)])) ∧
      (∀ v ∈ traceAll Kernel.preamble s ++ pointers, v.1.pointer? = none) ∧
      ∀ v ∈ traceAll Kernel.restores t ++ [(.ret, execAll Kernel.restores t)], v.1.pointer? = none := by
  obtain ⟨pointers, rows, t, hruns, hsteps, hstaged, hsilent, hthrough⟩ := hwalked
  have hlength : Kernel.preamble.length + (pointers ++ rows).length + Kernel.postamble.length ≤ bound := by
    omega
  obtain ⟨hrun, hvisited⟩ := CallSite.run_of_runs hruns hlength
  have hstack : t.words.get .rsp = site.stack - 48 := by
    obtain ⟨_, hat⟩ := hthrough
    exact hat.kept _ hkept
  have hsaves := hbegins.pushed.2.pointer?_eq_none
    (by rintro _ _ ⟨⟨r, rfl⟩, -⟩; rfl)
  have hrestores := (CallSite.restores_spec hstack).2.2.pointer?_eq_none
    (by rintro _ _ ⟨⟨r, rfl⟩, -⟩; rfl)
  have hpointers := hstaged.respects.pointer?_eq_none fun i span ⟨k, h⟩ => hstage k i span h
  refine ⟨pointers, rows, t, hstaged, hsilent, hthrough, hrun, ?_,
    List.forall_mem_append.2 ⟨hsaves, hpointers⟩, List.forall_mem_append.2 ⟨hrestores, by simp; rfl⟩⟩
  rw [hvisited]
  simp

/-- **What the code between the saves and the restores does, a call performs**, if its passes store the
values of the outputs.

**Proof sketch.** The pushes lead to the state in which the computation of the data pointers begins, and
the pops behind the rows read the frame again; none of them is a branch. -/
theorem CallSite.performs_of_walked {site : CallSite} {s : MachineState} {ctx : Setting} {body : Code}
    {steps stop bound stages : Nat} {stage : (k : Nat) → Instruction → Span → Prop}
    {outputs : List Target} (hbegins : site.Begins s) (hkept : (Register.rsp, site.stack - 48) ∈ ctx.kept)
    (hframe : ∀ (r : Register) (span : Span), span.Within site.frame → ctx.admits (.pop r) span)
    (hstage : ∀ k i span, stage k i span → i.pointer? = none)
    (hstarts : outputs.map (·.start) = ctx.targets)
    (hprocess : ∀ passes, Pass.Tiles ctx.first passes stop → (∀ pass ∈ passes, ctx.OnePass pass) →
      ctx.process passes ctx.memory = Pass.storeAll outputs passes (Kernel.saved s))
    (hwalked : ctx.Walked stages stage stop steps body (execAll Kernel.preamble s))
    (hbound : Kernel.preamble.length + steps + Kernel.postamble.length ≤ bound) :
    site.Performs (Kernel.preamble ++ body ++ Kernel.postamble) bound s outputs ctx.first stop
      (ctx.Needs ctx.first stop) (site.Phases stages stage ctx.admits) := by
  obtain ⟨pointers, rows, t, hstaged, hsilent, ⟨_, hat⟩, hrun, hvisited, hbefore, hafter⟩ :=
    hwalked.exists_run hbegins hstage hbound hkept
  obtain ⟨runs, htiles, hmem, hsplit⟩ := hat.passes
  have hstore := hprocess _ htiles fun pass hpass => by
    obtain ⟨run, hrun, rfl⟩ := List.mem_map.1 hpass
    exact (hsplit.holds run hrun).pass
  have hspans : storesOf rows = Pass.spans outputs (runs.map (·.pass)) := by
    rw [hsplit.storesOf fun run hrun => hrun.toBody, Pass.spans_eq_bytes, hstarts]
  obtain ⟨-, hsaves⟩ := hbegins.pushed
  obtain ⟨hrestored, hnone, hrestores⟩ := restores_spec (hat.kept _ hkept)
  refine ⟨⟨_, _, storesOf (traceAll Kernel.preamble s), htiles, hrun, ?_, ?_,
    fun span hspan => ?_⟩, fun v hv hpointer span hspan a ha => ?_, ?_⟩
  · rw [hrestored, hmem, hstore]
  · simp only [hvisited, storesOf_append, hsilent, hspans, hnone]
    simp [Instruction.stores]
  · obtain ⟨-, -, hwithin⟩ := hsaves.of_mem_storesOf hspan
    exact hwithin
  · rw [hvisited] at hv
    rcases List.mem_append.1 hv with hv | hv
    · exact absurd (hbefore v hv) hpointer
    · rcases List.mem_append.1 hv with hv | hv
      · exact hat.needs hv hpointer hspan ha
      · exact absurd (hafter v hv) hpointer
  · have hpops : Respects ctx.admits (traceAll Kernel.restores t) := by
      refine hrestores.mono fun i span h => ?_
      obtain ⟨⟨r, rfl⟩, hwithin⟩ := h
      exact hframe r span hwithin
    rw [hvisited]
    refine ⟨_, _, _, rfl, hsaves, hstaged, ?_⟩
    rw [respects_append, respects_append]
    exact ⟨hat.accesses, hpops, by simp [Instruction.loads, Instruction.stores]⟩

end Pointwise
