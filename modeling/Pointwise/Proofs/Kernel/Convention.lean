import Pointwise.Proofs.Kernel.Call
import Pointwise.Proofs.Kernel.Discipline

/-!
# The calling convention

A kernel is called like any other function. It gives back the stack pointer and the registers that belong
to its caller, which it pushes at its beginning and pops at its end; no instruction in between names the
stack pointer, and none writes the words on the stack.

## Main definitions

* `CallSite.Conforms` — what the convention asks of a call.

## Main results

* `Kernel.readWord_push`, `Kernel.get_pop` — words are pushed to the stack and popped from it.
* `CallSite.Begins.restored` — the restores undo the saves.
* `Compiler.rsp_not_mem_of_generate` — nothing between the saves and the restores names the stack pointer.
* `Setting.Walked.conforms` — a call keeps to the convention.
-/

set_option autoImplicit false

namespace Pointwise

open Machine

/-! ## Words on the stack -/

namespace Kernel

/-- **Words that are pushed** lie on the stack, the last one on top. -/
theorem readWord_push {registers : List Register} (hrsp : .rsp ∉ registers) {s : MachineState}
    {base : Address} (hfits : 8 * registers.length ≤ 2 ^ 64)
    (hstack : s.words.get .rsp = base + BitVec.ofNat 64 (8 * registers.length)) {k : Nat} {r : Register}
    (hk : registers.reverse[k]? = some r) :
    (execAll (registers.map .push) s).memory.readWord (base + BitVec.ofNat 64 (8 * k)) =
      s.words.get r := by
  induction registers generalizing s with
  | nil => simp at hk
  | cons q registers ih =>
    rw [List.mem_cons, not_or] at hrsp
    rw [List.length_cons] at hfits
    obtain ⟨htop, hnext⟩ := get_rsp_push hstack q
    rw [List.map_cons, execAll, List.foldl_cons]
    rw [List.reverse_cons, List.getElem?_append] at hk
    split_ifs at hk with hlater
    · -- one of the later words
      have hmem : r ∈ registers := List.mem_reverse.1 (List.mem_of_getElem? hk)
      have hne : r ≠ .rsp := fun e => hrsp.2 (e ▸ hmem)
      exact (ih hrsp.2 (by omega) hnext hk).trans (RegisterFile.get_set_of_ne hne.symm)
    · -- the first word, which the later ones leave alone
      rw [List.length_reverse] at hlater hk
      rw [List.getElem?_singleton] at hk
      split_ifs at hk with hzero
      obtain rfl := Option.some.inj hk
      obtain rfl : k = registers.length := by omega
      have hapart : Span.Disjoint ⟨base, 8 * registers.length⟩
          ⟨base + BitVec.ofNat 64 (8 * registers.length), 8⟩ := by
        simpa using Span.disjoint_of_le (a := base) (k := 0) (n := 8 * registers.length) (m := 8)
          (Nat.zero_add _).le (by omega)
      refine (Memory.readWord_congr fun a ha => read_push hnext fun hcovers => hapart a hcovers ha).trans ?_
      rw [← htop]
      exact Memory.readWord_writeWord _ _ _

/-- **Words that are popped** get into the registers, which the other registers do not notice. -/
theorem get_pop {registers : List Register} (hrsp : .rsp ∉ registers) (hnodup : registers.Nodup)
    {s : MachineState} {base : Address} {k : Nat}
    (hstack : s.words.get .rsp = base + BitVec.ofNat 64 (8 * k)) :
    (execAll (registers.map .pop) s).words.get .rsp =
        base + BitVec.ofNat 64 (8 * (k + registers.length)) ∧
      (∀ (i : Nat) (r : Register), registers[i]? = some r →
        (execAll (registers.map .pop) s).words.get r =
          s.memory.readWord (base + BitVec.ofNat 64 (8 * (k + i)))) ∧
      ∀ r, r ∉ .rsp :: registers → (execAll (registers.map .pop) s).words.get r = s.words.get r := by
  induction registers generalizing s k with
  | nil => exact ⟨hstack, by simp, fun _ _ => rfl⟩
  | cons q registers ih =>
    rw [List.mem_cons, not_or] at hrsp
    obtain ⟨hq, hnodup⟩ := List.nodup_cons.1 hnodup
    obtain ⟨hend, hwords, hothers⟩ := ih hrsp.2 hnodup (get_rsp_pop hstack hrsp.1)
    rw [List.map_cons, execAll, List.foldl_cons]
    refine ⟨?_, fun i r hi => ?_, fun r hr => ?_⟩
    · rw [List.length_cons, Nat.add_comm registers.length, ← Nat.add_assoc]
      exact hend
    · cases i with
      | zero =>
        obtain rfl := Option.some.inj hi
        have hkept := hothers q (by simp [hq, Ne.symm hrsp.1])
        rw [Nat.add_zero, ← hstack]
        exact hkept.trans (RegisterFile.get_set_self _ _ _)
      | succ i =>
        rw [Nat.add_comm i, ← Nat.add_assoc]
        exact hwords i r hi
    · simp only [List.mem_cons, not_or] at hr
      refine (hothers r (by simp [hr])).trans ?_
      exact (RegisterFile.get_set_of_ne (Ne.symm hr.2.1)).trans (RegisterFile.get_set_of_ne (Ne.symm hr.1))

end Kernel

/-- **The restores undo the saves**, if the frame is as the saves have left it. -/
theorem CallSite.Begins.restored {site : CallSite} {s t : MachineState} (hbegins : site.Begins s)
    (hstack : t.words.get .rsp = site.stack - 48)
    (hframe : ∀ a, site.frame.Covers a → t.memory.read a = (execAll Kernel.preamble s).memory.read a)
    {r : Register} (hr : r ∈ .rsp :: calleeSaved) :
    (execAll Kernel.restores t).words.get r = s.words.get r := by
  have hbase : (Instruction.exec .zeroUpper t).words.get .rsp =
      site.stack - 48 + BitVec.ofNat 64 (8 * 0) := hstack.trans (BitVec.add_zero _).symm
  have hrsp : Register.rsp ∉ calleeSaved ∧ Register.rsp ∉ calleeSaved.reverse := by decide
  obtain ⟨hend, hwords, -⟩ := Kernel.get_pop hrsp.2 (by decide) hbase
  rw [Kernel.restores, execAll, List.foldl_cons, ← execAll]
  rcases List.mem_cons.1 hr with rfl | hr
  · rw [Nat.zero_add, List.length_reverse] at hend
    exact hend.trans hbegins.stack_eq.symm
  · obtain ⟨k, hk⟩ := List.mem_iff_getElem?.1 (List.mem_reverse.2 hr)
    have hlt : k < 6 := (List.getElem?_eq_some_iff.1 hk).1
    have hwithin : Span.Within ⟨site.stack - 48 + BitVec.ofNat 64 (8 * k), 8⟩ site.frame :=
      Span.within_of_le (by omega)
    have hsaved := Kernel.readWord_push hrsp.1 (by decide) hbegins.stack_eq hk
    refine (hwords k r hk).trans (Eq.trans ?_ hsaved)
    rw [Nat.zero_add]
    exact Memory.readWord_congr fun a ha => hframe a (hwithin a ha)

/-! ## The stack pointer -/

namespace Kernel

section Code

variable {kernel : Kernel} {program : Program} {w : VectorWidth} {flags : List Bool} {domain : Domain}
  {mode : KernelMode} {dims : List Nat} {long short : Region}
  (hmade : kernel.MadeFor program domain w mode flags dims long short)
include hmade

/-- The data pointers are computed without the stack pointer. -/
theorem MadeFor.rsp_not_mem_pointers {pointers : Code}
    (hpointers : kernel.pointerCode program.inputs = .ok pointers) :
    ∀ i ∈ pointers, .rsp ∉ i.operands := by
  have hpool : ∀ {r : Nat}, r ∈ kernel.pointers ∨ r ∈ kernel.freeGprs →
      r ∈ gprPool ++ [Register.blockArgument.val] := fun hr =>
    List.mem_append_left _ (mem_gprPool_of_serves hmade.serves hr)
  have hstack : Register.rsp.val ∉ gprPool ++ [Register.blockArgument.val] := by decide
  rw [pointerCode] at hpointers
  intro i hi
  split at hpointers
  · exact (keepsTo_of_staticPointers hstack (fun _ hr => hpool (.inl hr)) (by simp) hpointers i hi).stack
  · exact (keepsTo_of_dynamicPointers hstack (fun _ hr => hpool (.inl hr)) (fun _ hr => hpool (.inr hr))
      hpointers i hi).stack

/-- So are the rows processed. -/
theorem MadeFor.rsp_not_mem_rows {rows : Code}
    (hrows : kernel.scheduler.emit kernel.freeVecs kernel.schedulerPool = .ok rows) :
    ∀ i ∈ rows, .rsp ∉ i.operands := by
  refine forall_mem_rows hmade (fun i hi => hi.stack) (fun p r i hp hmoves => ?_) hrows
  have hpool : Register.rsp.val ∉ gprPool := by decide
  have hne : Register.rsp ≠ r := fun e =>
    hpool (mem_gprPool_of_serves hmade.serves (.inl (e ▸ List.mem_of_getElem? hp)))
  have hblock : Register.rsp ≠ .blockArgument := by decide
  cases hmoves with
  | step | offset => simpa [Instruction.operands]
  | load _ hm => simp [Instruction.operands, MemoryOperand.base_of_behind hm, hne, hblock]

end Code

end Kernel

/-- **Nothing between the saves and the restores names the stack pointer.** -/
theorem Compiler.rsp_not_mem_of_generate {compiler : Compiler} {program : Program} {domain : Domain}
    {mode : KernelMode} {body : Code} (h : compiler.generate program domain mode =
      .ok (Kernel.preamble ++ body ++ Kernel.postamble)) : ∀ i ∈ body, .rsp ∉ i.operands := by
  obtain ⟨w, -, h⟩ := Checked.bind_eq_ok.1 h
  obtain ⟨region, hregion, h⟩ := Checked.bind_eq_ok.1 h
  obtain ⟨kernel, hkernel, hcode⟩ := Checked.bind_eq_ok.1 h
  obtain ⟨flags, dims, long, short, hmade⟩ := madeFor_of_ofRegion hregion hkernel
  obtain ⟨pointers, rows, hpointers, hrows, hpieces⟩ := Kernel.code_eq_ok hcode
  obtain rfl := Computation.eq_of_pieces hpieces
  exact List.forall_mem_append.2 ⟨hmade.rsp_not_mem_pointers hpointers, hmade.rsp_not_mem_rows hrows⟩

/-! ## Calls -/

/-- What the calling convention asks of a call with given outputs. It comes to the `ret` at the end of its
code. The stack pointer and the registers of the caller then hold what they held at the beginning. Nothing
is written but the frame and the outputs. And the instructions on the way that name the stack pointer are
pushes of the registers of the caller, followed by the pops of the same registers. -/
structure CallSite.Conforms (site : CallSite) (code : Code) (outputs : List Span) (s : MachineState)
    (trace : Trace) (t : MachineState) : Prop where
  path : Path code 0 s trace (code.length - 1) t
  ret : code[code.length - 1]? = some .ret
  registers : ∀ r ∈ .rsp :: calleeSaved, t.words.get r = s.words.get r
  stores : ∀ span ∈ storesOf trace, ∃ outer ∈ site.frame :: outputs, span.Within outer
  stack : (trace.map (·.1)).filter (.rsp ∈ ·.operands) =
    calleeSaved.map .push ++ calleeSaved.reverse.map .pop

/-- **All bytes outside of the frame and the outputs stay as they are.** -/
theorem CallSite.Conforms.read {site : CallSite} {code : Code} {outputs : List Span} {s t : MachineState}
    {trace : Trace} (h : site.Conforms code outputs s trace t) {a : Address}
    (ha : ∀ outer ∈ site.frame :: outputs, ¬ outer.Covers a) : t.memory.read a = s.memory.read a := by
  refine h.path.read fun span hspan hcovers => ?_
  obtain ⟨outer, houter, hwithin⟩ := h.stores span hspan
  exact ha outer houter (hwithin a hcovers)

/-- What the code between the saves and the restores writes belongs to the outputs. -/
theorem Setting.Through.within {ctx : Setting} {stop : Nat} (hle : stop ≤ ctx.elements) {trace : Trace}
    {t : MachineState} (h : ctx.Through stop trace t) {span : Span} (hspan : span ∈ storesOf trace) :
    ∃ target ∈ ctx.targets, span.Within ⟨target, 4 * ctx.elements⟩ := by
  obtain ⟨pointer, hat⟩ := h
  obtain ⟨passes, htiles, hstores⟩ := hat.storesOf
  rw [hstores] at hspan
  obtain ⟨pass, hpass, hspan⟩ := List.mem_flatMap.1 hspan
  obtain ⟨target, htarget, rfl⟩ := List.mem_map.1 hspan
  have hstop := (htiles.within pass hpass).2
  exact ⟨target, htarget, Span.within_of_le (by omega)⟩

/-- **A call keeps to the convention** if the code between the saves and the restores walks through its
share of outputs apart from the frame, without naming the stack pointer.

**Proof sketch.** The frame is written by the saves only, so that the restores find what these have put
there. The stack pointer is kept in between. -/
theorem Setting.Walked.conforms {ctx : Setting} {site : CallSite} {s : MachineState} {body : Code}
    {stages stop steps : Nat} {stage : (k : Nat) → Instruction → Span → Prop}
    (hwalked : ctx.Walked stages stage stop steps body (execAll Kernel.preamble s))
    (hbegins : site.Begins s) (hkept : (Register.rsp, site.stack - 48) ∈ ctx.kept)
    (hle : stop ≤ ctx.elements)
    (hapart : ∀ target ∈ ctx.targets, site.frame.Disjoint ⟨target, 4 * ctx.elements⟩)
    (hnames : ∀ i ∈ body, .rsp ∉ i.operands) :
    ∃ trace t, site.Conforms (Kernel.preamble ++ body ++ Kernel.postamble)
        (ctx.targets.map fun target => ⟨target, 4 * ctx.elements⟩) s trace t ∧
      trace.length + 1 ≤ Kernel.preamble.length + steps + Kernel.postamble.length := by
  obtain ⟨pointers, rows, t, hruns, hsteps, -, hsilent, hthrough⟩ := hwalked
  obtain ⟨hpath, hret⟩ := CallSite.path_of_runs hruns
  have hstack : t.words.get .rsp = site.stack - 48 := by
    obtain ⟨_, hat⟩ := hthrough
    exact hat.kept _ hkept
  have hwithin : ∀ span ∈ storesOf (pointers ++ rows),
      ∃ target ∈ ctx.targets, span.Within ⟨target, 4 * ctx.elements⟩ := by
    intro span hspan
    rw [storesOf_append, hsilent, List.nil_append] at hspan
    exact hthrough.within hle hspan
  have hframe : ∀ a, site.frame.Covers a →
      t.memory.read a = (execAll Kernel.preamble s).memory.read a := by
    refine fun a ha => hruns.read fun span hspan hcovers => ?_
    obtain ⟨target, htarget, hspan⟩ := hwithin span hspan
    exact hapart target htarget a ha (hspan a hcovers)
  have hlength : (Kernel.preamble ++ body ++ Kernel.postamble).length - 1 =
      (Kernel.preamble ++ body ++ Kernel.restores).length := by
    rw [Kernel.postamble_eq, ← List.append_assoc, List.length_append, List.length_singleton,
      Nat.add_sub_cancel]
  refine ⟨_, _, ⟨hlength ▸ hpath, hlength ▸ hret, fun r hr => hbegins.restored hstack hframe hr,
    fun span hspan => ?_, ?_⟩, ?_⟩
  · rw [storesOf_append, (CallSite.restores_spec hstack).2.1, List.append_nil, storesOf_append,
      List.mem_append] at hspan
    rcases hspan with hspan | hspan
    · obtain ⟨-, -, hspan⟩ := hbegins.pushed.2.of_mem_storesOf hspan
      exact ⟨_, List.mem_cons_self, hspan⟩
    · obtain ⟨target, htarget, hspan⟩ := hwithin span hspan
      exact ⟨_, List.mem_cons_of_mem _ (List.mem_map.2 ⟨target, htarget, rfl⟩), hspan⟩
  · have hbody : ((pointers ++ rows).map (·.1)).filter (.rsp ∈ ·.operands) = [] := by
      refine List.filter_eq_nil_iff.2 fun i hi => ?_
      obtain ⟨v, hv, rfl⟩ := List.mem_map.1 hi
      simpa using hnames v.1 (hruns.mem_piece hv)
    have hsaves : Kernel.preamble.filter (.rsp ∈ ·.operands) = calleeSaved.map .push := by decide
    have hrestores : Kernel.restores.filter (.rsp ∈ ·.operands) = calleeSaved.reverse.map .pop := by
      decide
    rw [List.map_append, List.map_append, List.filter_append, List.filter_append, hbody,
      List.append_nil, map_fst_traceAll, map_fst_traceAll, hsaves, hrestores]
  · have hend : Kernel.postamble.length = Kernel.restores.length + 1 := by decide
    rw [hend, List.length_append, List.length_append, length_traceAll, length_traceAll]
    omega

end Pointwise
