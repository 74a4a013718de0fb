import Pointwise.Proofs.Region.Simulation

/-!
# One run of a tile's body

In a kernel call the body of a tile processes a pass: it finds the elements of consecutive positions
behind the pointers of the inputs, or the single one of an input that does not move, and stores the values
of the outputs for them.

## Main definitions

* `Program.BodySource.Matches` — a body that is made for a setting.

## Main results

* `Setting.At.exists_run` — a body processes a pass.
-/

set_option autoImplicit false

namespace Pointwise

open Machine

/-- A body that is made for a setting. -/
structure Program.BodySource.Matches (source : BodySource) (ctx : Setting) : Prop where
  shares : source.Shares ctx.program
  free : ∀ r ∈ source.registers, r ∉ source.vecs
  pointers : ∀ (p : Nat) (r : Register), p < ctx.program.params →
    source.pointers[p]? = some r.val → ctx.pointers[p]? = some r
  moves : ∀ (p : Nat) (b : Bool), source.broadcast[p]? = some b → ctx.moves p = !b
  gprs : ∀ r : Register, r ∈ ctx.pointers ∨ r ∈ ctx.kept.map (·.1) → r.val ∉ source.gprs

namespace Setting

variable {ctx : Setting} {source : Program.BodySource} {pass : Pass}

/-- The registers of a body that is made for a setting do not get in each other's way. -/
theorem separate_of_matches (hmatches : source.Matches ctx) : source.Separate ctx.program :=
  ⟨hmatches.shares, hmatches.free, fun p q hp hq =>
    hmatches.gprs q (.inl (List.mem_of_getElem? (hmatches.pointers p q hp hq)))⟩

section At

variable {trace : Trace} {s : MachineState}
  (h : ctx.At pass.first (ctx.place · pass.first) trace s)
include h

/-- A body finds the elements of a pass. -/
theorem At.reads (hmatches : source.Matches ctx) (hpass : ctx.OnePass pass)
    (hwidth : pass.width = source.kind.width source.w) :
    source.Reads ctx.program (ctx.reading s.memory) pass s where
  width := hwidth
  arith := rfl
  start := hpass.start
  input p q flag hp hq hflag j hj := by
    have hpointer := hmatches.pointers p q (by rw [Program.params]; omega) hq
    rw [reading_input, hpass.place p hp j hj, MachineState.element, h.pointer p q hpointer,
      hmatches.moves p flag hflag]
    cases flag <;> rfl

/-- It has to store the values of the outputs for the memory that it finds. -/
theorem At.writes (hsound : ctx.Sound) (hmatches : source.Matches ctx)
    (hfirst : pass.first < ctx.elements) :
    source.Writes ctx.program (ctx.reading s.memory) pass s (ctx.outputs s.memory) where
  value := by
    refine List.ext_getElem ?_ fun i _ _ => ?_
    · rw [List.length_map, List.length_map, length_outputs hsound.length_targets]
    · simp [outputs]
  start k target q htarget hq := by
    obtain ⟨hk, hget⟩ := List.getElem?_eq_some_iff.1 htarget
    have hlt : k < ctx.program.outputs.length := length_outputs hsound.length_targets s.memory ▸ hk
    have hstart : ctx.targets[k]? = some target.start := by
      rw [← map_start_outputs hsound.length_targets s.memory, List.getElem?_map, htarget,
        Option.map_some]
    have hpointer := hmatches.pointers _ q (by rw [Program.params]; omega) hq
    rw [h.pointer _ q hpointer, hsound.output k target.start hstart _ hfirst]
    rfl

/-- What a body loads it is admitted to. -/
theorem At.respects_loads (hsound : ctx.Sound) (hmatches : source.Matches ctx)
    (hpass : ctx.OnePass pass) (hwidth : pass.width = source.kind.width source.w)
    {loading : Trace} (hloading : ∀ v ∈ loading, source.Loads ctx.program s v) :
    Respects ctx.admits loading := by
  intro v hv span hspan
  obtain ⟨hstores, hloads⟩ := hloading v hv
  rw [hstores, List.append_nil] at hspan
  rcases hloads with hnone | ⟨p, flag, d, q, hp, hq, hflag, hinstruction, hwords⟩
  · rw [hnone] at hspan
    simp at hspan
  · have hpointer := hmatches.pointers p q (by rw [Program.params]; omega) hq
    have hmoves := hmatches.moves p flag hflag
    have hle := hpass.le
    have hpos := source.kind.width_pos source.w
    have hload := hsound.load p hp q hpointer pass.first (by omega) d
    rw [h.pointer p q hpointer] at hwords
    rw [hinstruction] at hspan ⊢
    -- the three loads differ in the bytes that they read
    cases hkind : source.kind with
    | scalar =>
      rw [hkind] at hspan
      obtain rfl := List.mem_singleton.1 hspan
      rw [hwords]
      exact hload.1
    | vector =>
      rw [hkind] at hspan hwidth
      cases flag with
      | true =>
        obtain rfl := List.mem_singleton.1 hspan
        rw [hwords]
        exact hload.2 source.w
      | false =>
        rw [BodyKind.width] at hwidth
        obtain rfl := List.mem_singleton.1 hspan
        rw [hwords]
        exact hsound.loadVector p hp q hpointer hmoves source.w d pass.first (by omega)
          fun j hj => hpass.start j (by omega)

/-- So is what it stores. -/
theorem At.respects_stores (hsound : ctx.Sound) (hmatches : source.Matches ctx)
    (hpass : ctx.OnePass pass) (hwidth : pass.width = source.kind.width source.w)
    {storing : Trace} (hstoring : ∀ v ∈ storing, source.Stores ctx.program s v) :
    Respects ctx.admits storing := by
  intro v hv span hspan
  obtain ⟨k, q, r, hk, hq, hinstruction, hwords⟩ := hstoring v hv
  have hle := hpass.le
  have hpos := source.kind.width_pos source.w
  obtain ⟨target, htarget⟩ : ∃ target, ctx.targets[k]? = some target :=
    ⟨_, List.getElem?_eq_getElem (hsound.length_targets ▸ hk)⟩
  have hpointer := hmatches.pointers _ q (by rw [Program.params]; omega) hq
  obtain ⟨hlane, hvector⟩ := hsound.store k q target hpointer htarget r pass.first
  rw [h.pointer _ q hpointer, hsound.output k target htarget _ (by omega)] at hwords
  rw [hinstruction, loads_storeInstruction, List.nil_append] at hspan
  rw [hinstruction]
  cases hkind : source.kind with
  | scalar =>
    rw [hkind] at hspan
    obtain rfl := List.mem_singleton.1 hspan
    rw [hwords]
    exact hlane (by omega)
  | vector =>
    rw [hkind] at hspan hwidth
    rw [BodyKind.width] at hwidth
    obtain rfl := List.mem_singleton.1 hspan
    rw [hwords]
    exact hvector source.w (by omega)

/-- **What a body loads through a data pointer** are the elements of an input for the pass. -/
theorem At.loads_eq (hmatches : source.Matches ctx) (hwidth : pass.width = source.kind.width source.w)
    {loading : Trace} (hloading : ∀ v ∈ loading, source.Loads ctx.program s v) :
    ∀ v ∈ loading, ∀ q, v.1.pointer? = some q → ∃ p < ctx.program.inputs, ctx.pointers[p]? = some q ∧
      v.1.loads v.2 = [⟨ctx.place p pass.first, 4 * if ctx.moves p then pass.width else 1⟩] := by
  intro v hv q hq
  obtain ⟨hstores, hnone | ⟨p, flag, d, r, hp, hr, hflag, hinstruction, hwords⟩⟩ := hloading v hv
  · rw [Instruction.pointer?_eq_none hnone hstores] at hq
    cases hq
  · have hpointer := hmatches.pointers p r (by rw [Program.params]; omega) hr
    rw [h.pointer p r hpointer] at hwords
    rw [hinstruction] at hq ⊢
    refine ⟨p, hp, ?_, ?_⟩
    · rw [hpointer, ← hq]
      cases source.kind <;> cases flag <;> rfl
    · rw [hmatches.moves p flag hflag, hwidth, ← hwords]
      cases source.kind <;> cases flag <;> rfl

end At

/-- **A body processes a pass**, and changes no general register but its own. -/
theorem At.exists_run {trace : Trace} {s : MachineState}
    (h : ctx.At pass.first (ctx.place · pass.first) trace s) (hsound : ctx.Sound)
    (hmatches : source.Matches ctx) (hpass : ctx.OnePass pass)
    (hwidth : pass.width = source.kind.width source.w) {code : Code}
    (hcode : ctx.program.IsBody source code) :
    ∃ trace' t, Runs code s trace' t ∧ trace'.length ≤ code.length ∧
      (∀ r : Register, r.val ∉ source.gprs → t.words.get r = s.words.get r) ∧
      ctx.At (pass.first + pass.width) (ctx.place · pass.first) (trace ++ trace') t := by
  have hfirst : pass.first < ctx.elements := by
    have hpos := source.kind.width_pos source.w
    have hle := hpass.le
    omega
  obtain ⟨loading, storing, t, hruns, hle, hloads, ht⟩ := hcode.exists_run
    (separate_of_matches hmatches) (h.reads hmatches hpass hwidth) (h.writes hsound hmatches hfirst)
  obtain ⟨runs, htiles, hmem, hsplit⟩ := h.passes
  have hmemory := ht.memory
  have hstored := ht.spans
  rw [List.take_length] at hmemory hstored
  have hprocesses : ∀ leading, Quiet leading → ctx.Processes ⟨pass, leading, loading, storing⟩ :=
    fun leading hquiet => {
      leading := hquiet
      body := ⟨source, code, s, t, hcode, hruns⟩
      loading := fun v hv => (hloads v hv).1
      storing := fun v hv => by
        obtain ⟨_, _, _, _, _, hinstruction, _⟩ := ht.stores v hv
        rw [hinstruction, loads_storeInstruction]
      stores := by
        rw [hstored, ← map_start_outputs hsound.length_targets s.memory, List.map_map]
        rfl
      pass := hpass
      pos := hwidth ▸ source.kind.width_pos source.w
      loads := h.loads_eq hmatches hwidth hloads }
  obtain ⟨run, hrun, hsplit⟩ := hsplit.concat hprocesses
  refine ⟨_, t, hruns, hle, ht.words, ⟨runs ++ [run], ?_, ?_, hsplit⟩, fun p r hr => ?_,
    fun x hx => ?_, ?_⟩
  · rw [List.map_append, List.map_singleton, hrun]
    exact htiles.concat pass.width
  · rw [hmemory, hmem, List.map_append, List.map_singleton, hrun, process_append]
    rfl
  · rw [ht.words r (hmatches.gprs r (.inl (List.mem_of_getElem? hr))), h.pointer p r hr]
  · rw [ht.words x.1 (hmatches.gprs x.1 (.inr (List.mem_map.2 ⟨x, hx, rfl⟩))), h.kept x hx]
  · exact respects_append.2 ⟨h.accesses, respects_append.2
      ⟨h.respects_loads hsound hmatches hpass hwidth hloads,
        h.respects_stores hsound hmatches hpass hwidth ht.stores⟩⟩

end Setting

end Pointwise
