import Pointwise.Proofs.Kernel.Call

/-!
# The share of a call

A call writes the values of its share of the positions to the outputs, each byte by one store, and
leaves all other numbers of the outputs as they are. It accesses nothing but bytes of its own, the bytes
of its share, the elements of the inputs for its share and the argument block. It does so from every state
in which the kernel is called.

## Main definitions

* `Computation.Advanced` — a memory in which a range of positions has been processed.
* `Computation.Owns` — the bytes of a range of positions.
* `Shares` — calls that share the outputs among them.

## Main results

* `Computation.Computes.run` — one call advances by its share.
* `Computation.Computes.accesses` — the bytes that a call accesses.
* `Computation.Computes.countP_stores` — every byte of the share is written once.
* `Computation.Computes.shares` — all calls together write every byte of the outputs once.
-/

set_option autoImplicit false

namespace Pointwise

open Machine

namespace Computation

variable {c : Computation}

/-- The bytes of all outputs for the positions from `first` to `stop`. -/
def Owns (c : Computation) (first stop : Nat) (a : Address) : Prop :=
  ∃ target ∈ c.targets, Span.Covers ⟨target + BitVec.ofNat 64 (4 * first), 4 * (stop - first)⟩ a

/-- A memory that differs from another one in that the positions from `first` to `stop` have been
processed; the frame and the index vector of the calls may hold anything. -/
structure Advanced (c : Computation) (site : CallSite) (input : (param position : Nat) → Binary32)
    (first stop : Nat) (memory memory' : Memory) : Prop where
  number : ∀ target ∈ c.outputs input, ∀ f < c.domain.elements,
    memory'.readNumber (target.start + BitVec.ofNat 64 (4 * f)) =
      if first ≤ f ∧ f < stop then target.value f
      else memory.readNumber (target.start + BitVec.ofNat 64 (4 * f))
  read : ∀ a, ¬ site.frame.Covers a → ¬ (site.indexSpan c.callDims.length).Covers a →
    ¬ c.Owns first stop a → memory'.read a = memory.read a

/-- The addresses of the outputs. -/
theorem start_mem_targets {input : (param position : Nat) → Binary32} {target : Target}
    (h : target ∈ c.outputs input) : target.start ∈ c.targets := by
  obtain ⟨i, hi, rfl⟩ := List.getElem_of_mem h
  simp only [outputs, List.getElem_zipWith]
  exact List.getElem_mem _

variable {site : CallSite} {input : (param position : Nat) → Binary32} {block : ArgumentBlock}
  {memory memory' memory'' : Memory} {code : Code}

/-! ## Bytes of a range of positions -/

section Owns

variable {first stop first' stop' : Nat} {a : Address}

/-- The bytes of a smaller range. -/
theorem Owns.mono (h : c.Owns first stop a) (hfirst : first' ≤ first) (hstop : stop ≤ stop') :
    c.Owns first' stop' a := by
  obtain ⟨target, htarget, i, hi, rfl⟩ := h
  dsimp only at hi
  refine ⟨target, htarget, 4 * (first - first') + i, by dsimp only; omega, ?_⟩
  rw [Span.add_ofNat_add, Span.add_ofNat_add]
  congr 2
  omega

/-- The bytes of positions belong to the outputs. -/
theorem Owns.span (h : c.Owns first stop a) (hle : first ≤ stop) (hstop : stop ≤ c.domain.elements) :
    ∃ target ∈ c.targets, (c.span target).Covers a := by
  obtain ⟨target, htarget, ha⟩ := h
  exact ⟨target, htarget, Span.within_of_le (by omega) a ha⟩

/-- The bytes of positions are those of their numbers. -/
theorem Owns.exists_number (h : c.Owns first stop a) : ∃ target ∈ c.targets, ∃ f,
    (first ≤ f ∧ f < stop) ∧ Span.Covers ⟨target + BitVec.ofNat 64 (4 * f), 4⟩ a := by
  obtain ⟨target, htarget, ha⟩ := h
  obtain ⟨f, ⟨hfirst, hstop⟩, ha⟩ := Pass.exists_position ha
  exact ⟨target, htarget, f, ⟨hfirst, by omega⟩, ha⟩

/-- **Ranges that follow each other have no byte in common.** -/
theorem Owns.disjoint (hplace : c.InPlace) (h : c.Owns first stop a) (hfirst : first ≤ stop)
    (hle : stop ≤ first') (hfirst' : first' ≤ stop') (hstop : stop' ≤ c.domain.elements) :
    ¬ c.Owns first' stop' a := by
  rintro ⟨target', htarget', ha'⟩
  obtain ⟨target, htarget, ha⟩ := h
  have hfits := hplace.fits
  by_cases heq : target = target'
  · subst heq
    exact Span.disjoint_of_le (by omega) (by omega) a ha ha'
  · exact span_disjoint hplace.targets htarget htarget' heq a (Span.within_of_le (by omega) a ha)
      (Span.within_of_le (by omega) a ha')

/-- The bytes of a number. -/
theorem owns_number {target : Address} (htarget : target ∈ c.targets) {f : Nat} (hfirst : first ≤ f)
    (hstop : f < stop) (ha : Span.Covers ⟨target + BitVec.ofNat 64 (4 * f), 4⟩ a) :
    c.Owns first stop a :=
  Owns.mono ⟨target, htarget, Span.within_of_length_le (by omega) a ha⟩ hfirst (Nat.succ_le_of_lt hstop)

/-- What is needed for fewer positions. -/
theorem Needs.mono (h : c.Needs first stop a) (hfirst : first' ≤ first) (hstop : stop ≤ stop') :
    c.Needs first' stop' a := by
  obtain ⟨p, hp, f, hf, ha⟩ := h
  exact ⟨p, hp, f, ⟨hfirst.trans hf.1, hf.2.trans_le hstop⟩, ha⟩

/-- **What is needed for positions** belongs to no output, or to the outputs for the same positions. -/
theorem Needs.owns (hplace : c.InPlace) (h : c.Needs first stop a) (hstop : stop ≤ c.domain.elements)
    {target : Address} (htarget : target ∈ c.targets) (ha : (c.span target).Covers a) :
    c.Owns first stop a := by
  obtain ⟨p, hp, f, hf, hneeds⟩ := h
  obtain ⟨g, hg, hcovers⟩ := Pass.exists_number ha
  obtain rfl : f = g := by
    by_contra hne
    exact hplace.sources p hp f (by omega) g hg hne target htarget a hneeds hcovers
  exact owns_number htarget hf.1 hf.2 hcovers

/-- **What is needed for positions** is left alone by those of other ranges. -/
theorem Needs.not_owns (hplace : c.InPlace) (h : c.Needs first stop a)
    (hstop : stop ≤ c.domain.elements) (hstop' : stop' ≤ c.domain.elements)
    (hrange : stop ≤ first' ∨ stop' ≤ first) : ¬ c.Owns first' stop' a := by
  intro howns
  obtain ⟨p, hp, f, hf, hneeds⟩ := h
  obtain ⟨target, htarget, g, hg, hcovers⟩ := howns.exists_number
  exact hplace.sources p hp f (by omega) g (by omega) (by omega) target htarget a hneeds hcovers

end Owns

/-! ## Ranges of positions that are processed -/

/-- Nothing has been processed. -/
theorem Advanced.refl (c : Computation) (site : CallSite)
    (input : (param position : Nat) → Binary32) (position : Nat) (memory : Memory) :
    c.Advanced site input position position memory memory where
  number target htarget f hf := by rw [if_neg (by omega)]
  read _ _ _ _ := rfl

/-- Ranges of positions that follow each other. -/
theorem Advanced.trans {first middle stop : Nat} (hle : first ≤ middle) (hle' : middle ≤ stop)
    (h : c.Advanced site input first middle memory memory')
    (h' : c.Advanced site input middle stop memory' memory'') :
    c.Advanced site input first stop memory memory'' where
  number target htarget f hf := by
    rw [h'.number target htarget f hf, h.number target htarget f hf]
    by_cases hmiddle : f < middle
    · rw [if_neg (by omega)]
      by_cases hfirst : first ≤ f
      · rw [if_pos (by omega), if_pos (by omega)]
      · rw [if_neg (by omega), if_neg (by omega)]
    · by_cases hstop : f < stop
      · rw [if_pos (by omega), if_pos (by omega)]
      · rw [if_neg (by omega), if_neg (by omega), if_neg (by omega)]
  read a hframe hindex howns :=
    (h'.read a hframe hindex fun h => howns (h.mono hle le_rfl)).trans
      (h.read a hframe hindex fun h => howns (h.mono le_rfl hle'))

/-- **What has been processed leaves a memory ready** for other positions. -/
theorem Advanced.readyFor {first stop first' stop' : Nat} (hplace : c.InPlace) (hhosts : c.Hosts site)
    (h : c.Advanced site input first stop memory memory') (hle : first ≤ stop)
    (hstop : stop ≤ c.domain.elements) (hstop' : stop' ≤ c.domain.elements)
    (hrange : stop' ≤ first ∨ stop ≤ first')
    (hready : c.ReadyFor block site input first' stop' memory) :
    c.ReadyFor block site input first' stop' memory' := by
  refine hready.congr (fun a ha => ?_) fun a ha => ?_
  · refine h.read a (fun hf => hhosts.frame_block a hf ha) (fun hi => hhosts.index_block a hi ha) ?_
    intro howns
    obtain ⟨target, htarget, hcovers⟩ := howns.span hle hstop
    exact hhosts.block_targets target htarget a ha hcovers
  · have hreads := ha.reads hstop'
    exact h.read a (hhosts.frame_sources a hreads) (hhosts.index_sources a hreads)
      (ha.not_owns hplace hstop' hstop hrange)

/-! ## What a call does -/

section Call

variable {call : Nat} {s : MachineState}

/-- **One call advances by its share.** -/
theorem Computes.run (h : c.Computes code block) (hplace : c.InPlace) (hhosts : c.Hosts site)
    (hcalled : site.Called (Shape.unravel c.callDims call) block s)
    (hfinds : c.Finds input (call * c.share) ((call + 1) * c.share) s.memory)
    (hcall : call < c.callDims.count) :
    ∃ t, Machine.run code (KernelImage.stepBound ⟨code⟩ c.domain.tiled) 0 s = some t ∧
      c.Advanced site input (call * c.share) ((call + 1) * c.share) s.memory t.memory := by
  obtain ⟨mode, h⟩ := h
  obtain ⟨⟨passes, t, _, htiles, hrun, hmemory, -, -⟩, -⟩ := h site input s call hhosts hcalled hfinds hcall
  have hstop := share_le hplace.toProper hcall
  have hwithin : ∀ pass ∈ passes, pass.first + pass.width ≤ c.domain.elements :=
    fun pass hpass => (htiles.within pass hpass).2.trans hstop
  refine ⟨t, hrun, ?_, ?_⟩
  · intro target htarget f hf
    have hmem := start_mem_targets htarget
    rw [hmemory, Pass.readNumber_storeAll (apart hplace input) hwithin htarget hf,
      if_congr htiles.exists_covers rfl rfl]
    split
    · rfl
    · refine Memory.readNumber_congr fun a ha => ?_
      have hspan : (c.span target.start).Covers a := Pass.within_target hf target a ha
      exact hcalled.begins.read_saved fun hcovers => hhosts.frame_targets _ hmem a hcovers hspan
  · intro a hframe hspan howns
    rw [hmemory, Pass.read_storeAll fun pass hpass target htarget hcovers => howns ?_]
    · exact hcalled.begins.read_saved hframe
    · obtain ⟨hfirst, hlast⟩ := htiles.within pass hpass
      refine Owns.mono ⟨target.start, start_mem_targets htarget, ?_⟩ hfirst hlast
      rwa [Nat.add_sub_cancel_left]

/-- In a memory that is ready the kernel is called when the index vector has been written. -/
theorem ReadyFor.called (hhosts : c.Hosts site) {first stop : Nat} {memory : Memory}
    (h : c.ReadyFor block site input first stop memory) (found : Core) (call : Nat) :
    site.Called (Shape.unravel c.callDims call) block
      (site.start found memory (Shape.unravel c.callDims call)) := by
  have hindex := Shape.length_unravel c.callDims call
  exact called_start found (hindex ▸ hhosts.index_le) (hindex ▸ hhosts.index_block) h.block

/-- **So does a call that begins in a memory that is ready**, whatever it finds in the registers. -/
theorem Computes.run_start (h : c.Computes code block) (hplace : c.InPlace) (hhosts : c.Hosts site)
    {memory : Memory}
    (hready : c.ReadyFor block site input (call * c.share) ((call + 1) * c.share) memory)
    (hcall : call < c.callDims.count) (found : Core) :
    ∃ t, Machine.run code (KernelImage.stepBound ⟨code⟩ c.domain.tiled) 0
        (site.start found memory (Shape.unravel c.callDims call)) = some t ∧
      c.Advanced site input (call * c.share) ((call + 1) * c.share) memory t.memory := by
  have hindex := Shape.length_unravel c.callDims call
  have hstop := share_le hplace.toProper hcall
  -- writing the index vector changes nothing that the call needs
  have hfinds : c.Finds input (call * c.share) ((call + 1) * c.share)
      (site.start found memory (Shape.unravel c.callDims call)).memory :=
    hready.input.congr fun a ha =>
      read_start found (hindex ▸ hhosts.index_sources a (ha.reads hstop))
  obtain ⟨t, hrun, hadvanced⟩ := h.run hplace hhosts (hready.called hhosts found call) hfinds hcall
  refine ⟨t, hrun, fun target htarget f hf => ?_, fun a hframe hspan howns => ?_⟩
  · rw [hadvanced.number target htarget f hf]
    refine if_congr Iff.rfl rfl (Memory.readNumber_congr fun a ha => read_start found fun hcovers => ?_)
    exact hhosts.index_targets _ (start_mem_targets htarget) a (hindex ▸ hcovers)
      (Pass.within_target hf target a ha)
  · rw [hadvanced.read a hframe hspan howns]
    exact read_start found (hindex ▸ hspan)

/-- **The bytes that a call accesses.** -/
theorem Computes.accesses (h : c.Computes code block) (hhosts : c.Hosts site)
    (hcalled : site.Called (Shape.unravel c.callDims call) block s) (hcall : call < c.callDims.count) :
    ∀ x ∈ visited code (KernelImage.stepBound ⟨code⟩ c.domain.tiled) 0 s,
      (∀ span ∈ x.1.loads x.2, ∀ a, span.Covers a →
        site.frame.Covers a ∨ c.Arguments site a ∨ c.Needs (call * c.share) ((call + 1) * c.share) a) ∧
      ∀ span ∈ x.1.stores x.2, ∀ a, span.Covers a →
        site.frame.Covers a ∨ c.Owns (call * c.share) ((call + 1) * c.share) a := by
  obtain ⟨mode, h⟩ := h
  have hperforms := h site _ s call hhosts hcalled (c.finds_inputOf _ _ _) hcall
  obtain ⟨passes, t, saves, htiles, -, -, hstores, hsaves⟩ := hperforms.passes
  rw [KernelImage.stepBound]
  intro x hx
  refine ⟨fun span hspan a ha => ?_, fun span hspan a ha => ?_⟩
  · exact loads_of_performs hperforms hx hspan ha
  · have hmem : span ∈ storesOf (visited code _ 0 s) := List.mem_flatMap.2 ⟨x, hx, hspan⟩
    rw [hstores, List.mem_append] at hmem
    rcases hmem with hmem | hmem
    · exact .inl (hsaves span hmem a ha)
    · obtain ⟨pass, hpass, hmem⟩ := List.mem_flatMap.1 hmem
      obtain ⟨target, htarget, rfl⟩ := List.mem_map.1 hmem
      obtain ⟨hfirst, hstop⟩ := htiles.within pass hpass
      refine .inr (Owns.mono ⟨target.start, start_mem_targets htarget, ?_⟩ hfirst hstop)
      rwa [Nat.add_sub_cancel_left]

/-- **Every byte of the share is written by one store**, and no other byte of the outputs. -/
theorem Computes.countP_stores (h : c.Computes code block) (hplace : c.InPlace) (hhosts : c.Hosts site)
    (hcalled : site.Called (Shape.unravel c.callDims call) block s) (hcall : call < c.callDims.count)
    {target : Address} (htarget : target ∈ c.targets) {i : Nat} (hi : i < 4 * c.domain.elements) :
    (storesOf (visited code (KernelImage.stepBound ⟨code⟩ c.domain.tiled) 0 s)).countP
        (fun span => span.Covers (target + BitVec.ofNat 64 i)) =
      if i / (4 * c.share) = call then 1 else 0 := by
  obtain ⟨mode, h⟩ := h
  obtain ⟨⟨passes, t, saves, htiles, -, -, hstores, hsaves⟩, -⟩ :=
    h site _ s call hhosts hcalled (c.finds_inputOf _ _ _) hcall
  obtain ⟨output, houtput, rfl⟩ :=
    List.mem_map.1 ((map_start_outputs hplace.toProper (c.inputOf s.memory)).symm ▸ htarget)
  have hnone : saves.countP (fun span => span.Covers (output.start + BitVec.ofNat 64 i)) = 0 := by
    rw [List.countP_eq_zero]
    intro span hspan hcovers
    exact hhosts.frame_targets _ htarget _ (hsaves span hspan _ (of_decide_eq_true hcovers))
      (Span.covers_add _ hi)
  have hrange : call * c.share ≤ i / 4 ∧ i / 4 < (call + 1) * c.share ↔ i / (4 * c.share) = call := by
    rw [← Nat.div_div_eq_div_mul, Nat.div_eq_iff (share_pos hplace.toProper), Nat.succ_mul]
    have hpos := share_pos hplace.toProper
    omega
  rw [KernelImage.stepBound, hstores, List.countP_append, hnone, Nat.zero_add,
    htiles.countP_spans (apart hplace _) (share_le hplace.toProper hcall) houtput hi,
    if_congr hrange rfl rfl]

end Call

end Computation

/-! ## The shares of all calls -/

/-- The bytes that a call writes that begins in a state, one entry for each store. -/
def KernelImage.stores (image : KernelImage) (work : WorkAmounts) (s : MachineState) : List Span :=
  storesOf (visited image.code (image.stepBound work) 0 s)

/-- Calls that share outputs of a number of elements among them. -/
structure Shares (targets : List Address) (elements : Nat) (calls : List (List Nat))
    (frame : List Nat → Span) (stores : List Nat → List Span) : Prop where
  /-- Every byte of an output is written by one store of one call. -/
  once : ∀ target ∈ targets, ∀ i < 4 * elements,
    (calls.flatMap stores).countP (fun span => span.Covers (target + BitVec.ofNat 64 i)) = 1
  /-- No two calls write the same byte of an output. -/
  disjoint : calls.Pairwise fun index other => ∀ target ∈ targets, ∀ a,
    Span.Covers ⟨target, 4 * elements⟩ a → ∀ span ∈ stores index, span.Covers a →
      ∀ span' ∈ stores other, ¬ span'.Covers a
  /-- Nothing is written but outputs and the frame of the call. -/
  within : ∀ index ∈ calls, ∀ span ∈ stores index, ∀ a, span.Covers a →
    (frame index).Covers a ∨ ∃ target ∈ targets, Span.Covers ⟨target, 4 * elements⟩ a

/-- Among consecutive numbers a number occurs once. -/
theorem sum_range_ite {n m : Nat} (h : m < n) :
    ((List.range n).map fun k => if m = k then 1 else 0).sum = 1 := by
  have hrange : ∀ n, ((List.range n).map fun k => if m = k then 1 else 0).sum =
      if m < n then 1 else 0 := by
    intro n
    induction n with
    | zero => rfl
    | succ n ih =>
      rw [List.range_succ, List.map_append, List.sum_append, ih, List.map_singleton,
        List.sum_singleton]
      split <;> split <;> split <;> omega
  rw [hrange, if_pos h]

namespace Computation

variable {c : Computation} {site : List Nat → CallSite} {block : ArgumentBlock}
  {s : List Nat → MachineState} {code : Code}

/-- The bytes of a range of calls belong to the outputs. -/
theorem owns_calls (hproper : c.Proper) {first stop : Nat} (hle : first ≤ stop)
    (hstop : stop ≤ c.callDims.count) {a : Address} (h : c.Owns (first * c.share) (stop * c.share) a) :
    ∃ target ∈ c.targets, (c.span target).Covers a :=
  h.span (Nat.mul_le_mul_right _ hle)
    ((Nat.mul_le_mul_right _ hstop).trans_eq (count_mul_share hproper))

/-- What a call writes to outputs, it owns. -/
theorem Computes.owns_of_stores (h : c.Computes code block) {site : CallSite} (hhosts : c.Hosts site)
    {s : MachineState} {call : Nat} (hcalled : site.Called (Shape.unravel c.callDims call) block s)
    (hcall : call < c.callDims.count) {span : Span}
    (hspan : span ∈ KernelImage.stores ⟨code⟩ c.domain.tiled s) {a : Address} (ha : span.Covers a) :
    site.frame.Covers a ∨ c.Owns (call * c.share) ((call + 1) * c.share) a := by
  obtain ⟨x, hx, hspan⟩ := List.mem_flatMap.1 hspan
  exact (h.accesses hhosts hcalled hcall x hx).2 span hspan a ha

/-- **The calls of a computation share the outputs among them**, wherever each of them is made and
whatever it finds in registers and memory. -/
theorem Computes.shares (h : c.Computes code block) (hvalid : c.Valid)
    (hhosts : ∀ call < c.callDims.count, c.Hosts (site (Shape.unravel c.callDims call)))
    (hcalled : ∀ call < c.callDims.count,
      (site (Shape.unravel c.callDims call)).Called (Shape.unravel c.callDims call) block
        (s (Shape.unravel c.callDims call))) :
    Shares c.targets c.domain.elements ((List.range c.callDims.count).map (Shape.unravel c.callDims))
      (fun index => (site index).frame)
      fun index => KernelImage.stores ⟨code⟩ c.domain.tiled (s index) := by
  have hmul := count_mul_share hvalid.toProper
  constructor
  · intro target htarget i hi
    have hcount := fun call (hcall : call ∈ List.range c.callDims.count) =>
      h.countP_stores hvalid.inPlace (hhosts call (List.mem_range.1 hcall))
        (hcalled call (List.mem_range.1 hcall)) (List.mem_range.1 hcall) htarget hi
    have hlt : i / (4 * c.share) < c.callDims.count := by
      refine Nat.div_lt_of_lt_mul ?_
      rwa [Nat.mul_assoc, Nat.mul_comm c.share, hmul]
    rw [List.flatMap_map, List.countP_flatMap]
    exact (congrArg List.sum (List.map_congr_left hcount)).trans (sum_range_ite hlt)
  · rw [List.pairwise_map]
    refine List.pairwise_lt_range.imp_of_mem fun {call other} hcall hother hlt target htarget a ha span
      hspan hcovers span' hspan' hcovers' => ?_
    rw [List.mem_range] at hcall hother
    -- neither of them writes the byte by a save
    rcases h.owns_of_stores (hhosts _ hcall) (hcalled _ hcall) hcall hspan hcovers with hframe | howns
    · exact (hhosts _ hcall).frame_targets target htarget a hframe ha
    rcases h.owns_of_stores (hhosts _ hother) (hcalled _ hother) hother hspan' hcovers' with hframe | howns'
    · exact (hhosts _ hother).frame_targets target htarget a hframe ha
    exact howns.disjoint hvalid.inPlace (Nat.mul_le_mul_right _ (Nat.le_succ call))
      (Nat.mul_le_mul_right _ hlt) (Nat.mul_le_mul_right _ (Nat.le_succ other))
      (share_le hvalid.toProper hother) howns'
  · intro index hindex span hspan a ha
    obtain ⟨call, hcall, rfl⟩ := List.mem_map.1 hindex
    rw [List.mem_range] at hcall
    exact (h.owns_of_stores (hhosts _ hcall) (hcalled _ hcall) hcall hspan ha).imp_right
      (owns_calls hvalid.toProper (Nat.le_succ call) hcall)

end Computation

end Pointwise
