import Pointwise.Proofs.Kernel.Share

/-!
# Calls one after the other

The calls of a computation make the outputs from beginning to end, each of them its share. As the argument
block and the elements of the inputs for other positions stay as they are, the next call finds everything
that it needs.

## Main results

* `Computation.Computes.foldlM_call` — the first calls process the first positions.
* `Computation.Computes.callAll_of_inPlace` — all calls together write the values of all positions.
-/

set_option autoImplicit false

namespace Pointwise

open Machine

namespace Computation

variable {c : Computation}

variable {site : CallSite} {input : (param position : Nat) → Binary32} {block : ArgumentBlock}
  {memory : Memory} {code : Code}

/-- One call, as one of a sequence. -/
theorem Computes.call (h : c.Computes code block) (hplace : c.InPlace) (hhosts : c.Hosts site)
    {call : Nat} (hready : c.ReadyFor block site input (call * c.share) ((call + 1) * c.share) memory)
    (hcall : call < c.callDims.count) (found : Residue) :
    ∃ memory', KernelImage.call ⟨code⟩ (KernelImage.stepBound ⟨code⟩ c.domain.tiled) site found memory
        (Shape.unravel c.callDims call) = .ok memory' ∧
      c.Advanced site input (call * c.share) ((call + 1) * c.share) memory memory' := by
  obtain ⟨t, hrun, hadvanced⟩ := h.run_start hplace hhosts hready hcall (found _)
  rw [CallSite.start] at hrun
  exact ⟨t.memory, by rw [KernelImage.call, hrun], hadvanced⟩

/-- **The calls before a call leave it ready**: they process other positions. -/
theorem Advanced.readyFor_call (hplace : c.InPlace) (hhosts : c.Hosts site)
    (hready : c.Ready block site input memory) {first call : Nat} {memory' : Memory} (hle : first ≤ call)
    (hcall : call < c.callDims.count)
    (h : c.Advanced site input (first * c.share) (call * c.share) memory memory') :
    c.ReadyFor block site input (call * c.share) ((call + 1) * c.share) memory' := by
  have hstop := share_le hplace.toProper hcall
  exact h.readyFor hplace hhosts (Nat.mul_le_mul_right _ hle)
    ((Nat.mul_le_mul_right _ (Nat.le_succ call)).trans hstop) hstop (.inr le_rfl) (hready.readyFor hstop)

/-- The first calls, one after the other. -/
theorem Computes.foldlM_call (h : c.Computes code block) (hplace : c.InPlace) (hhosts : c.Hosts site)
    (hready : c.Ready block site input memory) (found : Residue) {count : Nat}
    (hcount : count ≤ c.callDims.count) :
    ∃ memory', ((List.range count).map (Shape.unravel c.callDims)).foldlM
        (KernelImage.call ⟨code⟩ (KernelImage.stepBound ⟨code⟩ c.domain.tiled) site found) memory =
          .ok memory' ∧ c.Advanced site input 0 (count * c.share) memory memory' := by
  induction count with
  | zero =>
    rw [Nat.zero_mul]
    exact ⟨memory, rfl, .refl c site input 0 memory⟩
  | succ count ih =>
    obtain ⟨memory', hfold, hadvanced⟩ := ih (Nat.le_of_lt hcount)
    have hnext := Advanced.readyFor_call hplace hhosts hready (Nat.zero_le count) hcount
      (by rwa [Nat.zero_mul])
    obtain ⟨memory'', hcall, hnext⟩ := h.call hplace hhosts hnext hcount found
    refine ⟨memory'', ?_, hadvanced.trans (Nat.zero_le _)
      (Nat.mul_le_mul_right _ (Nat.le_succ count)) hnext⟩
    rw [List.range_succ, List.map_append, List.foldlM_append, hfold, Checked.ok_bind,
      List.map_singleton, List.foldlM_cons, hcall, Checked.ok_bind]
    rfl

/-- A memory that holds the inputs is ready when the argument block is written. -/
theorem ready_writeWords (hhosts : c.Hosts site)
    (hinput : ∀ p < c.program.inputs, ∀ f < c.domain.elements,
      memory.readNumber (c.place p f) = input p f) (block : ArgumentBlock) :
    c.Ready block site input (memory.writeWords site.block block.words) where
  block _ _ hvalue := hvalue.readWord memory site.block
  input p hp f hf := by
    rw [← hinput p hp f hf]
    refine Memory.readNumber_congr fun a ha => Memory.read_writeWords fun hcovers => ?_
    rw [Nat.mul_comm, ArgumentBlock.length_words] at hcovers
    exact hhosts.block_sources a ⟨p, hp, f, hf, ha⟩ hcovers

/-- **All calls together write the values of all positions**, and nothing but the outputs and the
bytes of the calls, whatever each of them finds in the registers. They may do so in place.

**Proof sketch.** Each call finds the elements for its share and the argument block, because the calls
before it wrote to their own bytes and to outputs for other positions only. The shares follow each other
from the first position to the last. -/
theorem Computes.callAll_of_inPlace (h : c.Computes code block) (hplace : c.InPlace)
    (hhosts : c.Hosts site) (hinput : ∀ p < c.program.inputs, ∀ f < c.domain.elements,
      memory.readNumber (c.place p f) = input p f) (found : Residue) :
    ∃ memory', KernelImage.callAll ⟨code⟩ c.domain.tiled site found block
        ((List.range c.callDims.count).map (Shape.unravel c.callDims)) memory = .ok memory' ∧
      (∀ target ∈ c.outputs input, ∀ f < c.domain.elements,
        memory'.readNumber (target.start + BitVec.ofNat 64 (4 * f)) = target.value f) ∧
      ∀ a, ¬ site.frame.Covers a → ¬ (site.indexSpan c.callDims.length).Covers a →
        ¬ site.blockSpan.Covers a → (∀ target ∈ c.targets, ¬ (c.span target).Covers a) →
        memory'.read a = memory.read a := by
  obtain ⟨memory', hfold, hadvanced⟩ :=
    h.foldlM_call hplace hhosts (ready_writeWords hhosts hinput block) found le_rfl
  rw [count_mul_share hplace.toProper] at hadvanced
  refine ⟨memory', hfold, fun target htarget f hf => ?_, fun a hframe hindex hblock htargets => ?_⟩
  · rw [hadvanced.number target htarget f hf, if_pos ⟨Nat.zero_le f, hf⟩]
  · refine (hadvanced.read a hframe hindex fun howns => ?_).trans
      (Memory.read_writeWords fun hcovers => ?_)
    · obtain ⟨target, htarget, hcovers⟩ := howns.span (Nat.zero_le _) le_rfl
      exact htargets target htarget hcovers
    · rw [Nat.mul_comm, ArgumentBlock.length_words] at hcovers
      exact hblock hcovers

/-- In particular they do where inputs are apart from the outputs. -/
theorem Computes.callAll (h : c.Computes code block) (hvalid : c.Valid) (hhosts : c.Hosts site)
    (hinput : ∀ p < c.program.inputs, ∀ f < c.domain.elements,
      memory.readNumber (c.place p f) = input p f) (found : Residue) :
    ∃ memory', KernelImage.callAll ⟨code⟩ c.domain.tiled site found block
        ((List.range c.callDims.count).map (Shape.unravel c.callDims)) memory = .ok memory' ∧
      (∀ target ∈ c.outputs input, ∀ f < c.domain.elements,
        memory'.readNumber (target.start + BitVec.ofNat 64 (4 * f)) = target.value f) ∧
      ∀ a, ¬ site.frame.Covers a → ¬ (site.indexSpan c.callDims.length).Covers a →
        ¬ site.blockSpan.Covers a → (∀ target ∈ c.targets, ¬ (c.span target).Covers a) →
        memory'.read a = memory.read a :=
  h.callAll_of_inPlace hvalid.inPlace hhosts hinput found

end Computation

end Pointwise
