import Pointwise.Proofs.Kernel.Share

/-!
# The passes of calls

A call is made up of passes over the positions of its share; nothing else in it accesses numbers. An input
that has an element of its own for every position is loaded like an output is stored: in each pass the
elements for its positions. As the shares of the calls follow each other, every such element is loaded in
one pass of one call only.

## Main definitions

* `Computation.Unbroadcast` — an input with an element of its own for every position.

## Main results

* `Computation.WalksIn.exists_runs` — the passes of a call.
* `Computation.WalksIn.exists_loadOwn` — calls load such an input for their own positions.
-/

set_option autoImplicit false

namespace Pointwise

open Machine

namespace Computation

variable {c : Computation}

/-- An input with an element of its own for every position, in the order of the positions. -/
def Unbroadcast (c : Computation) (p : Nat) : Prop := ∀ f < c.domain.elements, c.element p f = f

section WalksIn

variable {mode : KernelMode} {body code : Code} {block : ArgumentBlock} (hproper : c.Proper)
  (h : c.WalksIn mode body block) (hcode : code = Kernel.preamble ++ body ++ Kernel.postamble) {p : Nat}
  (hunbroadcast : c.Unbroadcast p) {q : Register} (hq : c.program.pointers[p]? = some q)

include hproper h hcode hunbroadcast hq

/-- **A call is made up of passes** over its share of the positions, which load an input that is not
broadcast for their own positions only. -/
theorem WalksIn.exists_runs {site : CallSite} (hseparates : c.Separates site) {s : MachineState} {call : Nat}
    (hcalled : site.Called (Shape.unravel c.callDims call) block s) (hcall : call < c.callDims.count) :
    ∃ runs : List PassRun,
      Pass.Tiles (call * c.share) (runs.map (·.pass)) ((call + 1) * c.share) ∧
      PassRun.MakeUp c.program c.targets code (KernelImage.stepBound ⟨code⟩ c.domain.tiled) s runs ∧
      ∀ run ∈ runs, ∀ e < c.domain.elements, run.Loads q (c.base p) e → run.pass.Covers e := by
  subst hcode
  obtain ⟨kept, hkept, hwalked⟩ := h.walked hseparates hcalled hcall
  obtain ⟨pointers, rows, t, -, -, ⟨_, hat⟩, hrun, hvisited, hbefore, hafter⟩ :=
    hwalked.exists_run hcalled.begins (fun _ _ _ => pointer?_of_admitsPointer)
      (steps_le body c.domain.tiled.outer c.domain.tiled.inner) hkept
  obtain ⟨runs, htiles, -, rest, rfl, hrest, hruns⟩ := hat.passes
  refine ⟨runs, htiles, ⟨⟨_, hrun⟩, ⟨_, _, ?_, List.forall_mem_append.2 ⟨hbefore,
    List.forall_mem_append.2 ⟨fun v hv => (hrest v hv).1, hafter⟩⟩⟩, fun run hrun => (hruns run hrun).toBody⟩,
    fun run hrun e he hloads => ?_⟩
  · rw [KernelImage.stepBound, hvisited]
    simp only [List.append_assoc]
  · have hplace : ∀ f < c.domain.elements, c.place p f = c.base p + BitVec.ofNat 64 (4 * f) :=
      fun f hf => by rw [place, hunbroadcast f hf]
    exact (hruns run hrun).covers_of_loads (Kernel.nodup_pointerPool.sublist (List.take_sublist _ _))
      hproper.fits hq hplace he hloads

/-- **Calls load an input that is not broadcast for their own positions**: in each pass the elements for the
positions of the pass, and in no other pass of any call.

**Proof sketch.** The passes of a call follow each other, and so do the shares of the calls. -/
theorem WalksIn.exists_loadOwn {site : (call : Nat) → CallSite} {s : (call : Nat) → MachineState}
    (hseparates : ∀ call < c.callDims.count, c.Separates (site call))
    (hcalled : ∀ call < c.callDims.count,
      (site call).Called (Shape.unravel c.callDims call) block (s call)) :
    ∃ runs : (call : Nat) → List PassRun,
      (∀ call < c.callDims.count,
        PassRun.MakeUp c.program c.targets code (KernelImage.stepBound ⟨code⟩ c.domain.tiled) (s call)
          (runs call)) ∧
      PassRun.LoadOwn q (c.base p) c.domain.elements c.callDims.count runs := by
  choose! runs hruns using fun (call : Nat) (hcall : call < c.callDims.count) =>
    h.exists_runs hproper hcode hunbroadcast hq (hseparates call hcall) (hcalled call hcall) hcall
  exact ⟨runs, fun call hcall => (hruns call hcall).2.1, .of_tiles (fun call hcall => (hruns call hcall).1)
    fun call hcall => (hruns call hcall).2.2⟩

end WalksIn

end Computation

end Pointwise
