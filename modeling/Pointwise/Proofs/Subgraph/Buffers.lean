import Mathlib.Algebra.Order.BigOperators.Group.List
import Pointwise.Proofs.Subgraph.Placement
import Pointwise.Subgraph.Buffers

/-!
# Computations on buffers

Buffers that are placed one behind the other do not overlap, so that a computation on placed tensors
is one from buffers to buffers.

## Main definitions

* `Buffers.extent` — the number of bytes of buffers.
* `Buffers.Suit` — buffers that fit shapes and memory.
* `Program.onBuffers` — the outputs of a program for given inputs.

## Main results

* `Buffers.check_eq_ok` — buffers are accepted exactly if they have the lengths that belong to the
  shapes.
* `Placed.of_before` — tensors at given addresses, seen to be placed by comparing numbers.
* `Buffers.Suit.placed` — buffers in memory are placed tensors.
* `Buffers.readNumber_store` — buffers in memory hold their numbers.
* `Buffers.through_eq_ok` — a computation in memory, seen as one on buffers.
-/

set_option autoImplicit false

namespace Pointwise

/-- Tensors at given addresses, if all rows of bytes can be seen to lie one in front of the other. -/
theorem Placed.of_before {shapes : List Shape} {outputs dims : Nat} {outputShape : Shape}
    {site : CallSite} {sources targets : List Address} (hsources : sources.length = shapes.length)
    (htargets : targets.length = outputs)
    (hothers : (site.spans dims ++ tensorSpans targets (List.replicate outputs outputShape.count)).Pairwise
      fun x y => x.Before y ∨ y.Before x)
    (hinputs : ∀ input ∈ tensorSpans sources (shapes.map Shape.count), ∀ other ∈ site.spans dims ++
      tensorSpans targets (List.replicate outputs outputShape.count),
        input.Before other ∨ other.Before input) :
    Placed shapes outputs outputShape dims site sources targets where
  length_sources := hsources
  length_targets := htargets
  others := hothers.imp Span.Before.disjoint
  inputs input hinput other hother := Span.Before.disjoint (hinputs input hinput other hother)

/-- The outputs of a program for input buffers of given shapes, if kernels process rows of `inner`
positions with passes of `lanes`. -/
def Program.onBuffers (program : Program) (lanes inner : Nat) (outputShape : Shape) (shapes : List Shape)
    (ins : List Buffers.Buffer) : List Buffers.Buffer :=
  program.outputs.map fun value => (List.range outputShape.count).map
    (program.valueAt (.ofTensors lanes inner outputShape shapes fun p i =>
      (ins.getD p []).getD i .zero) value)

namespace Buffers

/-- The number of bytes of buffers. -/
def extent (buffers : List Buffer) : Nat := (buffers.map fun buffer => buffer.length * elementSize).sum

@[simp] theorem extent_cons (buffer : Buffer) (buffers : List Buffer) :
    extent (buffer :: buffers) = buffer.length * elementSize + extent buffers := by
  simp [extent]

/-- The bytes of one of the buffers. -/
theorem le_extent {buffers : List Buffer} {buffer : Buffer} (h : buffer ∈ buffers) :
    4 * buffer.length ≤ extent buffers := by
  have hle : buffer.length * elementSize ≤ extent buffers :=
    List.single_le_sum (fun _ _ => Nat.zero_le _) _ (List.mem_map.2 ⟨buffer, h, rfl⟩)
  rw [elementSize] at hle
  omega

/-- Buffers that have the lengths of given shapes, and fit the memory. -/
structure Suit (shapes : List Shape) (outputs : Nat) (outputShape : Shape) (ins outs : List Buffer) :
    Prop where
  inputs : ins.map List.length = shapes.map Shape.count
  length_outputs : outs.length = outputs
  outputs : ∀ buffer ∈ outs, buffer.length = outputShape.count
  extent : firstAddress + extent (ins ++ outs) ≤ 2 ^ 64

/-! ## Checks -/

/-- **Buffers are accepted** exactly if they have the lengths that belong to the shapes. -/
theorem check_eq_ok {shapes : List Shape} {outputLength outputs : Nat} {ins outs : List Buffer} :
    check shapes outputLength outputs ins outs = .ok () ↔
      List.Forall₂ (fun buffer shape => Checked.product shape = .ok buffer.length) ins shapes ∧
        outs.length = outputs ∧ ∀ buffer ∈ outs, buffer.length = outputLength := by
  have hinput : ∀ (i : Nat) (buffer : Buffer) (shape : Shape), checkInput i buffer shape = .ok () ↔
      Checked.product shape = .ok buffer.length := by
    intro i buffer shape
    rw [checkInput, Checked.bind_eq_ok]
    constructor
    · rintro ⟨length, hlength, h⟩
      rw [hlength, (require_eq_ok.1 h)]
    · intro h
      exact ⟨_, h, require_eq_ok.2 rfl⟩
  have houtput : ∀ (i : Nat) (buffer : Buffer), checkOutput outputLength i buffer = .ok () ↔
      buffer.length = outputLength := fun _ _ => require_eq_ok
  have hinputs : forM (ins.zip shapes).zipIdx (fun ((buffer, shape), i) => checkInput i buffer shape) =
      .ok () ↔ ∀ buffer shape, (buffer, shape) ∈ ins.zip shapes →
        Checked.product shape = .ok buffer.length := by
    rw [Checked.forM_eq_ok]
    constructor
    · intro h buffer shape hmem
      obtain ⟨i, hi⟩ := List.getElem?_of_mem hmem
      exact (hinput i buffer shape).1 (h ((buffer, shape), i) (List.mk_mem_zipIdx_iff_getElem?.2 hi))
    · rintro h ⟨⟨buffer, shape⟩, i⟩ hmem
      exact (hinput i buffer shape).2
        (h buffer shape (List.mem_of_getElem? (List.mk_mem_zipIdx_iff_getElem?.1 hmem)))
  have houtputs : forM outs.zipIdx (fun (buffer, i) => checkOutput outputLength i buffer) = .ok () ↔
      ∀ buffer ∈ outs, buffer.length = outputLength := by
    rw [Checked.forM_eq_ok]
    constructor
    · intro h buffer hmem
      obtain ⟨i, hi⟩ := List.getElem?_of_mem hmem
      exact (houtput i buffer).1 (h (buffer, i) (List.mk_mem_zipIdx_iff_getElem?.2 hi))
    · rintro h ⟨buffer, i⟩ hmem
      exact (houtput i buffer).2 (h buffer (List.mem_of_getElem? (List.mk_mem_zipIdx_iff_getElem?.1 hmem)))
  rw [check, checkCounts, Checked.require_bind_eq_ok, Checked.bind_eq_ok, List.forall₂_iff_zip]
  constructor
  · rintro ⟨⟨hlen, hlen'⟩, _, hins, houts⟩
    exact ⟨⟨hlen, fun {buffer shape} => hinputs.1 hins buffer shape⟩, hlen', houtputs.1 houts⟩
  · rintro ⟨⟨hlen, hins⟩, hlen', houts⟩
    exact ⟨⟨hlen, hlen'⟩, (), hinputs.2 fun buffer shape => hins, houtputs.2 houts⟩

/-- Of the outputs nothing but their lengths is checked. -/
theorem check_congr (shapes : List Shape) (outputLength outputs : Nat) (ins : List Buffer)
    {outs outs' : List Buffer} (h : outs.map List.length = outs'.map List.length) :
    check shapes outputLength outputs ins outs = check shapes outputLength outputs ins outs' := by
  have hlength : outs.length = outs'.length := by simpa using congrArg List.length h
  have houtputs : ∀ outs : List Buffer,
      outs.zipIdx.forM (fun entry => checkOutput outputLength entry.2 entry.1) =
        (outs.map List.length).zipIdx.forM fun entry =>
          require (entry.1 = outputLength) (.shape (.outputLength entry.2 outputLength entry.1)) := by
    intro outs
    rw [List.zipIdx_map, List.forM_eq_forM, List.forM_eq_forM, List.forM_map]
    rfl
  rw [check, check, hlength, houtputs, houtputs, h]

/-- Buffers that suit shapes are accepted. -/
theorem Suit.check {shapes : List Shape} {outputs : Nat} {outputShape : Shape} {ins outs : List Buffer}
    (h : Suit shapes outputs outputShape ins outs)
    (hbroadcast : Shape.broadcast shapes = .ok outputShape) (hpos : 0 < outputShape.count) :
    check shapes outputShape.count outputs ins outs = .ok () := by
  refine check_eq_ok.2 ⟨?_, h.length_outputs, h.outputs⟩
  have hcounts : List.Forall₂ (fun buffer shape => buffer.length = Shape.count shape) ins shapes := by
    have hinputs := h.inputs
    rwa [← List.forall₂_eq_eq_eq, List.forall₂_map_left_iff, List.forall₂_map_right_iff] at hinputs
  rw [List.forall₂_iff_zip] at hcounts ⊢
  refine ⟨hcounts.1, fun {buffer shape} hmem => ?_⟩
  obtain ⟨hbuffer, hshape⟩ := List.of_mem_zip hmem
  have hcount : buffer.length = Shape.count shape := hcounts.2 hmem
  have hlt := Shape.sourcePosition_lt_count hbroadcast hpos hshape 0
  have hle := le_extent (List.mem_append_left outs hbuffer)
  have hextent := h.extent
  rw [hcount] at hle ⊢
  exact Shape.product_eq_ok (by omega) (by omega)

/-- Buffers that are accepted suit their shapes, if they fit the memory. -/
theorem Suit.of_check {shapes : List Shape} {outputs : Nat} {outputShape : Shape}
    {ins outs : List Buffer} (h : Buffers.check shapes outputShape.count outputs ins outs = .ok ())
    (hfit : firstAddress + Buffers.extent (ins ++ outs) ≤ 2 ^ 64) :
    Suit shapes outputs outputShape ins outs := by
  obtain ⟨hins, hlength, houts⟩ := check_eq_ok.1 h
  refine ⟨?_, hlength, houts, hfit⟩
  rw [← List.forall₂_eq_eq_eq, List.forall₂_map_left_iff, List.forall₂_map_right_iff]
  exact hins.imp fun _ _ hproduct => Shape.eq_count_of_product hproduct

section Suit

variable {shapes : List Shape} {outputs : Nat} {outputShape : Shape} {ins outs outs' : List Buffer}

/-- Outputs of the same lengths suit the same shapes. -/
theorem Suit.congr (h : Suit shapes outputs outputShape ins outs)
    (hlengths : outs.map List.length = outs'.map List.length) :
    Suit shapes outputs outputShape ins outs' := by
  obtain ⟨hinputs, hlength, houtputs, hextent⟩ := h
  refine ⟨hinputs, ?_, ?_, ?_⟩
  · rw [← hlength]
    simpa using (congrArg List.length hlengths).symm
  · rwa [← List.forall_mem_map (f := List.length) (P := (· = outputShape.count)), ← hlengths,
      List.forall_mem_map]
  · have hsum : ∀ outs : List Buffer, Buffers.extent (ins ++ outs) =
        (ins.map fun buffer => buffer.length * elementSize).sum +
          ((outs.map List.length).map (· * elementSize)).sum := by
      intro outs
      rw [Buffers.extent, List.map_append, List.sum_append, List.map_map]
      rfl
    rwa [hsum, hlengths, ← hsum] at hextent

/-- Without elements there is but one list of outputs. -/
theorem Suit.outputs_eq (h : Suit shapes outputs outputShape ins outs)
    (h' : Suit shapes outputs outputShape ins outs') (hzero : outputShape.count = 0) : outs = outs' := by
  have hempty : ∀ {outs : List Buffer}, Suit shapes outputs outputShape ins outs →
      outs = List.replicate outputs [] := fun h =>
    List.eq_replicate_iff.2 ⟨h.length_outputs, fun buffer hbuffer =>
      List.length_eq_zero_iff.1 ((h.outputs buffer hbuffer).trans hzero)⟩
  exact (hempty h).trans (hempty h').symm

end Suit

/-! ## Places -/

/-- **Buffers one behind the other** do not overlap. -/
theorem place_spec {buffers : List Buffer} {start : Nat} (hfit : start + extent buffers ≤ 2 ^ 64) :
    (place start buffers).length = buffers.length ∧
      (tensorSpans (place start buffers) (buffers.map List.length)).Pairwise Span.Disjoint ∧
      ∀ span ∈ tensorSpans (place start buffers) (buffers.map List.length),
        span.Within ⟨BitVec.ofNat 64 start, extent buffers⟩ := by
  induction buffers generalizing start with
  | nil => simp [place, tensorSpans]
  | cons buffer buffers ih =>
    rw [extent_cons, elementSize] at hfit
    obtain ⟨hlen, hpairwise, hwithin⟩ :=
      @ih (start + buffer.length * elementSize) (by rw [elementSize]; omega)
    have hnext : Span.Within ⟨BitVec.ofNat 64 (start + buffer.length * elementSize), extent buffers⟩
        ⟨BitVec.ofNat 64 start, extent (buffer :: buffers)⟩ := by
      rw [BitVec.ofNat_add]
      exact Span.within_of_le (by rw [extent_cons])
    have hspans : tensorSpans (place start (buffer :: buffers)) ((buffer :: buffers).map List.length) =
        ⟨BitVec.ofNat 64 start, 4 * buffer.length⟩ ::
          tensorSpans (place (start + buffer.length * elementSize) buffers)
            (buffers.map List.length) := rfl
    refine ⟨by rw [place, List.length_cons, hlen, List.length_cons], ?_, ?_⟩
    · rw [hspans, List.pairwise_cons]
      refine ⟨fun span hspan => ?_, hpairwise⟩
      refine (Span.disjoint_ofNat ?_ ?_).mono (Span.Within.refl _) (hwithin span hspan)
      · rw [elementSize]
        omega
      · rw [elementSize]
        omega
    · rw [hspans, List.forall_mem_cons]
      refine ⟨Span.within_of_length_le ?_, fun span hspan => (hwithin span hspan).trans hnext⟩
      rw [extent_cons, elementSize]
      omega

/-- The bytes of the calls lie in front of all buffers. -/
theorem callSite_spans {dims bytes : Nat} (hdims : dims ≤ tensorRank)
    (hfit : firstAddress + bytes ≤ 2 ^ 64) :
    (callSite.spans dims).Pairwise Span.Disjoint ∧ ∀ span ∈ callSite.spans dims,
      span.Disjoint ⟨BitVec.ofNat 64 firstAddress, bytes⟩ := by
  have hframe : callSite.frame = ⟨BitVec.ofNat 64 0xfffd0, 48⟩ := by decide
  have hindex : callSite.indexSpan dims = ⟨BitVec.ofNat 64 0x300000, 8 * dims⟩ := rfl
  have hblock : callSite.blockSpan = ⟨BitVec.ofNat 64 0x200000, ArgumentBlock.byteSize⟩ := rfl
  have hsize : ArgumentBlock.byteSize = 784 := by decide
  rw [tensorRank] at hdims
  rw [firstAddress] at hfit ⊢
  rw [CallSite.spans, hframe, hindex, hblock, hsize]
  constructor
  · simp only [List.pairwise_cons, List.mem_cons, List.not_mem_nil, or_false, forall_eq_or_imp,
      forall_eq, List.Pairwise.nil, and_true, IsEmpty.forall_iff, implies_true]
    exact ⟨⟨Span.disjoint_ofNat (by omega) (by omega), Span.disjoint_ofNat (by omega) (by omega)⟩,
      (Span.disjoint_ofNat (by omega) (by omega)).symm⟩
  · simp only [List.mem_cons, List.not_mem_nil, or_false, forall_eq_or_imp, forall_eq]
    exact ⟨Span.disjoint_ofNat (by omega) hfit, Span.disjoint_ofNat (by omega) hfit,
      Span.disjoint_ofNat (by omega) hfit⟩

/-! ## Contents -/

/-- Buffers change no byte but their own. -/
theorem read_store {memory : Memory} {buffers : List (Address × Buffer)} {a : Address}
    (h : ∀ x ∈ buffers, ¬ Span.Covers ⟨x.1, 4 * x.2.length⟩ a) :
    (store memory buffers).read a = memory.read a := by
  induction buffers generalizing memory with
  | nil => rfl
  | cons x buffers ih =>
    have hrest := @ih (memory.writeNumbers x.1 x.2) fun y hy => h y (by simp [hy])
    exact hrest.trans (Memory.read_writeNumbers (h x (by simp)))

/-- **Buffers in memory hold their numbers.** -/
theorem readNumber_store {memory : Memory} {buffers : List (Address × Buffer)}
    (hpairwise : (buffers.map fun x => (⟨x.1, 4 * x.2.length⟩ : Span)).Pairwise Span.Disjoint)
    (hfits : ∀ x ∈ buffers, 4 * x.2.length ≤ 2 ^ 64) {a : Address} {buffer : Buffer}
    (hmem : (a, buffer) ∈ buffers) {i : Nat} (hi : i < buffer.length) :
    (store memory buffers).readNumber (a + BitVec.ofNat 64 (4 * i)) = buffer[i] := by
  induction buffers generalizing memory with
  | nil => simp at hmem
  | cons x buffers ih =>
    rw [List.map_cons, List.pairwise_cons] at hpairwise
    rcases List.mem_cons.1 hmem with rfl | hmem
    · have hhead : (memory.writeNumbers a buffer).readNumber (a + BitVec.ofNat 64 (4 * i)) =
          buffer[i] := Memory.readNumber_writeNumbers (hfits (a, buffer) (by simp)) hi
      have hstore : store memory ((a, buffer) :: buffers) =
          store (memory.writeNumbers a buffer) buffers := rfl
      rw [hstore, ← hhead]
      refine Memory.readNumber_congr fun b hb => read_store fun y hy hcovers => ?_
      exact hpairwise.1 _ (List.mem_map.2 ⟨y, hy, rfl⟩) b (Span.within_of_le (by dsimp only; omega) b hb)
        hcovers
    · exact @ih (memory.writeNumbers x.1 x.2) hpairwise.2 (fun y hy => hfits y (by simp [hy])) hmem

/-! ## Computations -/

section Through

variable {shapes : List Shape} {outputs : Nat} {outputShape : Shape} {ins outs : List Buffer}
  {dims : Nat}

/-- **Buffers in memory are placed tensors.** -/
theorem Suit.placed (h : Suit shapes outputs outputShape ins outs) (hdims : dims ≤ tensorRank) :
    Placed shapes outputs outputShape dims callSite
      ((place firstAddress (ins ++ outs)).take ins.length)
      ((place firstAddress (ins ++ outs)).drop ins.length) := by
  obtain ⟨hins, rfl, houts, hfit⟩ := h
  obtain ⟨hlen, hpairwise, hwithin⟩ := place_spec hfit
  obtain ⟨hown, hfront⟩ := callSite_spans hdims hfit
  have hcounts : outs.map List.length = List.replicate outs.length outputShape.count :=
    List.eq_replicate_iff.2 ⟨List.length_map _, by simpa using houts⟩
  have hsplit : tensorSpans (place firstAddress (ins ++ outs)) ((ins ++ outs).map List.length) =
      tensorSpans ((place firstAddress (ins ++ outs)).take ins.length) (shapes.map Shape.count) ++
        tensorSpans ((place firstAddress (ins ++ outs)).drop ins.length)
          (List.replicate outs.length outputShape.count) := by
    rw [← hins, ← hcounts, List.map_append]
    conv_lhs => rw [← List.take_append_drop ins.length (place firstAddress (ins ++ outs))]
    refine List.zipWith_append ?_
    rw [List.length_take, hlen, List.length_map, List.length_append]
    omega
  rw [hsplit] at hpairwise hwithin
  obtain ⟨-, houtputs, hinputs⟩ := List.pairwise_append.1 hpairwise
  rw [List.length_append] at hlen
  refine ⟨?_, ?_, ?_, fun input hinput other hother => ?_⟩
  · have hlen' := congrArg List.length hins
    rw [List.length_map, List.length_map] at hlen'
    rw [List.length_take]
    omega
  · rw [List.length_drop]
    omega
  · refine List.pairwise_append.2 ⟨hown, houtputs, fun span hspan target htarget => ?_⟩
    exact (hfront span hspan).mono (Span.Within.refl _)
      (hwithin target (List.mem_append_right _ htarget))
  · rcases List.mem_append.1 hother with hother | hother
    · exact ((hfront other hother).mono (Span.Within.refl _)
        (hwithin input (List.mem_append_left _ hinput))).symm
    · exact hinputs input hinput other hother

/-- Buffers in memory lie at their own places. -/
theorem map_span_zip (start : Nat) (buffers : List Buffer) :
    (((place start buffers).zip buffers).map fun x => (⟨x.1, 4 * x.2.length⟩ : Span)) =
      tensorSpans (place start buffers) (buffers.map List.length) := by
  rw [tensorSpans, List.zipWith_map_right, List.zip, List.map_zipWith]

/-- The inputs are among the buffers in memory. -/
theorem readNumber_source (hfit : firstAddress + extent (ins ++ outs) ≤ 2 ^ 64) {p i : Nat}
    (hp : p < ins.length) (hi : i < ins[p].length) :
    (store .empty ((place firstAddress (ins ++ outs)).zip (ins ++ outs))).readNumber
        (((place firstAddress (ins ++ outs)).take ins.length).getD p 0 + BitVec.ofNat 64 (4 * i)) =
      ins[p][i] := by
  obtain ⟨hlen, hpairwise, -⟩ := place_spec hfit
  rw [← map_span_zip] at hpairwise
  rw [List.length_append] at hlen
  have hsource : ((place firstAddress (ins ++ outs)).take ins.length).getD p 0 =
      (place firstAddress (ins ++ outs))[p] := by
    rw [List.getD_eq_getElem?_getD, List.getElem?_take_of_lt hp, List.getElem?_eq_getElem (by omega),
      Option.getD_some]
  have hmem : ((place firstAddress (ins ++ outs))[p], ins[p]) ∈
      (place firstAddress (ins ++ outs)).zip (ins ++ outs) := by
    refine List.mem_of_getElem? (i := p) ?_
    rw [List.getElem?_zip_eq_some, List.getElem?_eq_getElem (by omega), List.getElem?_append_left hp,
      List.getElem?_eq_getElem hp]
    exact ⟨rfl, rfl⟩
  rw [hsource]
  refine readNumber_store hpairwise (fun x hx => ?_) hmem hi
  exact (le_extent (List.of_mem_zip hx).2).trans ((Nat.le_add_left _ _).trans hfit)

/-- **A computation in memory, seen as one on buffers**, gives the values that it writes to the outputs
wherever the tensors are placed. -/
theorem through_eq_ok {program : Program} {lanes inner : Nat}
    {compute : (sources targets : List Address) → Memory → Except Error Memory}
    (hshapes : shapes.length = program.inputs) (hbroadcast : Shape.broadcast shapes = .ok outputShape)
    (hpos : 0 < outputShape.count) (hsuit : Suit shapes program.outputs.length outputShape ins outs)
    (hdims : dims ≤ tensorRank)
    (hcompute : ∀ (sources targets : List Address) (memory : Memory),
      Placed shapes program.outputs.length outputShape dims callSite sources targets →
      ∃ memory', compute sources targets memory = .ok memory' ∧
        program.Written lanes inner outputShape shapes sources targets memory memory') :
    through ins outs compute = .ok (program.onBuffers lanes inner outputShape shapes ins) := by
  have hplaced := hsuit.placed hdims
  obtain ⟨hins, hlength, houts, hfit⟩ := hsuit
  have hlen := hplaced.length_targets
  obtain ⟨memory', hok, hwritten⟩ := hcompute _ _ _ hplaced
  have hinput : ∀ p < program.inputs, ∀ f,
      Memory.element (store .empty ((place firstAddress (ins ++ outs)).zip (ins ++ outs)))
          ((place firstAddress (ins ++ outs)).take ins.length) p
          (Shape.sourcePosition outputShape (shapes.getD p []) f) =
        (ins.getD p []).getD (Shape.sourcePosition outputShape (shapes.getD p []) f) .zero := by
    intro p hp f
    have hlen' : ins.length = shapes.length := by simpa using congrArg List.length hins
    have hcount : (ins[p]).length = (shapes[p]).count := by
      have hget : (ins.map List.length)[p]? = (shapes.map Shape.count)[p]? := by rw [hins]
      rw [List.getElem?_map, List.getElem?_map, List.getElem?_eq_getElem (by omega),
        List.getElem?_eq_getElem (by omega)] at hget
      exact Option.some.inj hget
    have hshape : shapes.getD p [] = shapes[p] := by
      rw [List.getD_eq_getElem?_getD, List.getElem?_eq_getElem (by omega), Option.getD_some]
    have hlt := Shape.sourcePosition_lt_count hbroadcast hpos
      (List.getElem_mem (l := shapes) (n := p) (by omega)) f
    have hbuffer : ins.getD p [] = ins[p] := by
      rw [List.getD_eq_getElem?_getD, List.getElem?_eq_getElem (by omega), Option.getD_some]
    rw [Memory.element, hshape, hbuffer, readNumber_source hfit (by omega) (hcount ▸ hlt),
      List.getD_eq_getElem?_getD, List.getElem?_eq_getElem (hcount ▸ hlt), Option.getD_some]
  rw [through, hok, Checked.ok_bind]
  refine congrArg Except.ok (List.ext_getElem ?_ fun o ho ho' => ?_)
  · rw [Program.onBuffers]
    simp only [List.length_map, List.length_zip]
    omega
  · rw [Program.onBuffers, List.length_map] at ho'
    simp only [Program.onBuffers, List.getElem_map, List.getElem_zip]
    rw [houts _ (List.getElem_mem _), Memory.readNumbers]
    refine List.map_congr_left fun f hf => ?_
    rw [hwritten o _ _ (List.getElem?_eq_getElem (by omega)) (List.getElem?_eq_getElem ho') f
      (List.mem_range.1 hf)]
    exact Program.valueAt_ofTensors_congr hinput _ f

end Through

end Buffers

end Pointwise
