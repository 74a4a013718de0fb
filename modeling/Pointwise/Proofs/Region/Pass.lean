import Pointwise.Proofs.Machine.Span

/-!
# Passes over the outputs

A kernel processes positions in passes: it computes the values of a number of consecutive positions
and stores them to all outputs. What a sequence of passes leaves in memory depends only on the
positions that they process, and passes that follow each other without gaps write every byte of
their positions once.

## Main definitions

* `Pass` — consecutive positions that are processed at once.
* `Target` — an output, with the value that is to stand at each position.
* `Pass.storeAll` — the memory behind a sequence of passes.
* `Pass.Tiles` — passes that follow each other without gaps.

## Main results

* `Pass.readNumber_storeAll` — the numbers of an output behind a sequence of passes.
* `Pass.Tiles.countP_spans` — every byte is written once.
-/

set_option autoImplicit false

namespace Pointwise

/-- Consecutive positions that are processed at once. -/
structure Pass where
  first : Nat
  width : Nat

/-- An output: where it lies, and the value that is to stand at each position. -/
structure Target where
  start : Address
  value : Nat → Binary32

/-- The bytes of an output of a number of elements. -/
def Target.span (target : Target) (elements : Nat) : Span := ⟨target.start, 4 * elements⟩

/-- Outputs that do not overlap and fit the memory. -/
structure Target.Apart (targets : List Target) (elements : Nat) : Prop where
  fits : 4 * elements ≤ 2 ^ 64
  pairwise : targets.Pairwise fun t u => (t.span elements).Disjoint (u.span elements)

namespace Pass

/-- The positions of a pass. -/
def Covers (pass : Pass) (position : Nat) : Prop :=
  pass.first ≤ position ∧ position < pass.first + pass.width

instance (pass : Pass) (position : Nat) : Decidable (pass.Covers position) :=
  inferInstanceAs (Decidable (_ ∧ _))

/-- The bytes that a pass writes to an output. -/
def span (pass : Pass) (target : Target) : Span :=
  ⟨target.start + BitVec.ofNat 64 (4 * pass.first), 4 * pass.width⟩

/-- The values that a pass writes to an output. -/
def values (pass : Pass) (target : Target) : List Binary32 :=
  (List.range pass.width).map fun i => target.value (pass.first + i)

/-- The memory behind a pass that writes its values to all outputs. -/
def store (targets : List Target) (memory : Memory) (pass : Pass) : Memory :=
  targets.foldl (fun memory target =>
    memory.writeNumbers (pass.span target).start (pass.values target)) memory

/-- The memory behind a sequence of passes. -/
def storeAll (targets : List Target) (passes : List Pass) (memory : Memory) : Memory :=
  passes.foldl (store targets) memory

/-- The bytes that a sequence of passes writes, in order. -/
def spans (targets : List Target) (passes : List Pass) : List Span :=
  passes.flatMap fun pass => targets.map pass.span

theorem store_append (targets targets' : List Target) (memory : Memory) (pass : Pass) :
    store (targets ++ targets') memory pass = store targets' (store targets memory pass) pass :=
  List.foldl_append

@[simp] theorem length_values (pass : Pass) (target : Target) :
    (pass.values target).length = pass.width := by
  simp [values]

/-- Which bytes are written depends on where the outputs lie only. -/
theorem span_congr (pass : Pass) {t u : Target} (h : t.start = u.start) : pass.span t = pass.span u := by
  rw [span, span, h]

/-- What is written depends on where the outputs lie and on their values at the positions of the
pass. -/
theorem store_congr {targets targets' : List Target} {pass : Pass}
    (h : List.Forall₂ (fun t u : Target => t.start = u.start ∧
      ∀ i < pass.width, t.value (pass.first + i) = u.value (pass.first + i)) targets targets')
    (memory : Memory) : store targets memory pass = store targets' memory pass := by
  induction h generalizing memory with
  | nil => rfl
  | @cons t u targets targets' hhead _ ih =>
    obtain ⟨hstart, hvalue⟩ := hhead
    have hspan := pass.span_congr hstart
    have hvalues : pass.values t = pass.values u :=
      List.map_congr_left fun i hi => hvalue i (List.mem_range.1 hi)
    rw [store, store, List.foldl_cons, List.foldl_cons, hspan, hvalues]
    exact ih _

/-! ## Memory behind passes -/

variable {targets : List Target} {elements : Nat} {memory : Memory} {pass : Pass} {a : Address}

/-- A pass stays within an output. -/
theorem span_within (h : pass.first + pass.width ≤ elements) (target : Target) :
    (pass.span target).Within (target.span elements) :=
  Span.within_of_le (by omega)

/-- A byte of a row of numbers belongs to one of them. -/
theorem exists_number {start : Address} {count : Nat} (h : Span.Covers ⟨start, 4 * count⟩ a) :
    ∃ i < count, Span.Covers ⟨start + BitVec.ofNat 64 (4 * i), 4⟩ a := by
  obtain ⟨i, hi, rfl⟩ := h
  have hi : i < 4 * count := hi
  refine ⟨i / 4, by omega, i % 4, Nat.mod_lt _ (by decide), ?_⟩
  rw [Span.add_ofNat_add, Nat.div_add_mod]

/-- A byte of consecutive positions belongs to the number of one of them. -/
theorem exists_position {start : Address} {first count : Nat}
    (h : Span.Covers ⟨start + BitVec.ofNat 64 (4 * first), 4 * count⟩ a) :
    ∃ f, (first ≤ f ∧ f < first + count) ∧ Span.Covers ⟨start + BitVec.ofNat 64 (4 * f), 4⟩ a := by
  obtain ⟨i, hi, ha⟩ := exists_number h
  rw [Span.add_ofNat_add, ← Nat.mul_add] at ha
  exact ⟨first + i, ⟨Nat.le_add_right _ _, Nat.add_lt_add_left hi _⟩, ha⟩

/-- Numbers of a row do not overlap each other. -/
theorem disjoint_numbers (hfits : 4 * elements ≤ 2 ^ 64) {f g : Nat} (hf : f < elements)
    (hg : g < elements) (hne : f ≠ g) (start : Address) :
    Span.Disjoint ⟨start + BitVec.ofNat 64 (4 * f), 4⟩ ⟨start + BitVec.ofNat 64 (4 * g), 4⟩ := by
  rcases Nat.lt_or_gt_of_ne hne with hlt | hlt
  · exact Span.disjoint_of_le (by omega) (by omega)
  · exact (Span.disjoint_of_le (by omega) (by omega)).symm

/-- A pass changes no byte but those of its positions. -/
theorem read_store (h : ∀ target ∈ targets, ¬ (pass.span target).Covers a) :
    (store targets memory pass).read a = memory.read a := by
  induction targets generalizing memory with
  | nil => rfl
  | cons target targets ih =>
    have hrest := @ih (memory.writeNumbers (pass.span target).start (pass.values target))
      fun u hu => h u (by simp [hu])
    refine hrest.trans (Memory.read_writeNumbers ?_)
    rw [length_values]
    exact h target (by simp)

/-- Passes change no byte but those of their positions. -/
theorem read_storeAll {passes : List Pass}
    (h : ∀ pass ∈ passes, ∀ target ∈ targets, ¬ (pass.span target).Covers a) :
    (storeAll targets passes memory).read a = memory.read a := by
  induction passes generalizing memory with
  | nil => rfl
  | cons pass passes ih =>
    exact (ih fun q hq => h q (List.mem_cons_of_mem _ hq)).trans (read_store (h pass List.mem_cons_self))

/-- The bytes of a number of an output. -/
theorem within_target {position : Nat} (h : position < elements) (target : Target) :
    Span.Within ⟨target.start + BitVec.ofNat 64 (4 * position), 4⟩ (target.span elements) :=
  Span.within_of_le (by omega)

/-- A number of an output behind a write to the same output. -/
theorem readNumber_write_self (hfits : 4 * elements ≤ 2 ^ 64)
    (hpass : pass.first + pass.width ≤ elements) (target : Target) {position : Nat}
    (hposition : position < elements) :
    (memory.writeNumbers (pass.span target).start (pass.values target)).readNumber
        (target.start + BitVec.ofNat 64 (4 * position)) =
      if pass.Covers position then target.value position
      else memory.readNumber (target.start + BitVec.ofNat 64 (4 * position)) := by
  split
  · rename_i hcovers
    obtain ⟨i, rfl⟩ : ∃ i, position = pass.first + i := ⟨_, (Nat.add_sub_cancel' hcovers.1).symm⟩
    have hi : i < pass.width := by have := hcovers.2; omega
    have hsplit : target.start + BitVec.ofNat 64 (4 * (pass.first + i)) =
        (pass.span target).start + BitVec.ofNat 64 (4 * i) := by
      rw [span, Span.add_ofNat_add, Nat.mul_add]
    rw [hsplit, Memory.readNumber_writeNumbers (by rw [length_values]; omega)
      (by rwa [length_values])]
    simp [values]
  · rename_i hcovers
    refine Memory.readNumber_congr fun b hb => Memory.read_writeNumbers fun hb' => ?_
    rw [length_values] at hb'
    obtain ⟨i, hi, rfl⟩ := hb
    rw [Span.add_ofNat_add, span, Span.covers_add_iff (by omega) (by dsimp only at hi; omega)] at hb'
    dsimp only at hi
    exact hcovers ⟨by omega, by omega⟩

/-- The numbers of an output behind a pass. -/
theorem readNumber_store (hapart : Target.Apart targets elements)
    (hpass : pass.first + pass.width ≤ elements) {target : Target} (htarget : target ∈ targets)
    {position : Nat} (hposition : position < elements) :
    (store targets memory pass).readNumber (target.start + BitVec.ofNat 64 (4 * position)) =
      if pass.Covers position then target.value position
      else memory.readNumber (target.start + BitVec.ofNat 64 (4 * position)) := by
  obtain ⟨hfits, hpairwise⟩ := hapart
  induction targets generalizing memory with
  | nil => simp at htarget
  | cons u targets ih =>
    obtain ⟨hu, hpairwise⟩ := List.pairwise_cons.1 hpairwise
    have hfold : store (u :: targets) memory pass = store targets
        (memory.writeNumbers (pass.span u).start (pass.values u)) pass := rfl
    rw [hfold]
    rcases List.mem_cons.1 htarget with rfl | htarget
    · rw [← readNumber_write_self hfits hpass target hposition]
      refine Memory.readNumber_congr fun b hb => read_store fun v hv hcovers => ?_
      exact hu v hv b (within_target hposition target b hb) (span_within hpass v b hcovers)
    · rw [ih htarget hpairwise]
      split
      · rfl
      · refine Memory.readNumber_congr fun b hb => Memory.read_writeNumbers fun hcovers => ?_
        rw [length_values] at hcovers
        exact hu target htarget b (span_within hpass u b hcovers)
          (within_target hposition target b hb)

/-- **The numbers of an output behind a sequence of passes.** -/
theorem readNumber_storeAll (hapart : Target.Apart targets elements) {passes : List Pass}
    (hpasses : ∀ pass ∈ passes, pass.first + pass.width ≤ elements) {target : Target}
    (htarget : target ∈ targets) {position : Nat} (hposition : position < elements) :
    (storeAll targets passes memory).readNumber (target.start + BitVec.ofNat 64 (4 * position)) =
      if ∃ pass ∈ passes, pass.Covers position then target.value position
      else memory.readNumber (target.start + BitVec.ofNat 64 (4 * position)) := by
  induction passes generalizing memory with
  | nil => simp [storeAll]
  | cons pass passes ih =>
    have hfold : storeAll targets (pass :: passes) memory =
      storeAll targets passes (store targets memory pass) := rfl
    rw [hfold, ih fun q hq => hpasses q (by simp [hq]),
      readNumber_store hapart (hpasses pass (by simp)) htarget hposition]
    by_cases hfirst : pass.Covers position
    · simp [hfirst]
    · simp [hfirst]

/-! ## Passes without gaps -/

/-- Passes that follow each other without gaps, from one position to another. -/
inductive Tiles : Nat → List Pass → Nat → Prop
  | nil (position : Nat) : Tiles position [] position
  | cons {first width stop : Nat} {passes : List Pass} (h : Tiles (first + width) passes stop) :
      Tiles first (⟨first, width⟩ :: passes) stop

namespace Tiles

variable {start middle stop : Nat} {passes passes' : List Pass}

theorem append (h : Tiles start passes middle) (h' : Tiles middle passes' stop) :
    Tiles start (passes ++ passes') stop := by
  induction h with
  | nil => exact h'
  | cons _ ih => exact .cons (ih h')

/-- One more pass at the end. -/
theorem concat (h : Tiles start passes middle) (width : Nat) :
    Tiles start (passes ++ [⟨middle, width⟩]) (middle + width) :=
  h.append (.cons (.nil _))

theorem le (h : Tiles start passes stop) : start ≤ stop := by
  induction h with
  | nil => exact le_rfl
  | cons _ ih => omega

/-- The passes stay within the positions between the two ends. -/
theorem within (h : Tiles start passes stop) :
    ∀ pass ∈ passes, start ≤ pass.first ∧ pass.first + pass.width ≤ stop := by
  induction h with
  | nil => simp
  | @cons first width stop passes h ih =>
    intro pass hpass
    rcases List.mem_cons.1 hpass with rfl | hpass
    · exact ⟨le_rfl, h.le⟩
    · obtain ⟨hle, hle'⟩ := ih pass hpass
      exact ⟨by omega, hle'⟩

/-- **Every position is processed once.** -/
theorem countP (h : Tiles start passes stop) (position : Nat) :
    passes.countP (fun pass => pass.Covers position) =
      if start ≤ position ∧ position < stop then 1 else 0 := by
  induction h with
  | nil => simp
  | @cons first width stop passes h ih =>
    have hle := h.le
    have hcovers : Covers ⟨first, width⟩ position ↔ first ≤ position ∧ position < first + width :=
      Iff.rfl
    rw [List.countP_cons, ih]
    simp only [hcovers, decide_eq_true_eq]
    split <;> split <;> split <;> omega

theorem exists_covers (h : Tiles start passes stop) {position : Nat} :
    (∃ pass ∈ passes, pass.Covers position) ↔ start ≤ position ∧ position < stop := by
  have hcount := h.countP position
  constructor
  · rintro ⟨pass, hpass, hcovers⟩
    have hpos : 0 < passes.countP fun pass => pass.Covers position :=
      List.countP_pos_iff.2 ⟨pass, hpass, decide_eq_true hcovers⟩
    rw [hcount] at hpos
    split at hpos
    · assumption
    · omega
  · intro hbetween
    rw [if_pos hbetween] at hcount
    have hpos : 0 < passes.countP fun pass => pass.Covers position := by omega
    obtain ⟨pass, hpass, hcovers⟩ := List.countP_pos_iff.1 hpos
    exact ⟨pass, hpass, of_decide_eq_true hcovers⟩

/-- No position belongs to two passes. -/
theorem eq_of_covers (h : Tiles start passes stop) {i j : Nat} {pass pass' : Pass}
    (hi : passes[i]? = some pass) (hj : passes[j]? = some pass') {position : Nat}
    (hcovers : pass.Covers position) (hcovers' : pass'.Covers position) : i = j := by
  -- a position of the first pass lies in front of all others
  have hfirst : ∀ {first width stop : Nat} {passes : List Pass} {k : Nat} {pass : Pass},
      Tiles (first + width) passes stop → passes[k]? = some pass → pass.Covers position →
        ¬ position < first + width := by
    intro first width stop passes k pass hrest hk hcovers
    have hle := (hrest.within pass (List.mem_of_getElem? hk)).1
    exact Nat.not_lt.2 (hle.trans hcovers.1)
  induction h generalizing i j with
  | nil => simp at hi
  | cons hrest ih =>
    cases i with
    | zero =>
      obtain rfl := Option.some.inj hi
      cases j with
      | zero => rfl
      | succ j => exact absurd hcovers.2 (hfirst hrest hj hcovers')
    | succ i =>
      cases j with
      | zero =>
        obtain rfl := Option.some.inj hj
        exact absurd hcovers'.2 (hfirst hrest hi hcovers)
      | succ j => exact congrArg (· + 1) (ih hi hj)

end Tiles

/-- A byte of one of the outputs is written by a pass over its position, and by no other. -/
theorem countP_span (hapart : Target.Apart targets elements)
    (hpass : pass.first + pass.width ≤ elements) {target : Target} (htarget : target ∈ targets)
    {i : Nat} (hi : i < 4 * elements) :
    (targets.map pass.span).countP (fun span => span.Covers (target.start + BitVec.ofNat 64 i)) =
      if pass.Covers (i / 4) then 1 else 0 := by
  obtain ⟨hfits, hpairwise⟩ := hapart
  have hown : (pass.span target).Covers (target.start + BitVec.ofNat 64 i) ↔ pass.Covers (i / 4) := by
    rw [span, Span.covers_add_iff (by omega) (by omega), Covers]
    omega
  have hin : (target.span elements).Covers (target.start + BitVec.ofNat 64 i) :=
    Span.covers_add _ hi
  induction targets with
  | nil => simp at htarget
  | cons u targets ih =>
    obtain ⟨hu, hpairwise⟩ := List.pairwise_cons.1 hpairwise
    rw [List.map_cons, List.countP_cons]
    rcases List.mem_cons.1 htarget with rfl | htarget
    · have hothers : (targets.map pass.span).countP
          (fun span => span.Covers (target.start + BitVec.ofNat 64 i)) = 0 := by
        rw [List.countP_eq_zero]
        intro span hspan hcovers
        obtain ⟨v, hv, rfl⟩ := List.mem_map.1 hspan
        exact hu v hv _ hin (span_within hpass v _ (of_decide_eq_true hcovers))
      simp only [hothers, hown, decide_eq_true_eq, Nat.zero_add]
    · have hnot : ¬ (pass.span u).Covers (target.start + BitVec.ofNat 64 i) :=
        fun hcovers => hu target htarget _ (span_within hpass u _ hcovers) hin
      simp [ih htarget hpairwise, hnot]

/-- **Every byte is written once.** -/
theorem Tiles.countP_spans {start stop : Nat} {passes : List Pass} (h : Tiles start passes stop)
    (hapart : Target.Apart targets elements) (hstop : stop ≤ elements) {target : Target}
    (htarget : target ∈ targets) {i : Nat} (hi : i < 4 * elements) :
    (spans targets passes).countP (fun span => span.Covers (target.start + BitVec.ofNat 64 i)) =
      if start ≤ i / 4 ∧ i / 4 < stop then 1 else 0 := by
  rw [← h.countP]
  have hwithin := h.within
  clear h
  induction passes with
  | nil => simp [spans]
  | cons pass passes ih =>
    have hsplit : spans targets (pass :: passes) = targets.map pass.span ++ spans targets passes :=
      rfl
    have hpass := (hwithin pass (by simp)).2
    rw [hsplit, List.countP_append, countP_span hapart (by omega) htarget hi, List.countP_cons,
      ih fun q hq => hwithin q (by simp [hq])]
    simp only [decide_eq_true_eq]
    omega

end Pass

end Pointwise
