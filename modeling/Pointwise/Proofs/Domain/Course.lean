import Pointwise.Proofs.Domain.Representation

/-!
# The course of the merging

The optimizer takes one turn after the other. In each turn it either merges the last two dimensions of
all tensors or stops, and there are three reasons to stop: a kernel call has enough work, too few calls
would remain, or a tensor is broadcast along one of the two dimensions alone. The number of dimensions
bounds the turns as well, but this bound is never met: when only one dimension is left, a call has all
the work.

## Main definitions

* `Optimizer.turn` — what the optimizer does next.
* `Optimizer.Stop` — why it stops merging, with the exhausted number of dimensions among the reasons.
* `Optimizer.courseFrom`, `Optimizer.course` — all turns, with the reason for which they end.
* `Optimizer.InStep` — what holds before every turn.

## Main results

* `Optimizer.turn_eq_ok` — what a turn can be.
* `Optimizer.collapse_eq_course` — without the reason, the course is the collapse.
* `Optimizer.turn_of_courseFrom` — where the course ends, the next turn is to stop.
* `Optimizer.plan_stops_for_reason` — a plan keeps the calls that are asked for, and stops for a reason.
-/

set_option autoImplicit false

namespace Pointwise

/-- A shape that pairs a one with another size in its last two dimensions, so that it is broadcast along
exactly one of them. -/
def Shape.Mixed (shape : Shape) : Prop :=
  ∃ front outer inner, shape = front ++ [outer, inner] ∧
    (outer = 1 ∧ inner ≠ 1 ∨ outer ≠ 1 ∧ inner = 1)

/-- The last two dimensions cannot be merged exactly if a one is paired with another size. -/
theorem Shape.mixed_of_tailMergeable {shape : Shape} (h : tailMergeable shape = .ok false) :
    shape.Mixed := by
  obtain ⟨outer, houter, h⟩ := Checked.bind_eq_ok.1 h
  obtain ⟨hlen, -⟩ := Checked.getBack_eq_ok.1 houter
  obtain ⟨front, outer, inner, rfl⟩ := exists_eq_append_pair hlen
  refine ⟨front, outer, inner, rfl, ?_⟩
  have hmergeable : tailMergeable (front ++ [outer, inner]) = .ok false := by
    rw [tailMergeable, houter]
    exact h
  rw [tailMergeable_append, Except.ok.injEq, decide_eq_false_iff_not, eq_iff_iff] at hmergeable
  tauto

/-- If not all tensors can be merged, one of them stands in the way. -/
theorem Shape.exists_mixed {shapes : List Shape} (h : allTailsMergeable shapes = .ok false) :
    ∃ shape ∈ shapes, shape.Mixed := by
  induction shapes with
  | nil => simp [allTailsMergeable] at h
  | cons shape shapes ih =>
    rw [allTailsMergeable] at h
    obtain ⟨mergeable, hshape, h⟩ := Checked.bind_eq_ok.1 h
    cases mergeable with
    | false => exact ⟨shape, by simp, mixed_of_tailMergeable hshape⟩
    | true =>
      obtain ⟨other, hother, hmixed⟩ := ih (by simpa using h)
      exact ⟨other, by simp [hother], hmixed⟩

namespace Optimizer

/-! ## Turns -/

/-- Why the optimizer stops merging. -/
inductive Stop where
  /-- A call has as much work as it should have, or all of it. -/
  | enoughWork
  /-- Fewer than two dimensions are left. -/
  | noDimensions
  /-- Too few calls would remain. -/
  | fewCalls
  /-- A tensor is broadcast along exactly one of the last two dimensions. -/
  | mixed
  deriving DecidableEq

/-- What the optimizer does next: it stops, with the tile rank that the kernel gets, or it goes on with
merged tensors. -/
inductive Turn where
  | stop (reason : Stop) (tileRank : Nat)
  | merge (work : Nat) (shapes : List Shape) (domain : Shape)

/-- The next turn, where a kernel call now has `work` elements of `full` and dimensions are left. -/
def turn (limits : Optimizer) (full work : Nat) (shapes : List Shape) (domain : Shape) :
    Except Error Turn :=
  if work < limits.minWork ∧ work < full then do
    let mergeable ← Shape.allTailsMergeable shapes
    let next ← Checked.mul work (← Checked.getBack domain 2)
    let remaining ← Checked.div full next
    if remaining < limits.minParallelism then
      return .stop .fewCalls 1
    else if mergeable then
      return .merge next (← shapes.mapM Shape.collapse) (← Shape.collapse domain)
    else
      return .stop .mixed (if 1 < limits.tileRankLimit then 2 else 1)
  else
    return .stop .enoughWork 1

/-- At most `merges` merges, with the reason for which they end. -/
def courseFrom (limits : Optimizer) (full : Nat) :
    (merges work : Nat) → List Shape → Shape → Except Error (Stop × Collapsed)
  | 0, work, shapes, domain =>
    if work < limits.minWork ∧ work < full then
      return (.noDimensions, ⟨1, shapes, domain⟩)
    else
      return (.enoughWork, ⟨1, shapes, domain⟩)
  | merges + 1, work, shapes, domain => do
    match ← limits.turn full work shapes domain with
    | .stop reason tileRank => return (reason, ⟨tileRank, shapes, domain⟩)
    | .merge work shapes domain => courseFrom limits full merges work shapes domain

/-- All merges, with the reason for which they end. -/
def course (limits : Optimizer) (shapes : List Shape) (domain : Shape) :
    Except Error (Stop × Collapsed) := do
  let full ← Checked.product domain
  if domain.length < 2 then
    return (.noDimensions, ⟨1, shapes, domain⟩)
  else
    courseFrom limits full (domain.length - 1) (← Checked.getBack domain 1) shapes domain

/-- The reason for which the plan for input shapes and a number of outputs stops merging. -/
def planStop (limits : Optimizer) (inputShapes : List Shape) (outputs : Nat) : Except Error Stop := do
  let inputs := inputShapes.map (Shape.padTo (planRank inputShapes))
  let master ← Shape.broadcast inputs
  return (← limits.course (inputs ++ List.replicate outputs master) master).1

variable {limits : Optimizer} {full work : Nat} {shapes : List Shape} {domain : Shape}

/-- A merge that the optimizer considers, because a call has too little work and not all of it: with
the second last dimension a call would have `next` elements. -/
structure Considers (limits : Optimizer) (full work : Nat) (domain : Shape) (next : Nat) : Prop where
  tooLittle : work < limits.minWork
  notAll : work < full
  second : ∃ outer, Checked.getBack domain 2 = .ok outer ∧ work * outer = next
  ne_zero : next ≠ 0

/-- What a turn can be. -/
inductive Turns (limits : Optimizer) (full work : Nat) (shapes : List Shape) (domain : Shape) :
    Turn → Prop where
  | enoughWork (h : limits.minWork ≤ work ∨ full ≤ work) :
    Turns limits full work shapes domain (.stop .enoughWork 1)
  | fewCalls {next : Nat} (hnext : Considers limits full work domain next)
      (hfew : full / next < limits.minParallelism) :
    Turns limits full work shapes domain (.stop .fewCalls 1)
  | mixed {next tileRank : Nat} (hnext : Considers limits full work domain next)
      (htails : Shape.allTailsMergeable shapes = .ok false)
      (hcalls : limits.minParallelism ≤ full / next)
      (htile : tileRank = if 1 < limits.tileRankLimit then 2 else 1) :
    Turns limits full work shapes domain (.stop .mixed tileRank)
  | merge {next : Nat} {shapes' : List Shape} {domain' : Shape}
      (hnext : Considers limits full work domain next)
      (htails : Shape.allTailsMergeable shapes = .ok true)
      (hcalls : limits.minParallelism ≤ full / next)
      (hshapes : shapes.mapM Shape.collapse = .ok shapes')
      (hdomain : Shape.collapse domain = .ok domain') :
    Turns limits full work shapes domain (.merge next shapes' domain')

/-- **What a turn can be.** -/
theorem turns_of_turn {next : Turn} (h : limits.turn full work shapes domain = .ok next) :
    Turns limits full work shapes domain next := by
  rw [turn] at h
  split at h
  · rename_i hwants
    obtain ⟨mergeable, htails, h⟩ := Checked.bind_eq_ok.1 h
    obtain ⟨outer, houter, h⟩ := Checked.bind_eq_ok.1 h
    obtain ⟨size, hsize, h⟩ := Checked.bind_eq_ok.1 h
    obtain ⟨remaining, hremaining, h⟩ := Checked.bind_eq_ok.1 h
    obtain ⟨rfl, -⟩ := Checked.mul_eq_ok.1 hsize
    obtain ⟨hne, rfl⟩ := Checked.div_eq_ok.1 hremaining
    have hnext : Considers limits full work domain (work * outer) :=
      ⟨hwants.1, hwants.2, ⟨outer, houter, rfl⟩, hne⟩
    split at h
    · rename_i hfew
      obtain rfl := Checked.pure_eq_ok.1 h
      exact .fewCalls hnext hfew
    · rename_i hcalls
      split at h
      · rename_i hmergeable
        obtain ⟨shapes', hshapes, h⟩ := Checked.bind_eq_ok.1 h
        obtain ⟨domain', hdomain, h⟩ := Checked.bind_eq_ok.1 h
        obtain rfl := Checked.pure_eq_ok.1 h
        exact .merge hnext (hmergeable ▸ htails) (Nat.le_of_not_lt hcalls) hshapes hdomain
      · rename_i hmergeable
        obtain rfl := Checked.pure_eq_ok.1 h
        rw [Bool.not_eq_true] at hmergeable
        exact .mixed hnext (hmergeable ▸ htails) (Nat.le_of_not_lt hcalls) rfl
  · rename_i hwants
    obtain rfl := Checked.pure_eq_ok.1 h
    exact .enoughWork (by omega)

/-! ## The collapse as a course -/

/-- Without the reason, the course is the collapse. -/
theorem collapseFrom_eq_courseFrom (merges : Nat) :
    limits.collapseFrom full merges work shapes domain =
      (·.2) <$> limits.courseFrom full merges work shapes domain := by
  induction merges generalizing work shapes domain with
  | zero =>
    rw [collapseFrom, courseFrom]
    split <;> rfl
  | succ merges ih =>
    rw [collapseFrom, courseFrom, turn]
    split
    · simp only [bind_assoc, map_bind]
      refine bind_congr fun mergeable => bind_congr fun outer => bind_congr fun next =>
        bind_congr fun remaining => ?_
      split
      · rfl
      · split
        · simp only [bind_assoc, ih]
          rfl
        · rfl
    · rfl

/-- **Without the reason, the course is the collapse.** -/
theorem collapse_eq_course : limits.collapse shapes domain = (·.2) <$> limits.course shapes domain := by
  rw [collapse, course, map_bind]
  refine bind_congr fun full => ?_
  split
  · rfl
  · rw [map_bind]
    exact bind_congr fun work => collapseFrom_eq_courseFrom _

/-- A collapse has a course. -/
theorem exists_course {out : Collapsed} (h : limits.collapse shapes domain = .ok out) :
    ∃ reason, limits.course shapes domain = .ok (reason, out) := by
  rw [collapse_eq_course] at h
  cases hcourse : limits.course shapes domain with
  | error cause => simp [hcourse] at h
  | ok result =>
    rw [hcourse] at h
    cases h
    exact ⟨result.1, rfl⟩

/-! ## What holds before every turn -/

/-- What holds before every turn: ones stand in front of the dimensions that are left, and a call has as
much work as the last of them says. -/
structure InStep (full merges work : Nat) (domain : Shape) : Prop where
  ones : ∃ spent left, domain = List.replicate spent 1 ++ left ∧ left.length = merges + 1
  count : Shape.count domain = full
  work : Checked.getBack domain 1 = .ok work

/-- All dimensions are left in front of the first turn. -/
theorem inStep_start (h : Checked.getBack domain 1 = .ok work) :
    InStep (Shape.count domain) (domain.length - 1) work domain where
  ones := by
    have hlen := (Checked.getBack_eq_ok.1 h).1
    exact ⟨0, domain, rfl, by omega⟩
  count := rfl
  work := h

namespace InStep

variable {merges next : Nat}

/-- **If only one dimension is left, a call has all the work.** -/
theorem work_eq_full (h : InStep full 0 work domain) : work = full := by
  obtain ⟨spent, left, rfl, hlen⟩ := h.ones
  obtain ⟨inner, rfl⟩ := List.length_eq_one_iff.1 hlen
  have hwork := h.work
  have hcount := h.count
  rw [Checked.getBack_concat_one, Except.ok.injEq] at hwork
  rw [Shape.count_append, Shape.count_replicate_one, Nat.one_mul] at hcount
  rw [← hwork, ← hcount]
  simp

/-- The calls that would remain are counted by the dimensions in front of the last two. -/
theorem front_of_considers (h : InStep full merges work domain)
    (hnext : Considers limits full work domain next) :
    ∃ front outer, domain = front ++ [outer, work] ∧ next = work * outer ∧
      full / next = Shape.count front := by
  obtain ⟨outer, houter, rfl⟩ := hnext.second
  obtain ⟨front, outer', inner, rfl⟩ := Shape.exists_eq_append_pair (Checked.getBack_eq_ok.1 houter).1
  obtain rfl : outer' = outer := by simpa using houter
  obtain rfl : inner = work := by simpa using h.work
  refine ⟨front, outer', rfl, rfl, ?_⟩
  have hfull : full = Shape.count front * (inner * outer') := by
    rw [← h.count, Shape.count_append]
    simp [Nat.mul_comm]
  rw [hfull, Nat.mul_div_cancel _ (Nat.pos_of_ne_zero hnext.ne_zero)]

/-- A merge leaves one dimension less, and a call has the work that was considered. -/
theorem merge {domain' : Shape} (h : InStep full (merges + 1) work domain)
    (hnext : Considers limits full work domain next) (hdomain : Shape.collapse domain = .ok domain') :
    InStep full merges next domain' := by
  have hcount := (Shape.count_collapse hdomain).trans h.count
  obtain ⟨spent, left, hones, hlen⟩ := h.ones
  obtain ⟨front, outer, heq, rfl, -⟩ := h.front_of_considers hnext
  have hpair : 2 ≤ left.length := by omega
  obtain ⟨middle, outer', inner, rfl⟩ := Shape.exists_eq_append_pair hpair
  rw [hones, ← List.append_assoc] at heq
  obtain ⟨rfl, rfl, rfl⟩ := Shape.append_pair_inj heq
  obtain ⟨front', p, q, heq', -, rfl⟩ := Shape.collapse_eq_ok.1 hdomain
  rw [hones, ← List.append_assoc] at heq'
  obtain ⟨rfl, rfl, rfl⟩ := Shape.append_pair_inj heq'
  refine ⟨⟨spent + 1, middle ++ [inner * outer'], ?_, by simpa using hlen⟩, hcount, ?_⟩
  · simp [List.replicate_succ]
  · exact Checked.getBack_concat_one _ _

end InStep

/-! ## The end of a course -/

variable {merges : Nat} {reason : Stop} {out : Collapsed}

/-- A course with no merges left leaves everything as it is. -/
theorem eq_of_courseFrom_zero (h : limits.courseFrom full 0 work shapes domain = .ok (reason, out)) :
    out = ⟨1, shapes, domain⟩ := by
  rw [courseFrom] at h
  split at h <;> cases Checked.pure_eq_ok.1 h <;> rfl

/-- **Where the course ends, the next turn is to stop**, for the reason for which it ends.

**Proof sketch.** Induction on the merges that are left. If there are none, a call has all the work, so
that the next turn would be to stop as well. -/
theorem turn_of_courseFrom (h : limits.courseFrom full merges work shapes domain = .ok (reason, out))
    (hstep : InStep full merges work domain) :
    ∃ merges' work', InStep full merges' work' out.domain ∧
      limits.turn full work' out.shapes out.domain = .ok (.stop reason out.tileRank) := by
  induction merges generalizing work shapes domain with
  | zero =>
    have hfull := hstep.work_eq_full
    rw [courseFrom, if_neg (by omega), Checked.pure_eq_ok] at h
    cases h
    refine ⟨0, work, hstep, ?_⟩
    rw [turn, if_neg (by omega)]
    rfl
  | succ merges ih =>
    rw [courseFrom] at h
    obtain ⟨next, hturn, h⟩ := Checked.bind_eq_ok.1 h
    cases next with
    | stop reason' tileRank =>
      cases Checked.pure_eq_ok.1 h
      exact ⟨_, work, hstep, hturn⟩
    | merge work' shapes' domain' =>
      cases turns_of_turn hturn with
      | merge hnext _ _ _ hdomain => exact ih h (hstep.merge hnext hdomain)

/-- **Merging keeps the calls that are asked for.** If anything was merged or the tile rank was raised,
enough calls remain.

**Proof sketch.** Each merge and the raise of the tile rank were considered before, and the calls that
would remain are those that do. -/
theorem calls_of_courseFrom (h : limits.courseFrom full merges work shapes domain = .ok (reason, out))
    (hstep : InStep full merges work domain) :
    out = ⟨1, shapes, domain⟩ ∨
      limits.minParallelism ≤ Shape.count (out.domain.take (out.domain.length - out.tileRank)) := by
  induction merges generalizing work shapes domain with
  | zero =>
    exact .inl (eq_of_courseFrom_zero h)
  | succ merges ih =>
    rw [courseFrom] at h
    obtain ⟨next, hturn, h⟩ := Checked.bind_eq_ok.1 h
    cases turns_of_turn hturn with
    | enoughWork =>
      cases Checked.pure_eq_ok.1 h
      exact .inl rfl
    | fewCalls =>
      cases Checked.pure_eq_ok.1 h
      exact .inl rfl
    | mixed hnext _ hcalls htile =>
      cases Checked.pure_eq_ok.1 h
      subst htile
      split
      · obtain ⟨front, outer, rfl, -, hremaining⟩ := hstep.front_of_considers hnext
        right
        rw [hremaining] at hcalls
        simpa using hcalls
      · exact .inl rfl
    | merge hnext _ hcalls _ hdomain =>
      rcases ih h (hstep.merge hnext hdomain) with rfl | hmore
      · obtain ⟨front, outer, rfl, -, hremaining⟩ := hstep.front_of_considers hnext
        obtain ⟨front', p, q, heq, -, rfl⟩ := Shape.collapse_eq_ok.1 hdomain
        obtain ⟨rfl, rfl, rfl⟩ := Shape.append_pair_inj heq
        right
        rw [hremaining] at hcalls
        simpa using hcalls
      · exact .inr hmore

/-! ## Plans -/

variable {outputs : Nat} {planned : Domain} {master : Shape}

/-- A domain is made from its own tensors and its own master. -/
theorem ofMaster_self {inputShapes outputShapes : List Shape} {tileRank elements : Nat}
    (h : Domain.ofMaster inputShapes outputShapes master tileRank elements = .ok planned) :
    Domain.ofMaster planned.inputShapes planned.outputShapes planned.master planned.tileRank
      planned.elements = .ok planned := by
  obtain ⟨callCount, -, hdomain⟩ := Checked.bind_eq_ok.1 h
  obtain rfl := Checked.pure_eq_ok.1 hdomain
  exact h

/-- A plan follows a course from the padded shapes to the planned ones. -/
theorem exists_course_of_plan (hmaster : Shape.broadcast shapes = .ok master)
    (h : limits.plan shapes outputs = .ok planned) :
    ∃ reason work, limits.planStop shapes outputs = .ok reason ∧
      Checked.product (Shape.padTo planned.rank master) = .ok planned.elements ∧
      InStep planned.elements (planned.rank - 1) work (Shape.padTo planned.rank master) ∧
      limits.courseFrom planned.elements (planned.rank - 1) work
          (shapes.map (Shape.padTo planned.rank) ++
            List.replicate outputs (Shape.padTo planned.rank master))
          (Shape.padTo planned.rank master) =
        .ok (reason, ⟨planned.tileRank, planned.inputShapes ++ planned.outputShapes, planned.master⟩) := by
  obtain ⟨hne, padded, elements, out, hpadded, helements, hcollapse, hdomain⟩ := plan_eq_ok.1 h
  have hlen := (fits_of_broadcast_padTo hne hpadded).1
  obtain ⟨hout, hcount⟩ : (⟨planned.tileRank, planned.inputShapes ++ planned.outputShapes,
      planned.master⟩ : Collapsed) = out ∧ planned.elements = elements := by
    obtain ⟨callCount, -, hdomain⟩ := Checked.bind_eq_ok.1 hdomain
    obtain rfl := Checked.pure_eq_ok.1 hdomain
    simp
  obtain ⟨reason, hcourse⟩ := exists_course hcollapse
  have hstop : limits.planStop shapes outputs = .ok reason := by
    rw [planStop, hpadded, Checked.ok_bind, hcourse]
    rfl
  have hpad : Shape.padTo planned.rank master = padded := by
    rw [Shape.broadcast_padTo (planRank shapes) hne (Nat.le_max_left _ _) hmaster] at hpadded
    rw [rank_of_plan h]
    exact Except.ok.inj hpadded
  rw [course, helements, Checked.ok_bind, if_neg (by rw [hlen, planRank, tensorRank]; omega)] at hcourse
  obtain ⟨work, hwork, hcourse⟩ := Checked.bind_eq_ok.1 hcourse
  have hstart := inStep_start hwork
  rw [← Shape.eq_count_of_product helements, hlen] at hstart
  rw [hlen] at hcourse
  rw [hpad, hcount, hout, rank_of_plan h]
  exact ⟨reason, work, hstop, helements, hstart, hcourse⟩

/-- A plan is made from its own tensors and its own master. -/
theorem ofMaster_self_of_plan (h : limits.plan shapes outputs = .ok planned) :
    Domain.ofMaster planned.inputShapes planned.outputShapes planned.master planned.tileRank
      planned.elements = .ok planned := by
  obtain ⟨-, _, _, _, -, -, -, hdomain⟩ := plan_eq_ok.1 h
  exact ofMaster_self hdomain

/-- The calls of a plan are counted by the dimensions that the kernel does not walk. -/
theorem callCount_eq_count_take (h : limits.plan shapes outputs = .ok planned) :
    planned.callCount = Shape.count (planned.master.take (planned.rank - planned.tileRank)) := by
  rw [callCount_of_plan h, (planned_of_plan h).1.callShape_eq, Shape.count_append,
    Shape.count_replicate_one, Nat.mul_one]

/-- The last dimension of a master with elements is at most their number. -/
theorem InStep.work_le {merges : Nat} (h : InStep full merges work domain) (hpos : 0 < full) :
    work ≤ full := by
  rw [← h.count] at hpos ⊢
  exact (Shape.fits_self domain).le_count hpos work
    (List.mem_of_getElem? (Checked.getBack_eq_ok.1 h.work).2)

/-- **A plan keeps the calls that are asked for, and stops for a reason.** Shapes that broadcast to
elements in range have a plan. In every plan, for a limit of one or two on the tile rank, either nothing
was merged and the kernel walks one dimension of the padded shapes, or as many calls remain as are asked
for. If the kernel walks two dimensions, a call had too little work, and a tensor is broadcast along
exactly one of the last two dimensions. If it walks one, then a call has enough work or all of it, too few
calls would remain, or the tile rank may not be raised for such a tensor. The number of dimensions is
never the reason.

**Proof sketch.** Where the course ends, the next turn is to stop for the reason given; so each reason is
read off the planned domain. -/
theorem plan_stops_for_reason
    (hlimit : limits.tileRankLimit = 1 ∨ limits.tileRankLimit = 2)
    (hmaster : Shape.broadcast shapes = .ok master) (hpos : 0 < master.count) :
    (shapes ≠ [] → master.count < 0x10000000000000000 →
        ∃ planned, limits.plan shapes outputs = .ok planned) ∧
      ∀ planned, limits.plan shapes outputs = .ok planned →
        (Domain.ofMaster (shapes.map (Shape.padTo planned.rank))
              (List.replicate outputs (Shape.padTo planned.rank master))
              (Shape.padTo planned.rank master) 1 master.count = .ok planned ∨
            limits.minParallelism ≤ planned.callCount) ∧
          (∃ front second inner, planned.master = front ++ [second, inner] ∧
            (planned.tileRank = 2 ∧ inner < limits.minWork ∧ inner < planned.elements ∧
                (∃ shape ∈ planned.inputShapes ++ planned.outputShapes, shape.Mixed) ∨
              planned.tileRank = 1 ∧
                (limits.minWork ≤ inner ∨ inner = planned.elements ∨
                  planned.elements / (inner * second) < limits.minParallelism ∨
                  limits.tileRankLimit = 1 ∧
                    ∃ shape ∈ planned.inputShapes ++ planned.outputShapes, shape.Mixed))) ∧
          ∃ reason, limits.planStop shapes outputs = .ok reason ∧ reason ≠ .noDimensions := by
  refine ⟨fun hne hlt => plan_succeeds hne hmaster hpos hlt, fun planned h => ?_⟩
  have helements : planned.elements = master.count := (sameReading_of_plan hmaster h).2
  obtain ⟨reason, work, hreason, -, hstart, hcourse⟩ := exists_course_of_plan hmaster h
  obtain ⟨merges, work', hend, hturn⟩ := turn_of_courseFrom hcourse hstart
  have hturns := turns_of_turn hturn
  refine ⟨?_, ?_, reason, hreason, ?_⟩
  · refine (calls_of_courseFrom hcourse hstart).imp (fun hsame => ?_) fun hcalls => ?_
    · rw [Collapsed.mk.injEq] at hsame
      obtain ⟨htile, htensors, hpadded⟩ := hsame
      obtain ⟨hinputs, houtputs⟩ := List.append_inj htensors
        (by simpa using (planned_of_plan h).2)
      have hself := ofMaster_self_of_plan h
      rwa [htile, hinputs, houtputs, hpadded, helements] at hself
    · rw [callCount_eq_count_take h]
      exact hcalls
  · have hrank : 2 ≤ planned.master.length := by
      have hrank := (planned_of_plan h).1.rank
      rw [tensorRank] at hrank
      omega
    obtain ⟨front, second, inner, hsplit⟩ := Shape.exists_eq_append_pair hrank
    obtain rfl : inner = work' := by
      have hwork := hend.work
      rwa [hsplit, Checked.getBack_pair_one, Except.ok.injEq] at hwork
    have hle := hend.work_le (helements ▸ hpos)
    refine ⟨front, second, inner, hsplit, ?_⟩
    generalize htile : planned.tileRank = tileRank at hturns ⊢
    cases hturns with
    | enoughWork henough =>
      exact .inr ⟨rfl, henough.imp_right fun hall => .inl (Nat.le_antisymm hle hall)⟩
    | fewCalls hnext hfew =>
      obtain ⟨front', outer, heq, rfl, -⟩ := hend.front_of_considers hnext
      rw [hsplit] at heq
      obtain ⟨rfl, rfl, -⟩ := Shape.append_pair_inj heq
      exact .inr ⟨rfl, .inr (.inr (.inl hfew))⟩
    | mixed hnext htails _ hraise =>
      have hmixed := Shape.exists_mixed htails
      rcases hlimit with hone | htwo
      · rw [hone, if_neg (Nat.lt_irrefl 1)] at hraise
        exact .inr ⟨hraise, .inr (.inr (.inr ⟨hone, hmixed⟩))⟩
      · rw [htwo, if_pos Nat.one_lt_two] at hraise
        exact .inl ⟨hraise, hnext.tooLittle, hnext.notAll, hmixed⟩
  · rintro rfl
    cases hturns

/-- The second tensor is broadcast along the rows, so that the kernel walks two dimensions; of the calls
that remain at least four are asked for. -/
theorem plan_stops_for_reason_of_rows :
    Shape.broadcast [[42, 16, 64], [42, 16, 1]] = .ok [42, 16, 64] ∧ 0 < Shape.count [42, 16, 64] ∧
      ∃ planned, plan ⟨256, 4, 2⟩ [[42, 16, 64], [42, 16, 1]] 1 = .ok planned ∧
        planned.tileRank = 2 ∧ planned.callCount = 42 ∧
        64 < 256 ∧ 64 < planned.elements ∧
        (∃ shape ∈ planned.inputShapes ++ planned.outputShapes, shape.Mixed) ∧
        planStop ⟨256, 4, 2⟩ [[42, 16, 64], [42, 16, 1]] 1 = .ok .mixed ∧
        ∃ reason, planStop ⟨256, 4, 2⟩ [[42, 16, 64], [42, 16, 1]] 1 = .ok reason ∧
          reason ≠ .noDimensions := by
  have h : plan ⟨256, 4, 2⟩ [[42, 16, 64], [42, 16, 1]] 1 = .ok {
      inputShapes := [[1, 1, 1, 42, 16, 64], [1, 1, 1, 42, 16, 1]]
      outputShapes := [[1, 1, 1, 42, 16, 64]]
      master := [1, 1, 1, 42, 16, 64]
      callShape := [1, 1, 1, 42, 1, 1]
      tileRank := 2
      elements := 43008
      callCount := 42
      tiled := ⟨16, 64⟩ } := by rfl
  have hmaster : Shape.broadcast [[42, 16, 64], [42, 16, 1]] = .ok [42, 16, 64] := by rfl
  obtain ⟨-, ⟨front, second, inner, hsplit, hwhy⟩, hreason⟩ :=
    (plan_stops_for_reason (.inr rfl) hmaster (by decide)).2 _ h
  have hdims : front ++ [second, inner] = [1, 1, 1, 42] ++ [16, 64] := hsplit.symm
  obtain ⟨-, -, rfl⟩ := Shape.append_pair_inj hdims
  obtain ⟨-, hlittle, hsome, hmixed⟩ := hwhy.resolve_right fun hone => absurd hone.1 (by decide)
  exact ⟨hmaster, by decide, _, h, rfl, rfl, hlittle, hsome, hmixed, by rfl, hreason⟩

end Optimizer

end Pointwise
