import Pointwise.Proofs.Domain.Course

/-!
# Plans under different limits

The limits do not decide what is merged, only how far. Two optimizers that look at the same shapes take
the same turns until one of them stops; the other one may go on from there, and whatever it does behind
that point leaves fewer kernel calls. So a plan depends on each of the limits in one direction.

## Main definitions

* `Domain.mergeTails`, `Domain.raiseTileRank` — one more merge, one more dimension for the kernel.
* `Domain.LeadsTo` — a domain obtained by further merges, possibly followed by raising the tile rank.
* `Optimizer.GoesFurther` — limits under which at least as much is merged.

## Main results

* `Optimizer.courseFrom_passes` — the longer course passes the place where the shorter one ends.
* `Optimizer.leadsTo_of_courseFrom` — a course leads to a domain with at most as many calls.
* `Optimizer.plan_monotone` — planning is monotone in each limit.
-/

set_option autoImplicit false

namespace Pointwise

/-! ## Further merges -/

namespace Domain

/-- The domain with the last two dimensions of all tensors and of the master merged once more. -/
def mergeTails (domain : Domain) : Except Error Domain := do
  let inputShapes ← domain.inputShapes.mapM Shape.collapse
  let outputShapes ← domain.outputShapes.mapM Shape.collapse
  let master ← Shape.collapse domain.master
  ofMaster inputShapes outputShapes master domain.tileRank domain.elements

/-- The domain whose kernel walks one dimension more. -/
def raiseTileRank (domain : Domain) : Except Error Domain :=
  ofMaster domain.inputShapes domain.outputShapes domain.master (domain.tileRank + 1) domain.elements

/-- A domain that is obtained from another one by any number of further merges, possibly followed by
raising the tile rank. -/
inductive LeadsTo : Domain → Domain → Prop where
  | same (domain : Domain) : LeadsTo domain domain
  | raise {domain raised : Domain} (h : domain.raiseTileRank = .ok raised) : LeadsTo domain raised
  | merge {domain merged last : Domain} (h : domain.mergeTails = .ok merged)
      (hrest : LeadsTo merged last) : LeadsTo domain last

variable {inputShapes outputShapes : List Shape} {front : Shape} {outer inner elements tileRank : Nat}
  {master : Shape} {domain : Domain}

/-- The calls are counted by the dimensions that the kernel does not walk. -/
theorem callCount_of_ofMaster
    (h : ofMaster inputShapes outputShapes master tileRank elements = .ok domain) :
    domain.callCount = Shape.count (master.take (master.length - tileRank)) := by
  obtain ⟨callCount, hcalls, hdomain⟩ := Checked.bind_eq_ok.1 h
  obtain rfl := Checked.pure_eq_ok.1 hdomain
  rw [Shape.eq_count_of_product hcalls, Shape.count_append, Shape.count_replicate_one, Nat.mul_one]

end Domain

namespace Optimizer

variable {limits limits' : Optimizer} {full merges work : Nat} {shapes : List Shape} {domain : Shape}
  {reason reason' : Stop} {out out' : Collapsed}

/-! ## One step further -/

/-- Limits under which at least as much is merged: a call should have at least as much work, at most as
many calls have to remain, and the tile rank may be at least as large. -/
structure GoesFurther (limits limits' : Optimizer) : Prop where
  minWork : limits.minWork ≤ limits'.minWork
  minParallelism : limits'.minParallelism ≤ limits.minParallelism
  tileRankLimit : limits.tileRankLimit ≤ limits'.tileRankLimit

/-- A merge that is considered under some limits is the one considered under others. -/
theorem Considers.next_eq {next next' : Nat} (h : Considers limits full work domain next)
    (h' : Considers limits' full work domain next') : next = next' := by
  obtain ⟨outer, houter, rfl⟩ := h.second
  obtain ⟨outer', houter', rfl⟩ := h'.second
  rw [houter, Except.ok.injEq] at houter'
  rw [houter']

/-- A merge that is considered and leaves enough calls is not the end under the further limits: there is
still too little work, and enough calls would remain. -/
theorem GoesFurther.turns_cases (hle : GoesFurther limits limits') {next : Nat} {turn : Turn}
    (hnext : Considers limits full work domain next) (hcalls : limits.minParallelism ≤ full / next)
    (h : Turns limits' full work shapes domain turn) :
    (∃ tileRank, turn = .stop .mixed tileRank ∧ Shape.allTailsMergeable shapes = .ok false ∧
        tileRank = if 1 < limits'.tileRankLimit then 2 else 1) ∨
      ∃ shapes' domain', turn = .merge next shapes' domain' ∧
        Shape.allTailsMergeable shapes = .ok true ∧ shapes.mapM Shape.collapse = .ok shapes' ∧
        Shape.collapse domain = .ok domain' := by
  have hwork := hnext.tooLittle.trans_le hle.minWork
  cases h with
  | enoughWork henough =>
    have hsome := hnext.notAll
    omega
  | fewCalls hnext' hfew =>
    rw [hnext'.next_eq hnext] at hfew
    exact absurd (hle.minParallelism.trans hcalls) (Nat.not_le.2 hfew)
  | mixed _ htails _ htile => exact .inl ⟨_, rfl, htails, htile⟩
  | merge hnext' htails _ hshapes hdomain =>
    rw [hnext'.next_eq hnext]
    exact .inr ⟨_, _, rfl, htails, hshapes, hdomain⟩

/-- The kernel walks one dimension when the optimizer stops, or two because of a merge that it considered. -/
theorem Turns.tileRank {reason : Stop} {tileRank : Nat}
    (h : Turns limits full work shapes domain (.stop reason tileRank)) :
    tileRank = 1 ∨ tileRank = 2 ∧ ∃ next, Considers limits full work domain next := by
  cases h with
  | enoughWork => exact .inl rfl
  | fewCalls => exact .inl rfl
  | mixed hnext _ _ htile =>
    split at htile
    · exact .inr ⟨htile, _, hnext⟩
    · exact .inl htile

/-- **Further limits change only where to stop**: a turn other than to stop with one dimension for the
kernel is the same under them. -/
theorem turn_of_goesFurther (hle : GoesFurther limits limits') {turn turn' : Turn}
    (h : limits.turn full work shapes domain = .ok turn)
    (h' : limits'.turn full work shapes domain = .ok turn') :
    (∃ reason, turn = .stop reason 1) ∨ turn' = turn := by
  have hturns' := turns_of_turn h'
  cases turns_of_turn h with
  | enoughWork => exact .inl ⟨_, rfl⟩
  | fewCalls => exact .inl ⟨_, rfl⟩
  | mixed hnext htails hcalls htile =>
    by_cases hlimit : 1 < limits.tileRankLimit
    · rcases hle.turns_cases hnext hcalls hturns' with ⟨tileRank, rfl, -, htile'⟩ | ⟨_, _, -, htails', -⟩
      · rw [if_pos hlimit] at htile
        rw [if_pos (hlimit.trans_le hle.tileRankLimit)] at htile'
        rw [htile, htile']
        exact .inr rfl
      · rw [htails] at htails'
        cases htails'
    · rw [htile, if_neg hlimit]
      exact .inl ⟨_, rfl⟩
  | merge hnext htails hcalls hshapes hdomain =>
    rcases hle.turns_cases hnext hcalls hturns' with
      ⟨_, -, htails', -⟩ | ⟨shapes', domain', rfl, -, hshapes', hdomain'⟩
    · rw [htails] at htails'
      cases htails'
    · rw [hshapes, Except.ok.injEq] at hshapes'
      rw [hdomain, Except.ok.injEq] at hdomain'
      rw [hshapes', hdomain']
      exact .inr rfl

/-! ## The longer course -/

/-- **The longer course passes the place where the shorter one ends**, or both end with the kernel walking
two dimensions of the same tensors.

**Proof sketch.** Induction on the merges that are left. As long as the first optimizer merges, the other
one takes the same turn; if the first one stops with one dimension for the kernel, the other one goes on
from there. -/
theorem courseFrom_passes (hle : GoesFurther limits limits') (hstep : InStep full merges work domain)
    (h : limits.courseFrom full merges work shapes domain = .ok (reason, out))
    (h' : limits'.courseFrom full merges work shapes domain = .ok (reason', out')) :
    out' = out ∨ out.tileRank = 1 ∧ ∃ merges' work', InStep full merges' work' out.domain ∧
      limits'.courseFrom full merges' work' out.shapes out.domain = .ok (reason', out') := by
  induction merges generalizing work shapes domain with
  | zero =>
    obtain rfl := eq_of_courseFrom_zero h
    exact .inr ⟨rfl, 0, work, hstep, h'⟩
  | succ merges ih =>
    have hcourse' := h'
    rw [courseFrom] at h h'
    obtain ⟨turn, hturn, h⟩ := Checked.bind_eq_ok.1 h
    obtain ⟨turn', hturn', h'⟩ := Checked.bind_eq_ok.1 h'
    rcases turn_of_goesFurther hle hturn hturn' with ⟨reason'', rfl⟩ | rfl
    · cases Checked.pure_eq_ok.1 h
      exact .inr ⟨rfl, merges + 1, work, hstep, hcourse'⟩
    · cases turn' with
      | stop reason'' tileRank =>
        cases Checked.pure_eq_ok.1 h
        cases Checked.pure_eq_ok.1 h'
        exact .inl rfl
      | merge next shapes' domain' =>
        cases turns_of_turn hturn with
        | merge hnext _ _ _ hdomain => exact ih (hstep.merge hnext hdomain) h h'

/-- The tensors that stand first, and those behind them, are merged like all. -/
theorem mapM_collapse_take_drop {shapes' : List Shape} (inputs : Nat)
    (h : shapes.mapM Shape.collapse = .ok shapes') :
    (shapes.take inputs).mapM Shape.collapse = .ok (shapes'.take inputs) ∧
      (shapes.drop inputs).mapM Shape.collapse = .ok (shapes'.drop inputs) := by
  rw [Checked.mapM_eq_ok] at h
  exact ⟨Checked.mapM_eq_ok.2 (List.forall₂_take inputs h),
    Checked.mapM_eq_ok.2 (List.forall₂_drop inputs h)⟩

/-- A domain of which the kernel walks one dimension, and what one more merge makes of it. -/
theorem mergeTails_of_considers {inputs elements next : Nat} {shapes' : List Shape} {domain' : Shape}
    {first : Domain} (hstep : InStep full merges work domain)
    (hnext : Considers limits full work domain next) (hshapes : shapes.mapM Shape.collapse = .ok shapes')
    (hdomain : Shape.collapse domain = .ok domain')
    (hfirst : Domain.ofMaster (shapes.take inputs) (shapes.drop inputs) domain 1 elements = .ok first) :
    ∃ merged, first.mergeTails = .ok merged ∧ merged.callCount ≤ first.callCount ∧
      Domain.ofMaster (shapes'.take inputs) (shapes'.drop inputs) domain' 1 elements = .ok merged := by
  obtain ⟨front, outer, rfl, rfl, -⟩ := hstep.front_of_considers hnext
  obtain ⟨front', p, q, heq, -, rfl⟩ := Shape.collapse_eq_ok.1 hdomain
  obtain ⟨rfl, rfl, rfl⟩ := Shape.append_pair_inj heq
  have hcalls := Domain.callCount_of_ofMaster hfirst
  obtain ⟨callCount, hproduct, hself⟩ := Checked.bind_eq_ok.1 hfirst
  rw [Shape.take_append_pair_one, List.append_assoc] at hproduct
  obtain ⟨callCount', hproduct'⟩ := Shape.exists_product_of_append hproduct
  have hmerged : Checked.product ((1 :: front ++ [work * outer]).take
      ((1 :: front ++ [work * outer]).length - 1) ++ List.replicate 1 1) = .ok callCount' := by
    rw [← List.dropLast_eq_take, List.dropLast_concat, List.cons_append, Shape.product_one_cons]
    exact Shape.product_concat_one hproduct'
  obtain ⟨merged, hofMaster⟩ : ∃ merged, Domain.ofMaster (shapes'.take inputs) (shapes'.drop inputs)
      (1 :: front ++ [work * outer]) 1 elements = .ok merged := by
    rw [Domain.ofMaster, hmerged, Checked.ok_bind]
    exact ⟨_, rfl⟩
  refine ⟨merged, ?_, ?_, hofMaster⟩
  · obtain rfl := Checked.pure_eq_ok.1 hself
    obtain ⟨hinputs, houtputs⟩ := mapM_collapse_take_drop inputs hshapes
    rw [Domain.mergeTails, hinputs, Checked.ok_bind, houtputs, Checked.ok_bind, hdomain, Checked.ok_bind]
    exact hofMaster
  · have hpos : 0 < outer := Nat.pos_of_mul_pos_left (Nat.pos_of_ne_zero hnext.ne_zero)
    rw [Domain.callCount_of_ofMaster hofMaster, hcalls, Shape.take_append_pair_one, ← List.dropLast_eq_take,
      List.dropLast_concat, Shape.count_cons, Nat.one_mul, Shape.count_append]
    simpa using Nat.le_mul_of_pos_right (Shape.count front) hpos

/-- A domain of which the kernel walks one dimension, and what raising the tile rank makes of it. -/
theorem raiseTileRank_of_considers {inputs elements next : Nat} {first last : Domain}
    (hstep : InStep full merges work domain) (hnext : Considers limits full work domain next)
    (hfirst : Domain.ofMaster (shapes.take inputs) (shapes.drop inputs) domain 1 elements = .ok first)
    (hlast : Domain.ofMaster (shapes.take inputs) (shapes.drop inputs) domain 2 elements = .ok last) :
    first.raiseTileRank = .ok last ∧ last.callCount ≤ first.callCount := by
  have hcalls := Domain.callCount_of_ofMaster hfirst
  have hcalls' := Domain.callCount_of_ofMaster hlast
  constructor
  · obtain ⟨callCount, -, hself⟩ := Checked.bind_eq_ok.1 hfirst
    obtain rfl := Checked.pure_eq_ok.1 hself
    exact hlast
  · obtain ⟨front, outer, rfl, rfl, -⟩ := hstep.front_of_considers hnext
    have hpos : 0 < outer := Nat.pos_of_mul_pos_left (Nat.pos_of_ne_zero hnext.ne_zero)
    rw [hcalls, hcalls', Shape.take_append_pair_one, Shape.take_append_pair_two, Shape.count_append]
    simpa using Nat.le_mul_of_pos_right (Shape.count front) hpos

/-- **A course leads to a domain with at most as many calls**, in the steps in which it goes.

**Proof sketch.** Induction on the merges that are left. A merge takes away a dimension other than zero
from the calls, and raising the tile rank does so as well. -/
theorem leadsTo_of_courseFrom {inputs elements : Nat} {first last : Domain}
    (h : limits.courseFrom full merges work shapes domain = .ok (reason, out))
    (hstep : InStep full merges work domain)
    (hfirst : Domain.ofMaster (shapes.take inputs) (shapes.drop inputs) domain 1 elements = .ok first)
    (hlast : Domain.ofMaster (out.shapes.take inputs) (out.shapes.drop inputs) out.domain out.tileRank
      elements = .ok last) :
    first.LeadsTo last ∧ last.callCount ≤ first.callCount := by
  induction merges generalizing work shapes domain first with
  | zero =>
    obtain rfl := eq_of_courseFrom_zero h
    obtain rfl := Except.ok.inj (hfirst.symm.trans hlast)
    exact ⟨.same first, le_rfl⟩
  | succ merges ih =>
    rw [courseFrom] at h
    obtain ⟨turn, hturn, h⟩ := Checked.bind_eq_ok.1 h
    have hturns := turns_of_turn hturn
    cases turn with
    | stop reason' tileRank =>
      cases Checked.pure_eq_ok.1 h
      rcases hturns.tileRank with rfl | ⟨rfl, next, hnext⟩
      · obtain rfl := Except.ok.inj (hfirst.symm.trans hlast)
        exact ⟨.same first, le_rfl⟩
      · obtain ⟨hraise, hle⟩ := raiseTileRank_of_considers hstep hnext hfirst hlast
        exact ⟨.raise hraise, hle⟩
    | merge next shapes' domain' =>
      cases hturns with
      | merge hnext _ _ hshapes hdomain =>
        obtain ⟨merged, hmerge, hle, hmerged⟩ :=
          mergeTails_of_considers hstep hnext hshapes hdomain hfirst
        obtain ⟨hrest, hcalls⟩ := ih h (hstep.merge hnext hdomain) hmerged
        exact ⟨.merge hmerge hrest, hcalls.trans hle⟩

/-! ## Plans -/

variable {outputs : Nat} {first last : Domain} {master : Shape}

/-- A planned domain is made from its tensors in order, inputs first. -/
theorem ofMaster_append_of_plan (h : limits.plan shapes outputs = .ok first) :
    Domain.ofMaster ((first.inputShapes ++ first.outputShapes).take shapes.length)
      ((first.inputShapes ++ first.outputShapes).drop shapes.length) first.master first.tileRank
      first.elements = .ok first := by
  have hlen := (planned_of_plan h).2
  rw [List.take_left' hlen, List.drop_left' hlen]
  exact ofMaster_self_of_plan h

/-- **Under further limits a plan goes further.** The other plan leads to it, and it has at most as many
calls.

**Proof sketch.** Both plans follow a course from the same padded shapes, and the longer course passes the
domain at which the shorter one ends. -/
theorem leadsTo_of_plan (hle : GoesFurther limits limits') (hmaster : Shape.broadcast shapes = .ok master)
    (h : limits.plan shapes outputs = .ok first) (h' : limits'.plan shapes outputs = .ok last) :
    first.LeadsTo last ∧ last.callCount ≤ first.callCount := by
  have hself := ofMaster_append_of_plan h
  have hself' := ofMaster_append_of_plan h'
  have helements : last.elements = first.elements :=
    (sameReading_of_plan hmaster h').2.trans (sameReading_of_plan hmaster h).2.symm
  have hrank : last.rank = first.rank := (rank_of_plan h').trans (rank_of_plan h).symm
  obtain ⟨reason, work, -, -, hstep, hcourse⟩ := exists_course_of_plan hmaster h
  obtain ⟨reason', work', -, -, hstep', hcourse'⟩ := exists_course_of_plan hmaster h'
  rw [helements, hrank] at hstep' hcourse'
  rw [helements] at hself'
  obtain rfl : work' = work := Except.ok.inj (hstep'.work.symm.trans hstep.work)
  rcases courseFrom_passes hle hstep hcourse hcourse' with hsame | ⟨hone, merges, work, hend, hrest⟩
  · obtain ⟨htile, htensors, hdomain⟩ := Collapsed.mk.inj hsame
    rw [htile, htensors, hdomain, hself, Except.ok.injEq] at hself'
    rw [hself']
    exact ⟨.same last, le_rfl⟩
  · dsimp only at hone
    rw [hone] at hself
    exact leadsTo_of_courseFrom hrest hend hself hself'

/-- **Planning is monotone in each limit.** For shapes that broadcast, and whose sizes other than zero have
a product in range, there is a plan under all limits. Asking for more calls never leaves fewer calls,
asking for more work in a call never leaves more, and neither does a larger limit on the tile rank. Of the
two plans, the one under the further limits is obtained from the other one by further merges, possibly
followed by raising the tile rank. -/
theorem plan_monotone (limits : Optimizer) (outputs : Nat) (hne : shapes ≠ [])
    (hmaster : Shape.broadcast shapes = .ok master)
    (hrange : (master.filter (· ≠ 0)).prod < 2 ^ 64) :
    ∃ planned, limits.plan shapes outputs = .ok planned ∧
      (∀ minParallelism, limits.minParallelism ≤ minParallelism →
        ∃ shorter, { limits with minParallelism }.plan shapes outputs = .ok shorter ∧
          planned.callCount ≤ shorter.callCount ∧ shorter.LeadsTo planned) ∧
      (∀ minWork, limits.minWork ≤ minWork →
        ∃ longer, { limits with minWork }.plan shapes outputs = .ok longer ∧
          longer.callCount ≤ planned.callCount ∧ planned.LeadsTo longer) ∧
      ∀ tileRankLimit, limits.tileRankLimit ≤ tileRankLimit →
        ∃ longer, { limits with tileRankLimit }.plan shapes outputs = .ok longer ∧
          longer.callCount ≤ planned.callCount ∧ planned.LeadsTo longer := by
  rw [Shape.prod_filter_ne_zero] at hrange
  have hplan : ∀ limits : Optimizer, ∃ planned, limits.plan shapes outputs = .ok planned :=
    fun limits => plan_succeeds_of_extent hne hmaster hrange
  obtain ⟨planned, h⟩ := hplan limits
  refine ⟨planned, h, fun minParallelism hle => ?_, fun minWork hle => ?_, fun tileRankLimit hle => ?_⟩
  · have hfurther : GoesFurther { limits with minParallelism } limits := ⟨le_rfl, hle, le_rfl⟩
    obtain ⟨shorter, h'⟩ := hplan { limits with minParallelism }
    obtain ⟨hleads, hcalls⟩ := leadsTo_of_plan hfurther hmaster h' h
    exact ⟨shorter, h', hcalls, hleads⟩
  · have hfurther : GoesFurther limits { limits with minWork } := ⟨hle, le_rfl, le_rfl⟩
    obtain ⟨longer, h'⟩ := hplan { limits with minWork }
    obtain ⟨hleads, hcalls⟩ := leadsTo_of_plan hfurther hmaster h h'
    exact ⟨longer, h', hcalls, hleads⟩
  · have hfurther : GoesFurther limits { limits with tileRankLimit } := ⟨le_rfl, le_rfl, hle⟩
    obtain ⟨longer, h'⟩ := hplan { limits with tileRankLimit }
    obtain ⟨hleads, hcalls⟩ := leadsTo_of_plan hfurther hmaster h h'
    exact ⟨longer, h', hcalls, hleads⟩

/-- Eight calls have to remain of ninety-six: two dimensions are merged and sixteen remain. If fifty have
to remain, nothing is merged, and one merge leads from there to the other plan. -/
theorem plan_monotone_of_rows :
    Shape.broadcast [[16, 6, 16], [16, 6, 16]] = .ok [16, 6, 16] ∧
      (([16, 6, 16] : Shape).filter (· ≠ 0)).prod < 2 ^ 64 ∧
      ∃ planned shorter, plan ⟨256, 8, 2⟩ [[16, 6, 16], [16, 6, 16]] 1 = .ok planned ∧
        planned.callCount = 16 ∧ plan ⟨256, 50, 2⟩ [[16, 6, 16], [16, 6, 16]] 1 = .ok shorter ∧
        shorter.callCount = 96 ∧ shorter.LeadsTo planned := by
  have hmaster : Shape.broadcast [[16, 6, 16], [16, 6, 16]] = .ok [16, 6, 16] := by rfl
  have hrange : (([16, 6, 16] : Shape).filter (· ≠ 0)).prod < 2 ^ 64 := by decide
  obtain ⟨planned, h, hfewer, -, -⟩ :=
    plan_monotone ⟨256, 8, 2⟩ 1 (List.cons_ne_nil _ _) hmaster hrange
  obtain ⟨shorter, h', -, hleads⟩ := hfewer 50 (by decide)
  have hcalls : (plan ⟨256, 8, 2⟩ [[16, 6, 16], [16, 6, 16]] 1).map (·.callCount) = .ok 16 := by rfl
  have hcalls' : (plan ⟨256, 50, 2⟩ [[16, 6, 16], [16, 6, 16]] 1).map (·.callCount) = .ok 96 := by rfl
  rw [h] at hcalls
  rw [h'] at hcalls'
  exact ⟨hmaster, hrange, planned, shorter, h, Except.ok.inj hcalls, h', Except.ok.inj hcalls', hleads⟩

end Optimizer

end Pointwise
