import Pointwise.Proofs.Region.Course.Basic

/-!
# The rows of a scheduler

A scheduler processes the columns of a row from left to right: the vector tile runs as long as it fits,
then the scalar tile runs for single columns. Behind each row the row offsets are added to the data
pointers, which brings them to the beginning of the next one. This holds of both modes, whether the
numbers of runs are built in or found out by comparisons. Behind the last row the pointers may stand
anywhere.

## Main definitions

* `Schedule.Course.Column` — the state at a column, with the pointers there if they are needed.
* `Schedule.Course.entry` — where the pointers are in front of a row.

## Main results

* `TilePlan.ofRow_eq_ok` — how often the tiles of a row run.
* `Schedule.Course.Sound.paced_staticRow`, `Schedule.Course.Sound.paced_dynamicRow` — a row is processed.
* `Schedule.Course.Sound.paced_staticCode`, `Schedule.Course.Sound.paced_dynamicCode` — all rows are
  processed.
-/

set_option autoImplicit false

namespace Pointwise

open Machine

/-- How often the vector tile runs. -/
theorem TilePlan.vectorRuns_eq_ok {inner lanes : Nat} {runs : TileRuns}
    (h : vectorRuns inner lanes = .ok runs) :
    runs = .skip ∧ inner < lanes ∨ runs = .once ∧ lanes ≤ inner ∧ inner < 2 * lanes ∨
      runs = .loop (inner / lanes) ∧ 2 * lanes ≤ inner := by
  unfold vectorRuns at h
  split at h
  · exact .inl ⟨(Checked.pure_eq_ok.1 h).symm, ‹_›⟩
  · obtain ⟨_, htwice, h⟩ := Checked.bind_eq_ok.1 h
    obtain ⟨rfl, -⟩ := Checked.mul_eq_ok.1 htwice
    split at h
    · exact .inr (.inl ⟨(Checked.pure_eq_ok.1 h).symm, by omega, ‹_›⟩)
    · obtain ⟨_, hdiv, h⟩ := Checked.bind_eq_ok.1 h
      obtain ⟨-, rfl⟩ := Checked.div_eq_ok.1 hdiv
      exact .inr (.inr ⟨(Checked.pure_eq_ok.1 h).symm, by omega⟩)

/-- **How often the tiles run.** -/
theorem TilePlan.ofRow_eq_ok {inner lanes : Nat} {plan : TilePlan} (h : ofRow inner lanes = .ok plan) :
    (plan.vector = .skip ∧ inner < lanes ∨ plan.vector = .once ∧ lanes ≤ inner ∧ inner < 2 * lanes ∨
      plan.vector = .loop (inner / lanes) ∧ 2 * lanes ≤ inner) ∧
    (plan.scalar = .skip ∧ inner % lanes = 0 ∨ plan.scalar = .once ∧ inner % lanes = 1 ∨
      plan.scalar = .loop (inner % lanes) ∧ 2 ≤ inner % lanes) := by
  obtain ⟨vector, hvector, h⟩ := Checked.bind_eq_ok.1 h
  obtain ⟨rest, hmod, h⟩ := Checked.bind_eq_ok.1 h
  obtain ⟨-, rfl⟩ := Checked.mod_eq_ok.1 hmod
  obtain rfl := Checked.pure_eq_ok.1 h
  refine ⟨vectorRuns_eq_ok hvector, ?_⟩
  rcases hrest : inner % lanes with _ | _ | n
  · exact .inl ⟨rfl, rfl⟩
  · exact .inr (.inl ⟨rfl, rfl⟩)
  · exact .inr (.inr ⟨rfl, by omega⟩)

/-- The vector tile runs if it fits. -/
theorem TilePlan.vector_ne_skip_iff {inner lanes : Nat} {plan : TilePlan}
    (h : ofRow inner lanes = .ok plan) : plan.vector ≠ .skip ↔ lanes ≤ inner := by
  rcases (ofRow_eq_ok h).1 with ⟨hruns, hlt⟩ | ⟨hruns, hle, -⟩ | ⟨hruns, hle⟩
  · simpa [hruns] using hlt
  · simpa [hruns] using hle
  · simp only [hruns, ne_eq, reduceCtorEq, not_false_eq_true, true_iff]
    omega

/-- The scalar tile runs if columns remain. -/
theorem TilePlan.scalar_ne_skip_iff {inner lanes : Nat} {plan : TilePlan}
    (h : ofRow inner lanes = .ok plan) : plan.scalar ≠ .skip ↔ inner % lanes ≠ 0 := by
  rcases (ofRow_eq_ok h).2 with ⟨hruns, hrest⟩ | ⟨hruns, hrest⟩ | ⟨hruns, hrest⟩
  · simp [hruns, hrest]
  · simp [hruns, hrest]
  · simp only [hruns, ne_eq, reduceCtorEq, not_false_eq_true, true_iff]
    omega

namespace Schedule

/-- The code of a loop of the scalar tile. In front of it the counter is set to the number of columns
that remain, unless the vector tile was a loop, which has left this number in it. -/
theorem staticScalar_loop_eq_ok {context : Context} {plan : TilePlan} {inner lanes : Nat}
    {followed : Bool} {counter : Register} {code : Code} (hplan : TilePlan.ofRow inner lanes = .ok plan)
    (hruns : plan.scalar = .loop (inner % lanes))
    (hcode : staticScalar context plan inner lanes followed counter = .ok code) :
    ∃ setup loop, context.loop context.scalar = .ok loop ∧ code = setup ++ loop ∧
      (setup = [.setWord counter (Checked.toOffset (inner % lanes))] ∨
        setup = [] ∧ 2 * lanes ≤ inner) := by
  rcases (TilePlan.ofRow_eq_ok hplan).1 with ⟨hvector, hlt⟩ | ⟨hvector, hle, hlt⟩ | ⟨hvector, hle⟩
  · simp only [staticScalar, hruns, hvector, Checked.bind_eq_ok, Checked.pure_eq_ok] at hcode
    obtain ⟨setup, rfl, loop, hloop, rfl⟩ := hcode
    exact ⟨_, loop, hloop, rfl, .inl (by rw [Nat.mod_eq_of_lt hlt])⟩
  · simp only [staticScalar, hruns, hvector, Checked.bind_eq_ok, Checked.pure_eq_ok,
      Checked.sub_eq_ok] at hcode
    obtain ⟨_, ⟨-, rfl⟩, setup, rfl, loop, hloop, rfl⟩ := hcode
    have hrest : inner % lanes = inner - lanes := by
      rw [Nat.mod_eq_sub_mod hle, Nat.mod_eq_of_lt (by omega)]
    exact ⟨_, loop, hloop, rfl, .inl (by rw [hrest])⟩
  · simp only [staticScalar, hruns, hvector, Checked.bind_eq_ok, Checked.pure_eq_ok] at hcode
    obtain ⟨setup, rfl, loop, hloop, rfl⟩ := hcode
    exact ⟨_, loop, hloop, rfl, .inr ⟨rfl, hle⟩⟩

namespace Course

/-- The state at a column of a row. The pointers have moved there if they are needed. -/
def Column (course : Course) (row column : Nat) (needed : Prop) (counts : List (Register × Address)) :
    Assertion := fun trace s =>
  ∃ pointer, course.At row column pointer counts trace s ∧ (needed → pointer = course.place row column)

/-- No count is known. -/
theorem not_mem_counts (r : Register) : r ∉ ([] : List (Register × Address)).map (·.1) :=
  List.not_mem_nil

/-- How often an instruction of a row is visited at most. -/
def columns (course : Course) : Nat := max course.inner 1

/-- Where the pointers are in front of a row: where they begin, or where the row offsets have brought
them. -/
def entry (course : Course) : (row param : Nat) → Address
  | 0, p => course.place 0 0 p
  | row + 1, p => course.place row course.inner p + BitVec.ofInt 64 (course.rowOffset p)

namespace Sound

variable {course : Course} {row : Nat} {counts : List (Register × Address)} {code : Code}
  (hsound : course.Sound)
include hsound

section Tiles

variable (hrow : row < course.outer) (hnew : course.innerRegister ∉ counts.map (·.1))
include hrow hnew

/-- **The vector tile in a loop.** -/
theorem paced_vectorLoop (hle : course.increment .vector ≤ course.inner)
    (hcode : course.context.loop course.context.vector = .ok code) :
    Paced course.pace (course.inner / course.increment .vector)
      (course.At row 0 (course.place row 0)
        ((course.innerRegister, BitVec.ofNat 64 course.inner) :: counts)) code
      (course.At row (course.inner / course.increment .vector * course.increment .vector)
        (course.place row (course.inner / course.increment .vector * course.increment .vector))
        ((course.innerRegister, BitVec.ofNat 64 (course.inner % course.increment .vector)) ::
          counts)) := by
  have hloop := hsound.paced_loop hnew .vector hcode hrow 0 hle hsound.inner_lt fun k hk => by
    rw [Nat.zero_add]
    exact ⟨k, hk, rfl⟩
  simpa only [Nat.zero_add] using hloop

/-- **The scalar tile in a loop.** -/
theorem paced_scalarLoop (hle : 1 ≤ course.inner % course.increment .vector)
    (hcode : course.context.loop course.context.scalar = .ok code) :
    Paced course.pace (course.inner % course.increment .vector)
      (course.At row (course.inner / course.increment .vector * course.increment .vector)
        (course.place row (course.inner / course.increment .vector * course.increment .vector))
        ((course.innerRegister, BitVec.ofNat 64 (course.inner % course.increment .vector)) ::
          counts)) code
      (course.At row course.inner (course.place row course.inner)
        ((course.innerRegister, BitVec.ofNat 64 0) :: counts)) := by
  have hdiv := Nat.div_add_mod course.inner (course.increment .vector)
  rw [Nat.mul_comm] at hdiv
  have hmod := Nat.mod_lt course.inner hsound.vector_pos
  have hlt := hsound.vector_lt
  rw [← hsound.scalar] at hle
  have hloop := hsound.paced_loop hnew .scalar hcode hrow
    (course.inner / course.increment .vector * course.increment .vector) hle (by omega) fun k hk => by
      rw [hsound.scalar, Nat.div_one] at hk
      rw [hsound.scalar, Nat.mul_one, Begins]
      omega
  simpa only [hsound.scalar, Nat.div_one, Nat.mul_one, Nat.mod_one, hdiv] using hloop

end Tiles

/-- **A single run of a tile**, behind which the pointers move if a condition holds. -/
theorem paced_oneRun (counts : List (Register × Address)) (kind : BodyKind) {body : Code} {column : Nat}
    (hbody : (course.context.tileOf kind).body = .ok body) (hrow : row < course.outer)
    (hbegins : course.Begins kind column) {condition : Prop} [Decidable condition]
    (hcode : (if condition then do
        return body ++ (← (course.context.tileOf kind).tile.advance course.context.pointers)
      else return body) = .ok code) :
    Paced course.pace 1 (course.At row column (course.place row column) counts) code
      (course.Column row (column + course.increment kind) condition counts) := by
  have honce := hsound.paced_once counts hbody hrow hbegins
  by_cases hcondition : condition
  · rw [if_pos hcondition, Checked.bind_eq_ok, hsound.pointers] at hcode
    obtain ⟨advance, hadvance, hcode⟩ := hcode
    obtain rfl := Checked.pure_eq_ok.1 hcode
    exact (honce.append (.of_triple hsound.pace_pos Nat.one_pos
      (hsound.triple_advance kind hadvance))).weaken (fun _ _ hs => hs) le_rfl
        fun _ _ hs => ⟨_, hs, fun _ => rfl⟩
  · rw [if_neg hcondition] at hcode
    obtain rfl := Checked.pure_eq_ok.1 hcode
    exact honce.weaken (fun _ _ hs => hs) le_rfl fun _ _ hs => ⟨_, hs, fun h => (hcondition h).elim⟩

/-! ## Static rows -/

/-- **The count of a scalar loop** is the number of columns that remain. -/
theorem paced_counter (row : Nat) (hnew : course.innerRegister ∉ counts.map (·.1)) {setup : Code}
    {needed : Prop} (hneeded : needed)
    (hsetup : setup = [.setWord course.innerRegister
        (Checked.toOffset (course.inner % course.increment .vector))] ∨
      setup = [] ∧ 2 * course.increment .vector ≤ course.inner) :
    Paced course.pace course.columns (fun trace s =>
        course.Column row (course.inner / course.increment .vector * course.increment .vector)
          needed counts trace s ∧
        (2 * course.increment .vector ≤ course.inner → s.words.get course.innerRegister =
          BitVec.ofNat 64 (course.inner % course.increment .vector))) setup
      (course.At row (course.inner / course.increment .vector * course.increment .vector)
        (course.place row (course.inner / course.increment .vector * course.increment .vector))
        ((course.innerRegister, BitVec.ofNat 64 (course.inner % course.increment .vector)) ::
          counts)) := by
  rcases hsetup with rfl | ⟨rfl, hle⟩
  · refine (Paced.of_triple hsound.pace_pos (Nat.le_max_right _ _)
      (hsound.triple_setWord _ _ _ (.inr rfl) hnew _)).weaken ?_ le_rfl fun _ _ hs => hs
    rintro trace s ⟨⟨pointer, hs, hpointer⟩, -⟩
    rwa [← hpointer hneeded]
  · refine (Paced.nil _ _ _).weaken (fun _ _ hs => hs) le_rfl ?_
    rintro trace s ⟨⟨pointer, hs, hpointer⟩, hcounter⟩
    rw [← hpointer hneeded]
    exact hs.cons (.inr rfl) (hcounter hle)

section Static

variable {plan : TilePlan} {followed : Bool} (hrow : row < course.outer)
  (hnew : course.innerRegister ∉ counts.map (·.1))
  (hplan : TilePlan.ofRow course.inner (course.increment .vector) = .ok plan)
include hrow hnew hplan

/-- **The vector tile of a static row** processes the columns of full passes. If it is a loop, the
count is what remains. -/
theorem paced_staticVector (hcode : staticVector course.context plan course.inner followed
    course.innerRegister = .ok code) :
    Paced course.pace course.columns (course.At row 0 (course.place row 0) counts) code fun trace s =>
      course.Column row (course.inner / course.increment .vector * course.increment .vector)
          (plan.scalar ≠ .skip ∨ followed) counts trace s ∧
        (2 * course.increment .vector ≤ course.inner → s.words.get course.innerRegister =
          BitVec.ofNat 64 (course.inner % course.increment .vector)) := by
  have hpos := hsound.vector_pos
  have hcolumns : 1 ≤ course.columns := Nat.le_max_right _ _
  rcases (TilePlan.ofRow_eq_ok hplan).1 with ⟨hruns, hlt⟩ | ⟨hruns, hle, hlt⟩ | ⟨hruns, hle⟩
  · simp only [staticVector, hruns, Checked.pure_eq_ok] at hcode
    subst hcode
    rw [Nat.div_eq_of_lt hlt, Nat.zero_mul]
    exact (Paced.nil _ _ _).weaken (fun _ _ hs => hs) le_rfl
      fun _ _ hs => ⟨⟨_, hs, fun _ => rfl⟩, fun _ => by omega⟩
  · simp only [staticVector, hruns] at hcode
    obtain ⟨body, hbody, hcode⟩ := Checked.bind_eq_ok.1 hcode
    have hquot : course.inner / course.increment .vector = 1 :=
      Nat.div_eq_of_lt_le (by omega) (by omega)
    have hbegins : course.Begins .vector 0 := ⟨0, by omega, by omega⟩
    have hrun := hsound.paced_oneRun counts .vector hbody hrow hbegins hcode
    rw [Nat.zero_add] at hrun
    rw [hquot, Nat.one_mul]
    exact hrun.weaken (fun _ _ hs => hs) hcolumns fun _ _ hs => ⟨hs, fun _ => by omega⟩
  · simp only [staticVector, hruns, Checked.bind_eq_ok, Checked.pure_eq_ok] at hcode
    obtain ⟨loop, hloop, rfl⟩ := hcode
    have hset := hsound.triple_setWord row 0 (course.place row 0) (.inr rfl) hnew course.inner
    have hdiv := Nat.div_le_self course.inner (course.increment .vector)
    have hmax := Nat.le_max_left course.inner 1
    have hruns := (hsound.paced_vectorLoop hrow hnew (by omega) hloop).mono (hdiv.trans hmax)
    refine (Paced.append (.of_triple hsound.pace_pos hcolumns hset) hruns).weaken
      (fun _ _ hs => hs) le_rfl fun _ _ hs => ?_
    exact ⟨⟨_, hs.tail, fun _ => rfl⟩, fun _ => hs.get⟩

/-- **The scalar tile of a static row** processes the columns that remain. -/
theorem paced_staticScalar (hcode : staticScalar course.context plan course.inner
    (course.increment .vector) followed course.innerRegister = .ok code) :
    Paced course.pace course.columns (fun trace s =>
        course.Column row (course.inner / course.increment .vector * course.increment .vector)
          (plan.scalar ≠ .skip ∨ followed) counts trace s ∧
        (2 * course.increment .vector ≤ course.inner → s.words.get course.innerRegister =
          BitVec.ofNat 64 (course.inner % course.increment .vector))) code
      (course.Column row course.inner followed counts) := by
  have hdiv := Nat.div_add_mod course.inner (course.increment .vector)
  rw [Nat.mul_comm] at hdiv
  have hmod := Nat.mod_le course.inner (course.increment .vector)
  have hcolumns : 1 ≤ course.columns := Nat.le_max_right _ _
  obtain ⟨-, hscalar⟩ := TilePlan.ofRow_eq_ok hplan
  rcases hscalar with ⟨hruns, hrest⟩ | ⟨hruns, hrest⟩ | ⟨hruns, hrest⟩
  · simp only [staticScalar, hruns, Checked.pure_eq_ok] at hcode
    subst hcode
    have hall : course.inner / course.increment .vector * course.increment .vector = course.inner := by
      omega
    rw [hall]
    refine (Paced.nil _ _ _).weaken (fun _ _ hs => hs) le_rfl ?_
    rintro _ _ ⟨⟨pointer, hs, hpointer⟩, -⟩
    exact ⟨pointer, hs, fun h => hpointer (.inr h)⟩
  · simp only [staticScalar, hruns] at hcode
    obtain ⟨body, hbody, hcode⟩ := Checked.bind_eq_ok.1 hcode
    have hbegins : course.Begins .scalar
        (course.inner / course.increment .vector * course.increment .vector) := ⟨le_rfl, by omega⟩
    have hrun := hsound.paced_oneRun counts .scalar hbody hrow hbegins hcode
    rw [hsound.scalar, show course.inner / course.increment .vector * course.increment .vector + 1 =
      course.inner by omega] at hrun
    refine hrun.weaken ?_ hcolumns fun _ _ hs => hs
    rintro _ _ ⟨⟨pointer, hs, hpointer⟩, -⟩
    rwa [← hpointer (.inl (by simp [hruns]))]
  · obtain ⟨setup, loop, hloop, rfl, hsetup⟩ := staticScalar_loop_eq_ok hplan hruns hcode
    have hneeded : plan.scalar ≠ .skip ∨ followed := .inl (by simp [hruns])
    have hcounter := hsound.paced_counter row hnew hneeded hsetup
    have hloop := (hsound.paced_scalarLoop hrow hnew (by omega) hloop).mono
      (hmod.trans (Nat.le_max_left course.inner 1))
    exact (hcounter.append hloop).weaken (fun _ _ hs => hs) le_rfl
      fun _ _ hs => ⟨_, hs.tail, fun _ => rfl⟩

/-- **A static row.** -/
theorem paced_staticRow (hcode : staticRow course.context plan course.inner (course.increment .vector)
    followed = .ok code) :
    Paced course.pace course.columns (course.At row 0 (course.place row 0) counts) code
      (course.Column row course.inner followed counts) := by
  simp only [staticRow, Checked.bind_eq_ok, Checked.pure_eq_ok, RegisterClass.pick_eq_ok,
    hsound.register] at hcode
  obtain ⟨r, hr, vector, hvector, scalar, hscalar, rfl⟩ := hcode
  obtain rfl : course.innerRegister = r := Fin.ext hr
  exact (hsound.paced_staticVector hrow hnew hplan hvector).append
    (hsound.paced_staticScalar hrow hnew hplan hscalar)

end Static

/-! ## Dynamic rows -/

/-- **A dynamic tile** runs in a loop, which is skipped if the tile does not fit. -/
theorem paced_dynamicTile (post : Assertion) {column : Nat} (kind : BodyKind) {count runs : Nat}
    (hcount : count < 2 ^ 63)
    (hskip : count < course.increment kind → ∀ trace s,
      course.At row column (course.place row column)
        ((course.innerRegister, BitVec.ofNat 64 count) :: counts) trace s → post trace s)
    (hloop : course.increment kind ≤ count → ∀ loop,
      course.context.loop (course.context.tileOf kind) = .ok loop →
        Paced course.pace runs (course.At row column (course.place row column)
          ((course.innerRegister, BitVec.ofNat 64 count) :: counts)) loop post)
    (hcode : dynamicTile course.context (course.context.tileOf kind) course.innerRegister = .ok code) :
    Paced course.pace (max runs 1) (course.At row column (course.place row column)
      ((course.innerRegister, BitVec.ofNat 64 count) :: counts)) code post := by
  have hsmall := hsound.increment_lt kind
  simp only [dynamicTile, Checked.bind_eq_ok, Checked.pure_eq_ok, immediate_eq_ok] at hcode
  obtain ⟨_, ⟨rfl, -⟩, loop, hcontext, rfl⟩ := hcode
  have hincrement : Checked.toOffset (course.context.tileOf kind).tile.increment =
      course.increment kind := Checked.toOffset_of_lt (hsmall.trans (by decide))
  rw [hincrement]
  have hcompare := hsound.triple_compare row column (course.place row column) counts (.inr rfl) hcount
    (course.increment kind)
  by_cases hfits : count < course.increment kind
  · have hskips := less_compare count (course.increment kind)
    rw [decide_eq_true hfits] at hskips
    have hall := hcompare.append (Triple.jumpIf loop hskips fun trace s hs =>
      ⟨hs.2, hskip hfits _ _ (hsound.at_branch hs.1 _ _)⟩)
    refine Paced.of_triple hsound.pace_pos (by omega) (hall.weaken (fun _ _ hs => hs) ?_ fun _ _ hs => hs)
    simp
  · have hruns := less_compare count (course.increment kind)
    rw [decide_eq_false hfits] at hruns
    have hbranch := hcompare.append (Triple.jumpIf_not hruns loop.length fun trace s hs =>
      ⟨hs.2, hsound.at_branch hs.1 _ _⟩)
    exact (Paced.of_triple hsound.pace_pos (by omega) hbranch).append
      ((hloop (by omega) loop hcontext).mono (by omega))

/-- **A dynamic row.**

**Proof sketch.** The number of columns is loaded from the argument block. The vector tile is skipped
if the row is too short for it; it leaves the number of columns that remain, and the scalar tile is
skipped if there are none. -/
theorem paced_dynamicRow (hrow : row < course.outer) (hnew : course.innerRegister ∉ counts.map (·.1))
    (hinner : course.Provides (.loadWord course.innerRegister) (ArgumentBlock.workAt + 8)
      (BitVec.ofNat 64 course.inner))
    (hcode : dynamicRow course.context = .ok code) :
    Paced course.pace course.columns (course.At row 0 (course.place row 0) counts) code
      (course.At row course.inner (course.place row course.inner) counts) := by
  simp only [dynamicRow, Checked.bind_eq_ok, Checked.pure_eq_ok, RegisterClass.pick_eq_ok,
    hsound.register] at hcode
  obtain ⟨r, hr, m, hm, vector, hvector, scalar, hscalar, rfl⟩ := hcode
  obtain rfl : course.innerRegister = r := Fin.ext hr
  have hinnerlt := hsound.inner_lt
  have hmodlt := Nat.mod_lt course.inner hsound.vector_pos
  have hmod := Nat.mod_le course.inner (course.increment .vector)
  have hquot := Nat.div_le_self course.inner (course.increment .vector)
  have hdiv := Nat.div_add_mod course.inner (course.increment .vector)
  rw [Nat.mul_comm] at hdiv
  have hload := hsound.triple_loadWord row 0 (course.place row 0) (.inr rfl) hnew hinner hm
  have hlong := hsound.paced_dynamicTile (course.At row
      (course.inner / course.increment .vector * course.increment .vector)
      (course.place row (course.inner / course.increment .vector * course.increment .vector))
      ((course.innerRegister, BitVec.ofNat 64 (course.inner % course.increment .vector)) :: counts))
    .vector hinnerlt
    (fun hlt trace s hs => by
      rwa [Nat.mod_eq_of_lt hlt, Nat.div_eq_of_lt hlt, Nat.zero_mul])
    (fun hle loop hloop => hsound.paced_vectorLoop hrow hnew hle hloop) hvector
  have hshort := hsound.paced_dynamicTile (course.At row course.inner
      (course.place row course.inner) ((course.innerRegister, BitVec.ofNat 64 0) :: counts))
    .scalar (hmod.trans_lt hinnerlt)
    (fun hlt trace s hs => by
      rw [hsound.scalar] at hlt
      have hzero : course.inner % course.increment .vector = 0 := by omega
      have hall : course.inner / course.increment .vector * course.increment .vector =
          course.inner := by omega
      rwa [hzero, hall] at hs)
    (fun hle loop hloop => hsound.paced_scalarLoop hrow hnew (by rwa [hsound.scalar] at hle) hloop)
    hscalar
  have hle : max (course.inner / course.increment .vector) 1 ≤ course.columns := by
    rw [columns]
    omega
  have hle' : max (course.inner % course.increment .vector) 1 ≤ course.columns := by
    rw [columns]
    omega
  have hall := (Paced.of_triple hsound.pace_pos (Nat.le_max_right _ _) hload).append
    ((hlong.mono hle).append (hshort.mono hle'))
  exact hall.weaken (fun _ _ hs => hs) le_rfl fun _ _ hs => hs.tail

/-! ## Row offsets -/

/-- **Row offsets that are built in.** Those that are zero are left out. -/
theorem triple_addRowOffsets {rowOffsets : List Int} (hlen : rowOffsets.length = course.pointers.length)
    (hoffsets : ∀ p, course.rowOffset p = rowOffsets.getD p 0)
    (hcode : addRowOffsets (course.pointers.map (·.val)) rowOffsets = .ok code) {column : Nat}
    (pointer : Nat → Address) :
    Triple (course.At row column pointer counts) code code.length
      (course.At row column (fun p => pointer p + BitVec.ofInt 64 (course.rowOffset p)) counts) := by
  obtain ⟨codes, rfl, hcodes⟩ := exists_groups (Checked.mapM_eq_ok.1 hcode)
  have hlength : codes.length = course.pointers.length := by
    rw [← hcodes.length_eq, List.length_zip, List.length_map, hlen, Nat.min_self]
  refine hsound.triple_adds pointer (fun p => BitVec.ofInt 64 (course.rowOffset p)) hlength
    fun k r hk => ?_
  obtain ⟨hlt, hget⟩ := List.getElem?_eq_some_iff.1 hk
  have hentry := hcodes.get (i := k) (by simp [hlen, hlt]) (by omega)
  have hoffset : course.rowOffset k = rowOffsets[k] := by
    rw [hoffsets, List.getD_eq_getElem?_getD, List.getElem?_eq_getElem, Option.getD_some]
  simp only [List.get_eq_getElem, List.getElem_zip, List.getElem_map, hget] at hentry
  rw [List.getElem?_eq_getElem (by omega), hoffset]
  by_cases hzero : rowOffsets[k] = 0
  · rw [if_neg (by simp [hzero])] at hentry
    exact .inl ⟨by rw [hentry], by rw [hzero]; rfl⟩
  · rw [if_pos (by simp [hzero])] at hentry
    obtain ⟨i, hi, hentry⟩ := hentry
    simp only [Checked.bind_eq_ok, Checked.pure_eq_ok, RegisterClass.pick_eq_ok, immediate_eq_ok] at hi
    obtain ⟨r', hr', _, ⟨rfl, -⟩, rfl⟩ := hi
    obtain rfl : r = r' := Fin.ext hr'
    exact .inr ⟨.addImmediate r rowOffsets[k], by rw [hentry], trivial,
      fun _ _ _ => ⟨rfl, hsound.admits _ _ (List.mem_of_getElem? hk) rfl⟩⟩

/-- **Row offsets from the argument block.** -/
theorem triple_loadRowOffsets
    (hwords : ∀ (p : Nat) (r : Register), course.pointers[p]? = some r →
      course.Provides (.addLoad r) (ArgumentBlock.rowsAt + p * 8)
        (BitVec.ofInt 64 (course.rowOffset p)))
    (hcode : loadRowOffsets (course.pointers.map (·.val)) = .ok code) {column : Nat}
    (pointer : Nat → Address) :
    Triple (course.At row column pointer counts) code code.length
      (course.At row column (fun p => pointer p + BitVec.ofInt 64 (course.rowOffset p)) counts) := by
  have hcodes := Checked.mapM_eq_ok.1 hcode
  have hlength : (code.map fun i => [i]).length = course.pointers.length := by
    rw [List.length_map, ← hcodes.length_eq, List.length_zipIdx, List.length_map]
  have hflatten : (code.map fun i => [i]).flatten = code := List.flatMap_singleton' code
  have hadds : Triple (course.At row column pointer counts) (code.map fun i => [i]).flatten
      (code.map fun i => [i]).flatten.length
      (course.At row column (fun p => pointer p + BitVec.ofInt 64 (course.rowOffset p)) counts) := by
    refine hsound.triple_adds pointer (fun p => BitVec.ofInt 64 (course.rowOffset p)) hlength
      fun k r hk => ?_
    obtain ⟨hlt, hget⟩ := List.getElem?_eq_some_iff.1 hk
    rw [List.length_map] at hlength
    have hentry := hcodes.get (i := k) (by simpa using hlt) (by omega)
    simp only [List.get_eq_getElem, List.getElem_zipIdx, List.getElem_map, hget, Nat.zero_add,
      Checked.bind_eq_ok, Checked.pure_eq_ok, RegisterClass.pick_eq_ok] at hentry
    obtain ⟨r', hr', m, hm, hentry⟩ := hentry
    obtain rfl : r = r' := Fin.ext hr'
    refine .inr ⟨.addLoad r m, ?_, trivial, fun trace s hs => ?_⟩
    · rw [List.getElem?_map, List.getElem?_eq_getElem (by omega), hentry]
      rfl
    · obtain ⟨hload, hadmits⟩ := hwords k r hk row column trace s hs m hm
      exact ⟨by rw [Instruction.exec, hload], hadmits⟩
  rwa [hflatten] at hadds

/-! ## Rows one after the other -/

/-- This is the beginning of the row. -/
theorem entry_eq_place (hrow : row < course.outer) {p : Nat} (hp : p < course.pointers.length) :
    course.entry row p = course.place row 0 p := by
  cases row with
  | zero => rfl
  | succ row => exact hsound.place_next row hrow p hp

/-- **The rows in a loop.** -/
theorem paced_rows {body offsets : Code}
    (hrow : ∀ row < course.outer, ∀ count,
      Paced course.pace course.columns
        (course.At row 0 (course.place row 0) [(course.outerRegister, count)]) body
        (course.At row course.inner (course.place row course.inner) [(course.outerRegister, count)]))
    (hoffsets : ∀ row < course.outer, ∀ count,
      Triple (course.At row course.inner (course.place row course.inner)
          [(course.outerRegister, count)]) offsets offsets.length
        (course.At row course.inner (fun p => course.place row course.inner p +
          BitVec.ofInt 64 (course.rowOffset p)) [(course.outerRegister, count)])) :
    Paced course.pace (course.outer * course.columns)
      (course.At 0 0 (course.place 0 0)
        [(course.outerRegister, BitVec.ofNat 64 course.outer)])
      (countdown course.outerRegister (body ++ offsets)) (course.Reached course.outer 0) := by
  have hcolumns : 0 < course.columns := Nat.le_max_right _ _
  have hrun : ∀ k < course.outer / 1, Paced course.pace course.columns
      (course.At k 0 (course.entry k)
        [(course.outerRegister, BitVec.ofNat 64 (course.outer - k * 1))])
      (body ++ offsets)
      (course.At (k + 1) 0 (course.entry (k + 1))
        [(course.outerRegister, BitVec.ofNat 64 (course.outer - k * 1))]) := by
    intro k hk
    rw [Nat.div_one] at hk
    have hbody := (hrow k hk (BitVec.ofNat 64 (course.outer - k * 1))).append
      (.of_triple hsound.pace_pos hcolumns (hoffsets k hk _))
    exact hbody.weaken (fun trace s hs => hs.congr fun p hp => hsound.entry_eq_place hk hp) le_rfl
      fun trace s hs => { hs with reached := hsound.next k hk trace s hs.reached }
  have hloop := hsound.paced_counted (.inl rfl) (not_mem_counts _) Nat.one_pos hsound.outer_pos
    hsound.outer_lt (fun k => k) (fun _ => 0) course.entry hcolumns hrun
  rw [Nat.div_one] at hloop
  exact hloop.weaken (fun _ _ hs => hs) le_rfl fun _ _ hs => hs.reached

/-- A register that holds no count yet. -/
theorem inner_not_mem (count : Address) :
    course.innerRegister ∉ [(course.outerRegister, count)].map (·.1) := by
  have hnodup := hsound.nodup
  simp only [registers, List.nodup_cons, List.mem_cons, not_or] at hnodup
  simpa using Ne.symm hnodup.1.1

/-! ## Schedulers -/

/-- **All rows of a static scheduler.** -/
theorem paced_staticCode {rowOffsets : List Int} (hlen : rowOffsets.length = course.pointers.length)
    (hoffsets : ∀ p, course.rowOffset p = rowOffsets.getD p 0)
    (hcode : staticCode course.context course.outerRegister.val ⟨course.outer, course.inner⟩
      (course.increment .vector) rowOffsets = .ok code) :
    Paced course.pace (course.outer * course.columns) (course.At 0 0 (course.place 0 0) []) code
      (course.Reached course.outer 0) := by
  have hpos := hsound.outer_pos
  obtain ⟨plan, hplan, hcode⟩ := Checked.bind_eq_ok.1 hcode
  split at hcode
  · have hone : course.outer = 1 := by dsimp only at *; omega
    rw [hone, Nat.one_mul]
    refine (hsound.paced_staticRow hpos (not_mem_counts _) hplan hcode).weaken
      (fun _ _ hs => hs) le_rfl ?_
    rintro trace s ⟨pointer, hs, -⟩
    exact hsound.next 0 hpos trace s hs.reached
  · simp only [Checked.bind_eq_ok, Checked.pure_eq_ok, RegisterClass.pick_eq_ok,
      hsound.pointers] at hcode
    obtain ⟨r, hr, row, hrow, offsets, hadds, rfl⟩ := hcode
    obtain rfl : course.outerRegister = r := Fin.ext hr
    have hset := hsound.triple_setWord 0 0 (course.place 0 0) (.inl rfl) (not_mem_counts _)
      course.outer
    have hrows := hsound.paced_rows
      (fun k hk count => (hsound.paced_staticRow hk (hsound.inner_not_mem count) hplan hrow).weaken
        (fun _ _ hs => hs) le_rfl fun _ _ hs => by
          obtain ⟨pointer, hs, hpointer⟩ := hs
          exact hpointer rfl ▸ hs)
      (fun k hk count => hsound.triple_addRowOffsets hlen hoffsets hadds _)
    exact (Paced.of_triple hsound.pace_pos (Nat.mul_pos hpos (Nat.le_max_right _ _)) hset).append hrows

/-- **All rows of a dynamic scheduler.**

**Proof sketch.** The number of rows is loaded from the argument block. If there is a single one, the
branch is taken to the copy of the row behind the loop; otherwise the loop is entered, and behind it
the jump passes over the copy. -/
theorem paced_dynamicCode
    (houter : course.Provides (.loadWord course.outerRegister) ArgumentBlock.workAt
      (BitVec.ofNat 64 course.outer))
    (hinner : course.Provides (.loadWord course.innerRegister) (ArgumentBlock.workAt + 8)
      (BitVec.ofNat 64 course.inner))
    (hoffsets : ∀ (p : Nat) (r : Register), course.pointers[p]? = some r →
      course.Provides (.addLoad r) (ArgumentBlock.rowsAt + p * 8)
        (BitVec.ofInt 64 (course.rowOffset p)))
    (hcode : dynamicCode course.context course.outerRegister.val = .ok code) :
    Paced course.pace (course.outer * course.columns) (course.At 0 0 (course.place 0 0) []) code
      (course.Reached course.outer 0) := by
  have hpos := hsound.outer_pos
  have htimes : 0 < course.outer * course.columns := Nat.mul_pos hpos (Nat.le_max_right _ _)
  simp only [dynamicCode, blockWord, Checked.bind_eq_ok, Checked.pure_eq_ok,
    RegisterClass.pick_eq_ok, hsound.pointers] at hcode
  obtain ⟨r, hr, m, hm, row, hrow, offsets, hadds, rfl⟩ := hcode
  obtain rfl : course.outerRegister = r := Fin.ext hr
  have hentry := (hsound.triple_loadWord 0 0 (course.place 0 0) (.inl rfl) (not_mem_counts _) houter
    hm).append (hsound.triple_compare _ _ _ _ (.inl rfl) hsound.outer_lt 1)
  have hequal := equal_compare course.outer
  refine (Paced.of_triple hsound.pace_pos htimes hentry).append (Paced.branch hsound.pace_pos htimes
    (fun trace s hs => ⟨hs.2, hsound.at_branch hs.1 _ _⟩) (fun hsingle => ?_) (fun _ => ?_)
    fun trace s hs => hsound.reached_jump hs _)
  · have hone : course.outer = 1 := of_decide_eq_true (hequal.symm.trans hsingle)
    refine (hsound.paced_dynamicRow hpos (not_mem_counts _) hinner hrow).weaken
      (fun trace s hs => hs.tail) (Nat.le_mul_of_pos_left _ hpos) fun trace s hs => ?_
    have hreached := hsound.next 0 hpos trace s hs.reached
    rwa [hone]
  · exact hsound.paced_rows
      (fun k hk count => hsound.paced_dynamicRow hk (hsound.inner_not_mem count) hinner hrow)
      (fun k hk count => hsound.triple_loadRowOffsets hoffsets hadds _)

end Sound

end Course

end Schedule

end Pointwise
