import Mathlib.Algebra.Order.Group.Nat
import Mathlib.Tactic.Ring
import Pointwise.Machine.Access

/-!
# Runs of pieces of code

Branches name their targets by distance, so that a piece of code runs in the same way wherever it
stands. A run of a piece is described by the instructions that it visits with the states before
them, and by the state at its end. What a piece achieves is stated as a triple of a precondition, a
bound on its steps and a postcondition; triples of pieces make up those of what is built from them.

## Main definitions

* `Machine.Path` — consecutive steps of a run.
* `Machine.Runs` — a piece of code runs from its beginning to its end.
* `Machine.Triple` — what a piece of code achieves, and in how many steps.
* `Machine.Paced` — what it achieves, and how often it visits its instructions.

## Main results

* `Machine.Path.run_eq`, `Machine.Path.visited_eq` — a path is the beginning of a run.
* `Machine.runs_plain` — code without branches runs through.
* `Machine.Triple.append`, `Machine.Triple.loop` — pieces one after the other, and again and again.
* `Machine.Paced.append`, `Machine.Paced.branch`, `Machine.Paced.loop` — pieces one after the other, one of
  two, and again and again, by the number of visits.
-/

set_option autoImplicit false

namespace Pointwise

/-- An instruction other than a branch or `ret`. -/
def Instruction.Plain : Instruction → Prop
  | .ret | .jump _ | .jumpIf _ _ => False
  | _ => True

namespace Machine

/-- Instructions with the states before them. -/
abbrev Trace := List (Instruction × MachineState)

/-- The bytes that a run writes, in order. -/
def storesOf (trace : Trace) : List Span := trace.flatMap fun v => v.1.stores v.2

@[simp] theorem storesOf_append (trace trace' : Trace) :
    storesOf (trace ++ trace') = storesOf trace ++ storesOf trace' :=
  List.flatMap_append

@[simp] theorem storesOf_nil : storesOf [] = [] := rfl

@[simp] theorem storesOf_cons (i : Instruction) (s : MachineState) (trace : Trace) :
    storesOf ((i, s) :: trace) = i.stores s ++ storesOf trace := rfl

/-! ## Paths -/

/-- Consecutive steps of a run. -/
inductive Path (code : Code) : Nat → MachineState → Trace → Nat → MachineState → Prop
  | refl (p : Nat) (s : MachineState) : Path code p s [] p s
  | cons {p q r : Nat} {s t u : MachineState} {i : Instruction} {trace : Trace}
      (hi : code[p]? = some i) (hstep : step code p s = .goOn q t)
      (hrest : Path code q t trace r u) : Path code p s ((i, s) :: trace) r u

variable {code : Code} {p q r : Nat} {s t u : MachineState} {trace trace' : Trace}

theorem Path.append (h : Path code p s trace q t) (h' : Path code q t trace' r u) :
    Path code p s (trace ++ trace') r u := by
  induction h with
  | refl => exact h'
  | cons hi hstep _ ih => exact .cons hi hstep (ih h')

/-- A single step. -/
theorem Path.single {i : Instruction} (hi : code[p]? = some i) (hstep : step code p s = .goOn q t) :
    Path code p s [(i, s)] q t :=
  .cons hi hstep (.refl q t)

/-- **A path is the beginning of a run.** -/
theorem Path.run_eq (h : Path code p s trace q t) (bound : Nat) :
    run code (trace.length + bound) p s = run code bound q t := by
  induction h with
  | refl => simp
  | @cons p q r s t u i trace hi hstep _ ih =>
    rw [List.length_cons, Nat.add_right_comm, run, hstep]
    exact ih

/-- The run visits what the path visits first. -/
theorem Path.visited_eq (h : Path code p s trace q t) (bound : Nat) :
    visited code (trace.length + bound) p s = trace ++ visited code bound q t := by
  induction h with
  | refl => simp
  | @cons p q r s t u i trace hi hstep _ ih =>
    rw [List.length_cons, Nat.add_right_comm, visited, hi]
    dsimp only
    rw [hstep, List.cons_append]
    exact congrArg _ ih

/-- A path visits instructions of its code. -/
theorem Path.mem_code (h : Path code p s trace q t) {v : Instruction × MachineState} (hv : v ∈ trace) :
    v.1 ∈ code := by
  induction h with
  | refl => cases hv
  | cons hi _ _ ih =>
    rcases List.mem_cons.1 hv with rfl | hv
    · exact List.mem_of_getElem? hi
    · exact ih hv

/-- A path leaves all bytes alone that it does not write. -/
theorem Path.read (h : Path code p s trace q t) {a : Address}
    (ha : ∀ span ∈ storesOf trace, ¬ span.Covers a) :
    t.memory.read a = s.memory.read a := by
  induction h with
  | refl => rfl
  | cons hi hstep _ ih =>
    simp only [storesOf_cons, List.mem_append] at ha
    exact (ih fun span hspan => ha span (.inr hspan)).trans
      (read_step hi hstep fun span hspan => ha span (.inl hspan))

/-! ## Pieces of code -/

/-- A piece of code runs from its beginning to its end, wherever it stands. -/
def Runs (piece : Code) (s : MachineState) (trace : Trace) (t : MachineState) : Prop :=
  ∀ front back : Code,
    Path (front ++ piece ++ back) front.length s trace (front.length + piece.length) t

variable {piece piece' : Code}

theorem runs_nil (s : MachineState) : Runs [] s [] s := fun _ _ => .refl _ _

theorem Runs.append (h : Runs piece s trace t) (h' : Runs piece' t trace' u) :
    Runs (piece ++ piece') s (trace ++ trace') u := by
  intro front back
  have hpath := h front (piece' ++ back)
  have hpath' := h' (front ++ piece) back
  simp only [List.append_assoc, List.length_append] at hpath hpath' ⊢
  rw [← Nat.add_assoc]
  exact hpath.append hpath'

/-- A piece visits instructions of its own. -/
theorem Runs.mem_piece (h : Runs piece s trace t) {v : Instruction × MachineState} (hv : v ∈ trace) :
    v.1 ∈ piece := by
  simpa using (h [] []).mem_code hv

/-- Code that runs through leaves all bytes alone that it does not write. -/
theorem Runs.read (h : Runs piece s trace t) {a : Address}
    (ha : ∀ span ∈ storesOf trace, ¬ span.Covers a) : t.memory.read a = s.memory.read a :=
  (h [] []).read ha

/-- A piece that begins with an instruction finds it there. -/
theorem getElem?_of_cons (front back : Code) (i : Instruction) (piece : Code) :
    (front ++ (i :: piece) ++ back)[front.length]? = some i := by
  simp

theorem step_plain {i : Instruction} (hi : code[p]? = some i) (hplain : i.Plain)
    (s : MachineState) : step code p s = .goOn (p + 1) (i.exec s) := by
  cases i <;> first | exact hplain.elim | simp [step, hi]

/-- An instruction that is no branch. -/
theorem runs_single {i : Instruction} (hplain : i.Plain) (s : MachineState) :
    Runs [i] s [(i, s)] (i.exec s) := by
  intro front back
  have hi := getElem?_of_cons front back i []
  exact .single hi (step_plain hi hplain s)

/-- The state behind code without branches. -/
def execAll (piece : Code) (s : MachineState) : MachineState :=
  piece.foldl (fun s i => i.exec s) s

/-- What code without branches visits. -/
def traceAll : Code → MachineState → Trace
  | [], _ => []
  | i :: piece, s => (i, s) :: traceAll piece (i.exec s)

@[simp] theorem length_traceAll (piece : Code) (s : MachineState) :
    (traceAll piece s).length = piece.length := by
  induction piece generalizing s with
  | nil => rfl
  | cons i piece ih => simp [traceAll, ih]

/-- Code without branches is visited from its beginning to its end. -/
@[simp] theorem map_fst_traceAll (piece : Code) (s : MachineState) :
    (traceAll piece s).map (·.1) = piece := by
  induction piece generalizing s with
  | nil => rfl
  | cons i piece ih => rw [traceAll, List.map_cons, ih]

/-- **Code without branches runs through.** -/
theorem runs_plain (hplain : ∀ i ∈ piece, i.Plain) (s : MachineState) :
    Runs piece s (traceAll piece s) (execAll piece s) := by
  induction piece generalizing s with
  | nil => exact runs_nil s
  | cons i piece ih =>
    exact (runs_single (hplain i (by simp)) s).append (ih (fun j hj => hplain j (by simp [hj])) _)

/-- A jump over a piece of code. -/
theorem runs_jump (piece : Code) (s : MachineState) :
    Runs (.jump piece.length :: piece) s [(.jump piece.length, s)] s := by
  intro front back
  have hi := getElem?_of_cons front back (.jump piece.length) piece
  refine .single hi ?_
  simp only [step, hi, branch, List.length_cons]
  rw [if_pos (by omega)]
  congr 1
  omega

/-- A branch over a piece of code that is taken. -/
theorem runs_jumpIf {condition : Condition} {outcome : Ordering} (houtcome : s.outcome = some outcome)
    (hholds : condition.holds outcome = true) (piece : Code) :
    Runs (.jumpIf condition piece.length :: piece) s [(.jumpIf condition piece.length, s)] s := by
  intro front back
  have hi := getElem?_of_cons front back (.jumpIf condition piece.length) piece
  refine .single hi ?_
  simp only [step, hi, houtcome, hholds, if_true, branch, List.length_cons]
  rw [if_pos (by omega)]
  congr 1
  omega

/-- A branch that is not taken. -/
theorem runs_jumpIf_not {condition : Condition} {outcome : Ordering}
    (houtcome : s.outcome = some outcome) (hholds : condition.holds outcome = false)
    (distance : Int) :
    Runs [.jumpIf condition distance] s [(.jumpIf condition distance, s)] s := by
  intro front back
  have hi := getElem?_of_cons front back (.jumpIf condition distance) []
  refine .single hi ?_
  simp [step, houtcome, hholds]

/-- A branch back to the beginning of a piece of code, behind a run of the piece and in front of
another one. -/
theorem Runs.again {condition : Condition} {outcome : Ordering} (h : Runs piece s trace t)
    (houtcome : t.outcome = some outcome) (hholds : condition.holds outcome = true)
    (h' : Runs (piece ++ [.jumpIf condition (-(piece.length + 1))]) t trace' u) :
    Runs (piece ++ [.jumpIf condition (-(piece.length + 1))]) s
      (trace ++ (.jumpIf condition (-(piece.length + 1)), t) :: trace') u := by
  intro front back
  have hpath := h front ([.jumpIf condition (-(piece.length + 1))] ++ back)
  have hpath' := h' front back
  simp only [← List.append_assoc] at hpath hpath' ⊢
  refine hpath.append (.cons ?_ ?_ hpath')
  · simp
  · have hi : (front ++ piece ++ [.jumpIf condition (-(piece.length + 1))] ++ back)[
        front.length + piece.length]? = some (.jumpIf condition (-(piece.length + 1))) := by
      simp
    simp only [step, hi, houtcome, hholds, if_true, branch]
    rw [if_pos (by omega)]
    congr 1
    omega

/-! ## Triples -/

/-- What holds of the trace so far and of the state. -/
abbrev Assertion := Trace → MachineState → Prop

/-- **What a piece of code achieves.** Where `pre` holds it runs through in at most `steps` steps, and
`post` holds behind it. -/
def Triple (pre : Assertion) (piece : Code) (steps : Nat) (post : Assertion) : Prop :=
  ∀ trace s, pre trace s → ∃ trace' t, Runs piece s trace' t ∧ trace'.length ≤ steps ∧
    post (trace ++ trace') t

namespace Triple

variable {pre mid post : Assertion} {steps steps' : Nat}

theorem nil (pre : Assertion) : Triple pre [] 0 pre :=
  fun trace s h => ⟨[], s, runs_nil s, le_rfl, by rwa [List.append_nil]⟩

/-- Two pieces, one after the other. -/
theorem append (h : Triple pre piece steps mid) (h' : Triple mid piece' steps' post) :
    Triple pre (piece ++ piece') (steps + steps') post := by
  intro trace s hpre
  obtain ⟨trace₁, t, hruns, hle, hmid⟩ := h trace s hpre
  obtain ⟨trace₂, u, hruns', hle', hpost⟩ := h' _ t hmid
  refine ⟨trace₁ ++ trace₂, u, hruns.append hruns', ?_, by rwa [← List.append_assoc]⟩
  rw [List.length_append]
  omega

/-- A stronger precondition, a weaker postcondition and more steps. -/
theorem weaken {pre' post' : Assertion} (h : Triple pre piece steps post)
    (hpre : ∀ trace s, pre' trace s → pre trace s) (hsteps : steps ≤ steps')
    (hpost : ∀ trace s, post trace s → post' trace s) : Triple pre' piece steps' post' := by
  intro trace s hs
  obtain ⟨trace', t, hruns, hle, ht⟩ := h trace s (hpre trace s hs)
  exact ⟨trace', t, hruns, hle.trans hsteps, hpost _ t ht⟩

/-- A single instruction that is no branch. -/
theorem single {i : Instruction} (hplain : i.Plain)
    (h : ∀ trace s, pre trace s → post (trace ++ [(i, s)]) (i.exec s)) : Triple pre [i] 1 post :=
  fun trace s hpre => ⟨_, _, runs_single hplain s, le_rfl, h trace s hpre⟩

/-- Code without branches. -/
theorem plain (hplain : ∀ i ∈ piece, i.Plain)
    (h : ∀ trace s, pre trace s → post (trace ++ traceAll piece s) (execAll piece s)) :
    Triple pre piece piece.length post :=
  fun trace s hpre =>
    ⟨_, _, runs_plain hplain s, (length_traceAll piece s).le, h trace s hpre⟩

/-- **Pieces one after the other.** Each of them leads from the invariant in front of it to the
invariant in front of the next one. -/
theorem flatten (invariant : Nat → Assertion) {pieces : List Code}
    (h : ∀ (k : Nat) (hk : k < pieces.length),
      Triple (invariant k) pieces[k] pieces[k].length (invariant (k + 1))) :
    Triple (invariant 0) pieces.flatten pieces.flatten.length (invariant pieces.length) := by
  have hprefix : ∀ k ≤ pieces.length, Triple (invariant 0) (pieces.take k).flatten
      (pieces.take k).flatten.length (invariant k) := by
    intro k
    induction k with
    | zero =>
      intro _
      exact Triple.nil _
    | succ k ih =>
      intro hk
      rw [List.take_succ_eq_append_getElem hk, List.flatten_append, List.length_append,
        List.flatten_singleton]
      exact (ih (Nat.le_of_lt hk)).append (h k hk)
  have hall := hprefix pieces.length le_rfl
  rwa [List.take_length] at hall

/-- A jump over a piece of code. -/
theorem jump (piece : Code)
    (h : ∀ trace s, pre trace s → post (trace ++ [(.jump piece.length, s)]) s) :
    Triple pre (.jump piece.length :: piece) 1 post :=
  fun trace s hpre => ⟨_, s, runs_jump piece s, le_rfl, h trace s hpre⟩

/-- A branch over a piece of code that is taken. -/
theorem jumpIf (piece : Code) {condition : Condition} {outcome : Ordering}
    (hholds : condition.holds outcome = true)
    (h : ∀ trace s, pre trace s → s.outcome = some outcome ∧
      post (trace ++ [(.jumpIf condition piece.length, s)]) s) :
    Triple pre (.jumpIf condition piece.length :: piece) 1 post :=
  fun trace s hpre =>
    ⟨_, s, runs_jumpIf (h trace s hpre).1 hholds piece, le_rfl, (h trace s hpre).2⟩

/-- A branch that is not taken. -/
theorem jumpIf_not {condition : Condition} {outcome : Ordering}
    (hholds : condition.holds outcome = false) (distance : Int)
    (h : ∀ trace s, pre trace s → s.outcome = some outcome ∧
      post (trace ++ [(.jumpIf condition distance, s)]) s) :
    Triple pre [.jumpIf condition distance] 1 post :=
  fun trace s hpre =>
    ⟨_, s, runs_jumpIf_not (h trace s hpre).1 hholds distance, le_rfl, (h trace s hpre).2⟩

/-- **A loop.** Each run of the piece leads from the invariant to the invariant of the next one, and
leaves an outcome on which the branch behind it goes back exactly if another run is due. -/
theorem loop (invariant : Nat → Assertion) {condition : Condition} {runs : Nat} (hruns : 0 < runs)
    (h : ∀ k < runs, Triple (invariant k) piece steps fun trace s =>
      (∃ outcome, s.outcome = some outcome ∧
        condition.holds outcome = decide (k + 1 < runs)) ∧
      invariant (k + 1) (trace ++ [(.jumpIf condition (-(piece.length + 1)), s)]) s) :
    Triple (invariant 0) (piece ++ [.jumpIf condition (-(piece.length + 1))]) (runs * (steps + 1))
      (invariant runs) := by
  have hfrom : ∀ left k, k + left + 1 = runs → ∀ trace s, invariant k trace s → ∃ trace' t,
      Runs (piece ++ [.jumpIf condition (-(piece.length + 1))]) s trace' t ∧
        trace'.length ≤ (left + 1) * (steps + 1) ∧ invariant runs (trace ++ trace') t := by
    intro left
    induction left with
    | zero =>
      intro k hk trace s hs
      obtain ⟨trace₁, t, hrun, hle, ⟨outcome, houtcome, hholds⟩, hnext⟩ := h k (by omega) trace s hs
      rw [decide_eq_false (by omega)] at hholds
      refine ⟨_, t, hrun.append (runs_jumpIf_not houtcome hholds _), ?_, ?_⟩
      · rw [List.length_append, List.length_singleton]
        omega
      · obtain rfl : k + 1 = runs := by omega
        rwa [← List.append_assoc]
    | succ left ih =>
      intro k hk trace s hs
      obtain ⟨trace₁, t, hrun, hle, ⟨outcome, houtcome, hholds⟩, hnext⟩ := h k (by omega) trace s hs
      rw [decide_eq_true (by omega)] at hholds
      obtain ⟨trace₂, u, hrun', hle', hlast⟩ := ih (k + 1) (by omega) _ t hnext
      refine ⟨_, u, hrun.again houtcome hholds hrun', ?_, ?_⟩
      · have hmul : (left + 1 + 1) * (steps + 1) = (left + 1) * (steps + 1) + (steps + 1) := by ring
        rw [List.length_append, List.length_cons]
        omega
      · rw [List.append_assoc, List.singleton_append] at hlast
        rwa [← List.append_assoc]
  intro trace s hs
  obtain ⟨left, rfl⟩ : ∃ left, runs = left + 1 := ⟨runs - 1, by omega⟩
  exact hfrom left 0 (by omega) trace s hs

end Triple

/-! ## Triples by the number of visits -/

/-- **What a piece of code achieves** if none of its instructions is visited more than `times` times,
where a visit accounts for at most `pace` steps. -/
def Paced (pace times : Nat) (pre : Assertion) (piece : Code) (post : Assertion) : Prop :=
  Triple pre piece (times * (pace * piece.length)) post

namespace Paced

variable {pace times times' : Nat} {pre mid post : Assertion}

/-- A piece whose instructions are visited at most once. -/
theorem of_triple (hpace : 0 < pace) (htimes : 0 < times) (h : Triple pre piece piece.length post) :
    Paced pace times pre piece post :=
  h.weaken (fun _ _ hs => hs) ((Nat.le_mul_of_pos_left _ hpace).trans (Nat.le_mul_of_pos_left _ htimes))
    fun _ _ hs => hs

theorem nil (pace times : Nat) (pre : Assertion) : Paced pace times pre [] pre :=
  (Triple.nil pre).weaken (fun _ _ hs => hs) (Nat.zero_le _) fun _ _ hs => hs

/-- Two pieces, one after the other. -/
theorem append (h : Paced pace times pre piece mid) (h' : Paced pace times mid piece' post) :
    Paced pace times pre (piece ++ piece') post := by
  refine (Triple.append h h').weaken (fun _ _ hs => hs) (le_of_eq ?_) fun _ _ hs => hs
  rw [List.length_append, Nat.mul_add, Nat.mul_add]

/-- A stronger precondition, a weaker postcondition and more visits. -/
theorem weaken {pre' post' : Assertion} (h : Paced pace times pre piece post)
    (hpre : ∀ trace s, pre' trace s → pre trace s) (htimes : times ≤ times')
    (hpost : ∀ trace s, post trace s → post' trace s) : Paced pace times' pre' piece post' :=
  Triple.weaken h hpre (Nat.mul_le_mul_right _ htimes) hpost

theorem mono (h : Paced pace times pre piece post) (htimes : times ≤ times') :
    Paced pace times' pre piece post :=
  h.weaken (fun _ _ hs => hs) htimes fun _ _ hs => hs

/-- **One of two pieces**, chosen by a branch. Behind the first one a jump passes over the second. -/
theorem branch (hpace : 0 < pace) (htimes : 0 < times) {condition : Condition} {outcome : Ordering}
    {first second : Code} {mid' : Assertion}
    (hpre : ∀ trace s, pre trace s → s.outcome = some outcome ∧
      mid (trace ++ [(.jumpIf condition (first.length + 1), s)]) s)
    (hsecond : condition.holds outcome = true → Paced pace times mid second post)
    (hfirst : condition.holds outcome = false → Paced pace times mid first mid')
    (hjump : ∀ trace s, mid' trace s → post (trace ++ [(.jump second.length, s)]) s) :
    Paced pace times pre
      (.jumpIf condition (first.length + 1) :: first ++ .jump second.length :: second) post := by
  cases hholds : condition.holds outcome with
  | true =>
    have htaken := Triple.jumpIf (first ++ [.jump second.length]) hholds fun trace s hs => by
      rw [List.length_append, List.length_singleton]
      exact hpre trace s hs
    have hall := (of_triple hpace htimes (htaken.weaken (fun _ _ hs => hs) ?_ fun _ _ hs => hs)).append
      (hsecond hholds)
    · simpa using hall
    · simp
  | false =>
    have hentered := of_triple hpace htimes (Triple.jumpIf_not hholds (first.length + 1) hpre)
    have hpassed := of_triple hpace htimes
      ((Triple.jump second hjump).weaken (fun _ _ hs => hs) (by simp) fun _ _ hs => hs)
    have hall := (hentered.append (hfirst hholds)).append hpassed
    simpa using hall

/-- **A loop** visits its instructions as often as it runs, times the visits of a run. -/
theorem loop (hpace : 0 < pace) (htimes : 0 < times) (invariant : Nat → Assertion)
    {condition : Condition} {runs : Nat} (hruns : 0 < runs)
    (h : ∀ k < runs, Paced pace times (invariant k) piece fun trace s =>
      (∃ outcome, s.outcome = some outcome ∧
        condition.holds outcome = decide (k + 1 < runs)) ∧
      invariant (k + 1) (trace ++ [(.jumpIf condition (-(piece.length + 1)), s)]) s) :
    Paced pace (runs * times) (invariant 0) (piece ++ [.jumpIf condition (-(piece.length + 1))])
      (invariant runs) := by
  refine (Triple.loop invariant hruns h).weaken (fun _ _ hs => hs) ?_ fun _ _ hs => hs
  have hbranch : 1 ≤ times * pace := Nat.mul_pos htimes hpace
  rw [List.length_append, List.length_singleton]
  calc runs * (times * (pace * piece.length) + 1)
      ≤ runs * (times * (pace * piece.length) + times * pace) := Nat.mul_le_mul_left _ (by omega)
    _ = runs * times * (pace * (piece.length + 1)) := by ring

end Paced

end Machine

end Pointwise
