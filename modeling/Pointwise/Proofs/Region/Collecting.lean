import Pointwise.Proofs.Checked
import Pointwise.Region.Allocation

/-!
# Collecting registers on the way

An allocator can keep two sets of registers and add every register to its set at the moment when it is
assigned: inputs of an entry first, then its outputs, then its body. What it has collected in the end are
the registers that occur in the allocated region. So it does not matter that `Region.allocate` gathers
them afterwards.

## Main definitions

* `Collected`, `Collecting` — the sets, and computations that add to them.
* `Region.allocateCollecting` — an allocation that collects the registers as it assigns them.
* `Collects` — a computation collects what occurs in its result.

## Main results

* `Region.collects_entry`, `Region.collects_all` — what the allocation of an entry and of a region collects.
* `Region.allocateCollecting_eq` — the registers collected are those that occur.
-/

set_option autoImplicit false

namespace Pointwise

/-- Vector registers and general registers, by kind. -/
def byKind (vecs gprs : List Nat) : RegisterKind → List Nat
  | .vec => vecs
  | .gpr => gprs

/-! ## The allocator -/

/-- The registers that have been assigned so far. -/
structure Collected where
  vecs : List Nat
  gprs : List Nat

namespace Collected

/-- One more register of a kind. -/
def insert (kind : RegisterKind) (r : Nat) (collected : Collected) : Collected :=
  match kind with
  | .vec => { collected with vecs := insertAscending r collected.vecs }
  | .gpr => { collected with gprs := insertAscending r collected.gprs }

/-- Registers of both kinds, one after the other. -/
def add (collected : Collected) (registers : RegisterKind → List Nat) : Collected where
  vecs := (registers .vec).foldl (fun list r => insertAscending r list) collected.vecs
  gprs := (registers .gpr).foldl (fun list r => insertAscending r list) collected.gprs

end Collected

/-- A computation that collects registers; if it fails they are lost. -/
abbrev Collecting := StateT Collected (Except Error)

namespace Region

/-- The register of a pool with a given number, which is collected. -/
def collectRegister (owner : String) (kind : RegisterKind) (pool : List Nat) (i : Nat) :
    Collecting Nat :=
  match pool[i]? with
  | some r => do
    modify (Collected.insert kind r)
    return r
  | none => throw (.capacity (.pool owner kind i pool.length))

/-- The registers of a pool with given numbers, one after the other. -/
def collectRegisters (owner : String) (kind : RegisterKind) (pool : List Nat) (numbers : List Nat) :
    Collecting (List Nat) :=
  numbers.mapM (collectRegister owner kind pool)

/-- The inputs of an operation are replaced and collected if they are registers at all. -/
def collectInputs (owner : String) (flow : DataFlow) (vecs gprs : List Nat) (input : List Nat) :
    Collecting (List Nat) :=
  match flow.inputKind with
  | none => pure input
  | some kind => collectRegisters owner kind (byKind vecs gprs kind) input

mutual

/-- An entry with its numbers replaced, inputs first, and then its body without the registers of its
outputs. -/
def collectEntry (vecs gprs : List Nat) : Entry → Collecting Entry
  | .leaf op input output => do
    let input ← collectInputs op.name op.dataFlow vecs gprs input
    let kind := op.dataFlow.outputKind
    let output ← collectRegisters op.name kind (byKind vecs gprs kind) output
    return .leaf op input output
  | .tile t body input output => do
    let output ← collectRegisters "Tile" .gpr gprs output
    require (body.length ≠ 0) (.invalid (.emptyBody "Tile"))
    let body ← collectAll vecs (gprs.filter (· ∉ output)) body
    return .tile t body input output
  | .scheduler mode body input output => do
    let output ← collectRegisters "TileScheduler" .gpr gprs output
    require (body.length ≠ 0) (.invalid (.emptyBody "TileScheduler"))
    let body ← collectAll vecs (gprs.filter (· ∉ output)) body
    return .scheduler mode body input output

/-- The entries of a region with their numbers replaced, one after the other. -/
def collectAll (vecs gprs : List Nat) : List Entry → Collecting (List Entry)
  | [] => return []
  | entry :: entries => do
    return (← collectEntry vecs gprs entry) :: (← collectAll vecs gprs entries)

end

/-- An allocation that names the registers that have been collected. -/
def allocateCollecting (vecs gprs : List Nat) (region : Region) : Except Error Allocation := do
  require (region.length ≠ 0) (.invalid .emptyRegion)
  let (region, collected) ← (collectAll vecs gprs region).run ⟨[], []⟩
  return { region, vecs := collected.vecs, gprs := collected.gprs }

end Region

/-! ## What is collected -/

/-- **A computation collects what occurs in its result**, and otherwise does what another one does. -/
def Collects {α : Type} (x : Collecting α) (y : Except Error α) (occurring : α → RegisterKind → List Nat) :
    Prop :=
  ∀ collected : Collected, x.run collected = y.map fun a => (a, collected.add (occurring a))

namespace Collects

variable {α β : Type} {x : Collecting α} {y : Except Error α}

/-- Computations one after the other collect the registers of both. -/
theorem bind {f : α → Collecting β} {g : α → Except Error β} {first : α → RegisterKind → List Nat}
    {second : α → β → RegisterKind → List Nat} {all : β → RegisterKind → List Nat}
    (hx : Collects x y first) (hf : ∀ a, Collects (f a) (g a) (second a))
    (hall : ∀ a b, g a = .ok b → ∀ kind, all b kind = first a kind ++ second a b kind) :
    Collects (x >>= f) (y >>= g) all := by
  intro collected
  rw [StateT.run_bind, hx]
  cases y with
  | error cause => rfl
  | ok a =>
    rw [Except.map, Checked.ok_bind, Checked.ok_bind, hf]
    cases hg : g a with
    | error cause => rfl
    | ok b => simp only [Except.map, Collected.add, ← List.foldl_append, ← hall a b hg]

/-- A computation whose result is put into another form. -/
theorem bind_pure {f : α → β} {occurring : α → RegisterKind → List Nat}
    {all : β → RegisterKind → List Nat} (hx : Collects x y occurring)
    (hall : ∀ a, all (f a) = occurring a) :
    Collects (x >>= fun a => pure (f a)) (y >>= fun a => pure (f a)) all := by
  intro collected
  rw [StateT.run_bind, hx]
  cases y with
  | error cause => rfl
  | ok a =>
    rw [Except.map, Checked.ok_bind, Checked.ok_bind, ← hall a]
    rfl

/-- A condition in front of a computation. -/
theorem require_bind {condition : Prop} [Decidable condition] {cause : Error}
    {occurring : α → RegisterKind → List Nat} (hx : Collects x y occurring) :
    Collects (do require condition cause; x) (do require condition cause; y) occurring := by
  intro collected
  unfold require
  split
  · exact hx collected
  · rfl

end Collects

namespace Region

/-- The registers of a list, by kind, if they all are of one kind. -/
def ofKind (kind : RegisterKind) (registers : List Nat) : RegisterKind → List Nat :=
  fun kind' => if kind = kind' then registers else []

/-- One register is collected as it is assigned. -/
theorem collects_register (owner : String) (kind : RegisterKind) (pool : List Nat) (i : Nat) :
    Collects (collectRegister owner kind pool i)
      (match pool[i]? with
      | some r => .ok r
      | none => .error (.capacity (.pool owner kind i pool.length)))
      fun r => ofKind kind [r] := by
  intro collected
  unfold collectRegister
  cases pool[i]? with
  | none => rfl
  | some r => cases kind <;> rfl

/-- Registers are collected as they are assigned. -/
theorem collects_registers (owner : String) (kind : RegisterKind) (pool numbers : List Nat) :
    Collects (collectRegisters owner kind pool numbers) (replaceRegisters owner kind pool numbers)
      (ofKind kind) := by
  unfold collectRegisters replaceRegisters
  induction numbers with
  | nil =>
    intro collected
    cases kind <;> rfl
  | cons i numbers ih =>
    rw [List.mapM_cons, List.mapM_cons]
    have hrest : ∀ r, Collects (do return r :: (← numbers.mapM _)) (do return r :: (← numbers.mapM _))
        fun registers => ofKind kind registers.tail := fun r => ih.bind_pure fun registers => rfl
    refine (collects_register owner kind pool i).bind hrest fun r registers h kind' => ?_
    obtain ⟨rest, -, h⟩ := Checked.bind_eq_ok.1 h
    obtain rfl := Checked.pure_eq_ok.1 h
    unfold ofKind
    split <;> rfl

/-- The inputs of an operation. -/
theorem collects_inputs (owner : String) (flow : DataFlow) (vecs gprs input : List Nat) :
    Collects (collectInputs owner flow vecs gprs input) (replaceInputs owner flow vecs gprs input)
      fun input' kind => if flow.inputKind = some kind then input' else [] := by
  unfold collectInputs replaceInputs
  cases flow.inputKind with
  | none => exact fun collected => rfl
  | some kind =>
    cases kind with
    | gpr =>
      simp only [Option.some.injEq]
      exact collects_registers owner .gpr gprs input
    | vec =>
      simp only [Option.some.injEq]
      exact collects_registers owner .vec vecs input

/-- The outputs of an operation. -/
theorem collects_outputs (owner : String) (flow : DataFlow) (vecs gprs output : List Nat) :
    Collects (collectRegisters owner flow.outputKind (byKind vecs gprs flow.outputKind) output)
      (replaceOutputs owner flow vecs gprs output) (ofKind flow.outputKind) := by
  unfold replaceOutputs
  cases flow.outputKind with
  | gpr => exact collects_registers owner .gpr gprs output
  | vec => exact collects_registers owner .vec vecs output

/-- The allocation of a container collects its outputs and what occurs in its body. -/
theorem collects_container {owner : String} {cause : Error} {gprs output : List Nat} {body : Region}
    {allocateBody : List Nat → Except Error (List Entry)} {collectBody : List Nat → Collecting (List Entry)}
    {container : List Nat → Region → Entry}
    (hbody : ∀ output', Collects (collectBody output') (allocateBody output')
      fun body' kind => Region.occurring kind body')
    (hcontainer : ∀ output' body', (container output' body').body? = some body' ∧
      ∀ kind, (container output' body').occurring kind =
        ofKind .gpr output' kind ++ Region.occurring kind body') :
    Collects
      (do
        let output ← collectRegisters owner .gpr gprs output
        require (body.length ≠ 0) cause
        return container output (← collectBody output))
      (do
        let output ← replaceRegisters owner .gpr gprs output
        require (body.length ≠ 0) cause
        return container output (← allocateBody output))
      fun e' kind => e'.occurring kind := by
  have hrest : ∀ output', Collects
      (do
        require (body.length ≠ 0) cause
        return container output' (← collectBody output'))
      (do
        require (body.length ≠ 0) cause
        return container output' (← allocateBody output'))
      fun e' kind => Region.occurring kind (e'.body?.getD []) := fun output' =>
    ((hbody output').bind_pure fun body' => by rw [(hcontainer output' body').1]; rfl).require_bind
  -- the outputs are in front of what occurs in the body
  refine (collects_registers owner .gpr gprs output).bind hrest fun output' e' h kind => ?_
  obtain ⟨-, h⟩ := Checked.require_bind_eq_ok.1 h
  obtain ⟨body', -, h⟩ := Checked.bind_eq_ok.1 h
  obtain rfl := Checked.pure_eq_ok.1 h
  obtain ⟨hbody', hoccurring⟩ := hcontainer output' body'
  rw [hoccurring, hbody', Option.getD_some]

mutual

/-- The allocation of an entry collects what occurs in it. -/
theorem collects_entry (vecs gprs : List Nat) : ∀ e : Entry,
    Collects (collectEntry vecs gprs e) (e.allocate vecs gprs) fun e' kind => e'.occurring kind
  | .leaf op input output => by
    rw [collectEntry, Entry.allocate]
    have hrest : ∀ input', Collects
        (do return .leaf op input' (← collectRegisters op.name op.dataFlow.outputKind
          (byKind vecs gprs op.dataFlow.outputKind) output))
        (do return .leaf op input' (← replaceOutputs op.name op.dataFlow vecs gprs output))
        fun e' : Entry => ofKind op.dataFlow.outputKind e'.output := fun input' =>
      (collects_outputs op.name op.dataFlow vecs gprs output).bind_pure fun output' => rfl
    refine (collects_inputs op.name op.dataFlow vecs gprs input).bind hrest fun input' e' h kind => ?_
    obtain ⟨output', -, h⟩ := Checked.bind_eq_ok.1 h
    obtain rfl := Checked.pure_eq_ok.1 h
    rfl
  | .tile t body input output => by
    rw [collectEntry, Entry.allocate]
    exact collects_container (fun output' => collects_all vecs (gprs.filter (· ∉ output')) body)
      fun output' body' => ⟨rfl, fun kind => rfl⟩
  | .scheduler mode body input output => by
    rw [collectEntry, Entry.allocate]
    exact collects_container (fun output' => collects_all vecs (gprs.filter (· ∉ output')) body)
      fun output' body' => ⟨rfl, fun kind => rfl⟩

/-- The allocation of a region collects what occurs in it. -/
theorem collects_all (vecs gprs : List Nat) : ∀ entries : List Entry,
    Collects (collectAll vecs gprs entries) (allocateAll vecs gprs entries)
      fun entries' kind => Region.occurring kind entries'
  | [] => by
    rw [collectAll, allocateAll]
    exact fun collected => rfl
  | e :: entries => by
    rw [collectAll, allocateAll]
    have hrest : ∀ e', Collects (do return e' :: (← collectAll vecs gprs entries))
        (do return e' :: (← allocateAll vecs gprs entries))
        fun entries' kind => Region.occurring kind entries'.tail := fun e' =>
      (collects_all vecs gprs entries).bind_pure fun rest => rfl
    refine (collects_entry vecs gprs e).bind hrest fun e' entries' h kind => ?_
    obtain ⟨rest, -, h⟩ := Checked.bind_eq_ok.1 h
    obtain rfl := Checked.pure_eq_ok.1 h
    rfl

end

/-- **The registers collected are those that occur.** -/
theorem allocateCollecting_eq (vecs gprs : List Nat) (region : Region) :
    allocateCollecting vecs gprs region = allocate vecs gprs region := by
  rw [allocateCollecting, allocate, collects_all]
  cases allocateAll vecs gprs region <;> rfl

end Region

end Pointwise
