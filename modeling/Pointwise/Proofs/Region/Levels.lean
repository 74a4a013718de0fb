import Pointwise.Proofs.Region.Code
import Pointwise.Proofs.Region.Collecting

/-!
# Allocation level by level

A region is a tree: the bodies of its containers are regions again. A place in the tree is the list of
the positions of the containers that lead to it. At each place there is a pool of general registers, from
which the outputs of all containers around the place are taken out. An allocation succeeds exactly if
every number is below the size of the pool at its place; and then every number has become the register
that stands there in this pool.

## Main definitions

* `Region.levelAt`, `Region.enclosing` — the region at a place, and the containers around it.
* `Region.poolAt` — the registers that are assigned at a place.
* `Region.Allocatable` — no body is empty and no number too large.
* `Allocation.Exact` — what is true of a region and its allocation.

## Main results

* `Region.body_induction` — induction from the bodies of the containers to a region.
* `Entry.allocate_eq_ok` — what the allocation of an entry is.
* `Region.levels_of_allocateAll` — the levels of an allocated region.
* `Region.allocate_exact` — when an allocation succeeds, and with what.
-/

set_option autoImplicit false

namespace Pointwise

/-! ## Places -/

/-- The registers of one kind among the operands of an entry, those of its body left out. -/
def Entry.operands (kind : RegisterKind) (e : Entry) : List Nat :=
  e.dataFlow.operandsOf kind e.input e.output

/-- An entry that does the same with another body and other registers. -/
def Entry.fill (body : Region) (input output : List Nat) : Entry → Entry
  | .leaf op _ _ => .leaf op input output
  | .tile t _ _ _ => .tile t body input output
  | .scheduler mode _ _ _ => .scheduler mode body input output

/-- What an entry does, without body and registers. -/
def Entry.shell (e : Entry) : Entry := e.fill [] [] []

namespace Region

/-- The region at a place: each position is that of a container, in whose body the rest of the place
is. -/
def levelAt : Region → List Nat → Option Region
  | region, [] => some region
  | region, i :: place => region[i]?.bind fun e => e.body?.bind fun body => levelAt body place

/-- The containers around a place, the outermost first. -/
def enclosing : Region → List Nat → List Entry
  | _, [] => []
  | region, i :: place =>
    match region[i]? with
    | none => []
    | some e => e :: enclosing (e.body?.getD []) place

/-- The general registers at a place: every container around it has taken those out that its outputs
become. -/
def gprsAt : List Nat → Region → List Nat → List Nat
  | gprs, _, [] => gprs
  | gprs, region, i :: place =>
    match region[i]? with
    | none => gprs
    | some e => gprsAt (gprs.filter (· ∉ e.output.filterMap (gprs[·]?))) (e.body?.getD []) place

/-- The registers that are assigned at a place, by kind. -/
def poolAt (vecs gprs : List Nat) (region : Region) (place : List Nat) : RegisterKind → List Nat :=
  byKind vecs (region.gprsAt gprs place)

/-- The registers of one kind among the operands of all entries of a level. -/
def operands (kind : RegisterKind) (level : Region) : List Nat :=
  level.flatMap (Entry.operands kind)

/-- **A region for which there are registers.** At no place there is an empty region, and every number
of an operand is below the size of the pool. -/
def Allocatable (vecs gprs : List Nat) (region : Region) : Prop :=
  ∀ place level, region.levelAt place = some level → level ≠ [] ∧
    ∀ e ∈ level, ∀ kind, ∀ number ∈ e.operands kind, number < (region.poolAt vecs gprs place kind).length

end Region

/-- The registers that an allocation uses, by kind. -/
def Allocation.used (allocation : Allocation) : RegisterKind → List Nat :=
  byKind allocation.vecs allocation.gprs

/-- **An entry with its numbers replaced by registers.** Each number has become the register at its place
in the pool of its kind; inputs that are plain numbers are left as they are. -/
structure Entry.Replaced (pool : RegisterKind → List Nat) (e e' : Entry) : Prop where
  shell : e'.shell = e.shell
  plain : e.dataFlow.inputKind = none → e'.input = e.input
  input : ∀ kind, e.dataFlow.inputKind = some kind →
    e.input.map ((pool kind)[·]?) = e'.input.map some
  output : e.output.map ((pool e.dataFlow.outputKind)[·]?) = e'.output.map some

/-- **What is true of a region and its allocation.** -/
structure Allocation.Exact (vecs gprs : List Nat) (region : Region) (allocation : Allocation) : Prop where
  /-- Both trees have the same places, and at each place the entries are replaced one by one. -/
  levels : ∀ place, Option.Rel (List.Forall₂ (Entry.Replaced (region.poolAt vecs gprs place)))
    (region.levelAt place) (allocation.region.levelAt place)
  /-- The general registers at a place are those that are not among the outputs around it. -/
  pool : ∀ place level, region.levelAt place = some level → region.gprsAt gprs place =
    gprs.filter (· ∉ (allocation.region.enclosing place).flatMap Entry.output)
  /-- Operands of one level are the same register if and only if they were the same number. -/
  distinct : ∀ place (level level' : Region), region.levelAt place = some level →
    allocation.region.levelAt place = some level' → ∀ (kind : RegisterKind) (a b : Nat),
      (level'.operands kind)[a]? = (level'.operands kind)[b]? ↔
        (level.operands kind)[a]? = (level.operands kind)[b]?
  /-- What is inside a container does not use its outputs. -/
  apart : ∀ place level container, allocation.region.levelAt place = some level →
    container ∈ allocation.region.enclosing place → ∀ e ∈ level, ∀ r ∈ e.operands .gpr,
      r ∉ container.output
  /-- The registers that the allocation names are those of all operands at all places. -/
  used : ∀ kind r, r ∈ allocation.used kind ↔
    ∃ place level, allocation.region.levelAt place = some level ∧ ∃ e ∈ level, r ∈ e.operands kind
  /-- They are named once each, ascending. -/
  ascending : ∀ kind, (allocation.used kind).Pairwise (· < ·)

/-! ## Induction over bodies -/

/-- The body of a container is smaller than a region with the container. -/
theorem Entry.sizeOf_body_lt {region body : Region} {e : Entry} (he : e ∈ region)
    (hbody : e.body? = some body) : sizeOf body < sizeOf region := by
  have hlt := List.sizeOf_lt_of_mem he
  cases e with
  | leaf op input output => cases hbody
  | tile t body' input output =>
    obtain rfl := Option.some.inj hbody
    simp only [Entry.tile.sizeOf_spec] at hlt
    omega
  | scheduler mode body' input output =>
    obtain rfl := Option.some.inj hbody
    simp only [Entry.scheduler.sizeOf_spec] at hlt
    omega

/-- **Induction over bodies.** What a region inherits from the bodies of its containers is true of all
regions. -/
theorem Region.body_induction {P : Region → Prop}
    (step : ∀ region : Region, (∀ e ∈ region, ∀ body, e.body? = some body → P body) → P region)
    (region : Region) : P region :=
  step region fun _ he body hbody =>
    have := Entry.sizeOf_body_lt he hbody
    Region.body_induction step body
termination_by sizeOf region

/-- Where a place leads into a container. -/
theorem Region.levelAt_cons {region level : Region} {i : Nat} {place : List Nat} :
    region.levelAt (i :: place) = some level ↔
      ∃ e body, region[i]? = some e ∧ e.body? = some body ∧ Region.levelAt body place = some level := by
  simp only [Region.levelAt, Option.bind_eq_some_iff, exists_and_left]

/-! ## Related look-ups -/

section Related

variable {α β : Type} {R : α → β → Prop} {x : Option α} {y : Option β}

/-- Related lists have related entries at each position. -/
theorem rel_getElem? {list : List α} {list' : List β} (h : List.Forall₂ R list list') (i : Nat) :
    Option.Rel R list[i]? list'[i]? := by
  induction h generalizing i with
  | nil => exact .none
  | cons hR _ ih =>
    cases i with
    | zero => exact .some hR
    | succ i => exact ih i

/-- Look-ups that are related more loosely. -/
theorem rel_mono {S : α → β → Prop} (h : Option.Rel R x y) (hmono : ∀ a b, R a b → S a b) :
    Option.Rel S x y := by
  cases h with
  | none => exact .none
  | some hR => exact .some (hmono _ _ hR)

/-- What is related to a result. -/
theorem exists_of_rel_some {a : α} (h : Option.Rel R (some a) y) : ∃ b, y = some b ∧ R a b := by
  cases h with
  | some hR => exact ⟨_, rfl, hR⟩

/-- What a result is related to. -/
theorem exists_of_some_rel {b : β} (h : Option.Rel R x (some b)) : ∃ a, x = some a ∧ R a b := by
  cases h with
  | some hR => exact ⟨_, rfl, hR⟩

/-- Related look-ups that are continued in related ways. -/
theorem rel_bind {γ δ : Type} {S : γ → δ → Prop} {f : α → Option γ} {g : β → Option δ}
    (h : Option.Rel R x y)
    (hnext : ∀ a b, x = some a → y = some b → R a b → Option.Rel S (f a) (g b)) :
    Option.Rel S (x.bind f) (y.bind g) := by
  cases h with
  | none => exact .none
  | some hR => exact hnext _ _ rfl rfl hR

end Related

/-! ## Numbers and registers -/

section Numbers

variable {list numbers registers : List Nat}

/-- Numbers that all are below the size of a pool can be replaced. -/
theorem exists_map_getElem? (h : ∀ number ∈ numbers, number < list.length) :
    ∃ registers : List Nat, numbers.map (list[·]?) = registers.map some := by
  induction numbers with
  | nil => exact ⟨[], rfl⟩
  | cons number numbers ih =>
    obtain ⟨registers, hregisters⟩ := ih fun n hn => h n (List.mem_cons_of_mem _ hn)
    obtain ⟨r, hr⟩ : ∃ r, list[number]? = some r :=
      ⟨_, List.getElem?_eq_getElem (h number List.mem_cons_self)⟩
    exact ⟨r :: registers, by rw [List.map_cons, List.map_cons, hregisters, hr]⟩

/-- Numbers that have been replaced are below the size of the pool. -/
theorem lt_of_map_getElem? (h : numbers.map (list[·]?) = registers.map some) {number : Nat}
    (hnumber : number ∈ numbers) : number < list.length := by
  have hmem : list[number]? ∈ registers.map some := h ▸ List.mem_map_of_mem hnumber
  obtain ⟨r, -, hr⟩ := List.mem_map.1 hmem
  exact (List.getElem?_eq_some_iff.1 hr.symm).1

/-- The registers that replace numbers come from the pool. -/
theorem mem_of_map_getElem? (h : numbers.map (list[·]?) = registers.map some) {r : Nat}
    (hr : r ∈ registers) : r ∈ list := by
  have hmem : some r ∈ numbers.map (list[·]?) := h ▸ List.mem_map_of_mem hr
  obtain ⟨number, -, hnumber⟩ := List.mem_map.1 hmem
  exact List.mem_of_getElem? hnumber

/-- The registers that replace numbers are found one by one. -/
theorem filterMap_of_map_getElem? (h : numbers.map (list[·]?) = registers.map some) :
    numbers.filterMap (list[·]?) = registers := by
  have hsome := congrArg (List.filterMap id) h
  simpa [List.filterMap_map] using hsome

/-- What stands at a position behind the replacement. -/
theorem getElem?_of_map_getElem? (h : numbers.map (list[·]?) = registers.map some) (a : Nat) :
    registers[a]? = numbers[a]?.bind (list[·]?) := by
  have ha := congrArg (·[a]?) h
  simp only [List.getElem?_map] at ha
  cases hr : registers[a]? <;> cases hn : numbers[a]? <;> simp_all

/-- **Different numbers become different registers**, if the pool is one without duplicates. -/
theorem getElem?_eq_iff_of_map_getElem? (hlist : list.Nodup)
    (h : numbers.map (list[·]?) = registers.map some) (a b : Nat) :
    registers[a]? = registers[b]? ↔ numbers[a]? = numbers[b]? := by
  have hlt : ∀ {c m : Nat}, numbers[c]? = some m → m < list.length :=
    fun hm => lt_of_map_getElem? h (List.mem_of_getElem? hm)
  rw [getElem?_of_map_getElem? h, getElem?_of_map_getElem? h]
  -- only a position behind the last number has no register
  cases ha : numbers[a]? with
  | none =>
    cases hb : numbers[b]? with
    | none => simp
    | some n => simp [hlt hb]
  | some m =>
    cases hb : numbers[b]? with
    | none => simp [hlt ha]
    | some n => simp [List.getElem?_inj (hlt ha) hlist]

end Numbers

/-! ## One entry -/

namespace Entry

variable {vecs gprs : List Nat} {e e' : Entry}

/-- A container has general registers as outputs and plain numbers as inputs. -/
theorem dataFlow_container {body : Region} (hbody : e.body? = some body) : e.dataFlow = .gprToGpr := by
  cases e <;> first | rfl | cases hbody

/-- The registers of the outputs of a container, which its body does without. -/
theorem Replaced.filterMap_output {pool : RegisterKind → List Nat} (h : e.Replaced pool e')
    {body : Region} (hbody : e.body? = some body) :
    e.output.filterMap ((pool .gpr)[·]?) = e'.output := by
  have houtput := h.output
  rw [dataFlow_container hbody] at houtput
  exact filterMap_of_map_getElem? houtput

/-- The inputs of an operation are replaced according to their kind, if they have one. -/
theorem replaceInputs_eq_ok {owner : String} {flow : DataFlow} {input input' : List Nat} :
    Region.replaceInputs owner flow vecs gprs input = .ok input' ↔
      (flow.inputKind = none → input' = input) ∧ ∀ kind, flow.inputKind = some kind →
        input.map ((byKind vecs gprs kind)[·]?) = input'.map some := by
  unfold Region.replaceInputs
  split
  · rename_i hkind
    simp [hkind, eq_comm]
  · rename_i hkind
    simp [hkind, Region.replaceRegisters_eq_ok, byKind]
  · rename_i hkind
    simp [hkind, Region.replaceRegisters_eq_ok, byKind]

/-- The outputs of an operation are replaced according to their kind. -/
theorem replaceOutputs_eq_ok {owner : String} {flow : DataFlow} {output output' : List Nat} :
    Region.replaceOutputs owner flow vecs gprs output = .ok output' ↔
      output.map ((byKind vecs gprs flow.outputKind)[·]?) = output'.map some := by
  unfold Region.replaceOutputs
  split
  · rename_i hkind
    rw [Region.replaceRegisters_eq_ok, hkind, byKind]
  · rename_i hkind
    rw [Region.replaceRegisters_eq_ok, hkind, byKind]

variable {pool : RegisterKind → List Nat} {body : Region} {input output : List Nat}

/-- The outputs of an entry that has been filled. -/
@[simp] theorem output_fill (e : Entry) : (e.fill body input output).output = output := by
  cases e <;> rfl

/-- The body of a container that has been filled. -/
theorem body?_fill (hbody : e.body? = some body) (body' : Region) :
    (e.fill body' input output).body? = some body' := by
  cases e <;> first | rfl | cases hbody

/-- An entry is its shell, filled. -/
theorem eq_fill_of_shell (h : e'.shell = e.shell) :
    e' = e.fill (e'.body?.getD []) e'.input e'.output := by
  cases e <;> cases e' <;> cases h <;> rfl

/-- What an entry does tells the kinds of its registers. -/
theorem dataFlow_of_shell (h : e'.shell = e.shell) : e'.dataFlow = e.dataFlow := by
  cases e <;> cases e' <;> cases h <;> rfl

/-- An entry without a body is a leaf operation. -/
theorem eq_leaf (h : e.body? = none) : ∃ op input output, e = .leaf op input output := by
  cases e with
  | leaf op input output => exact ⟨op, input, output, rfl⟩
  | tile => cases h
  | scheduler => cases h

/-- What becomes of a leaf operation. -/
theorem replaced_leaf {op : LeafOp} : (Entry.leaf op input output).Replaced pool e' ↔
    ∃ input' output', e' = .leaf op input' output' ∧
      ((op.dataFlow.inputKind = none → input' = input) ∧ ∀ kind, op.dataFlow.inputKind = some kind →
        input.map ((pool kind)[·]?) = input'.map some) ∧
      output.map ((pool op.dataFlow.outputKind)[·]?) = output'.map some := by
  constructor
  · rintro ⟨hshell, hplain, hinput, houtput⟩
    exact ⟨e'.input, e'.output, eq_fill_of_shell hshell, ⟨hplain, hinput⟩, houtput⟩
  · rintro ⟨input', output', rfl, ⟨hplain, hinput⟩, houtput⟩
    exact ⟨rfl, hplain, hinput, houtput⟩

/-- What becomes of a container. -/
theorem replaced_container (hbody : e.body? = some body) : e.Replaced pool e' ↔
    ∃ body' output', e' = e.fill body' e.input output' ∧
      e.output.map ((pool .gpr)[·]?) = output'.map some := by
  have hflow := dataFlow_container hbody
  constructor
  · rintro ⟨hshell, hplain, -, houtput⟩
    rw [hflow] at hplain houtput
    exact ⟨e'.body?.getD [], e'.output, hplain rfl ▸ eq_fill_of_shell hshell, houtput⟩
  · rintro ⟨body', output', rfl, houtput⟩
    refine ⟨by cases e <;> rfl, fun _ => by cases e <;> rfl, fun kind hkind => ?_, ?_⟩
    · rw [hflow] at hkind
      cases hkind
    · rwa [hflow, output_fill]

/-- The allocation of a container, whether it is a tile or a scheduler. -/
theorem allocate_container (hbody : e.body? = some body) : e.allocate vecs gprs = (do
    let output ← Region.replaceRegisters e.name .gpr gprs e.output
    require (body.length ≠ 0) (.invalid (.emptyBody e.name))
    return e.fill (← Region.allocateAll vecs (gprs.filter (· ∉ output)) body) e.input output) := by
  cases e with
  | leaf => cases hbody
  | tile =>
    obtain rfl := Option.some.inj hbody
    rw [allocate]
    rfl
  | scheduler =>
    obtain rfl := Option.some.inj hbody
    rw [allocate]
    rfl

/-- **The allocation of an entry.** Its operands are replaced; and if it is a container, its body is not
empty and is allocated without the registers of its outputs. -/
theorem allocate_eq_ok : e.allocate vecs gprs = .ok e' ↔
    e.Replaced (byKind vecs gprs) e' ∧ Option.Rel (fun body body' : Region => body ≠ [] ∧
      Region.allocateAll vecs (gprs.filter (· ∉ e'.output)) body = .ok body') e.body? e'.body? := by
  cases hbody : e.body? with
  | none =>
    obtain ⟨op, input, output, rfl⟩ := eq_leaf hbody
    simp only [allocate, Checked.bind_eq_ok, Checked.pure_eq_ok, replaceInputs_eq_ok,
      replaceOutputs_eq_ok, replaced_leaf]
    constructor
    · rintro ⟨input', hinput, output', houtput, rfl⟩
      exact ⟨⟨input', output', rfl, hinput, houtput⟩, .none⟩
    · rintro ⟨⟨input', output', rfl, hinput, houtput⟩, -⟩
      exact ⟨input', hinput, output', houtput, rfl⟩
  | some body =>
    rw [allocate_container hbody, replaced_container hbody, Checked.bind_eq_ok]
    -- conditions before other steps, because a condition is a step too
    simp only [Checked.require_bind_eq_ok]
    simp only [Checked.bind_eq_ok, Checked.pure_eq_ok, Region.replaceRegisters_eq_ok, ne_eq,
      List.length_eq_zero_iff]
    constructor
    · rintro ⟨output', houtput, hne, body', hallocate, rfl⟩
      refine ⟨⟨body', output', rfl, houtput⟩, ?_⟩
      rw [body?_fill hbody, output_fill]
      exact .some ⟨hne, hallocate⟩
    · rintro ⟨⟨body', output', rfl, houtput⟩, hrel⟩
      rw [body?_fill hbody, output_fill] at hrel
      cases hrel with
      | some hrel => exact ⟨output', houtput, hrel.1, body', hrel.2, rfl⟩

/-- Operands of one kind are replaced from the pool of their kind. -/
theorem Replaced.operands (h : e.Replaced pool e') (kind : RegisterKind) :
    (e.operands kind).map ((pool kind)[·]?) = (e'.operands kind).map some := by
  unfold Entry.operands DataFlow.operandsOf
  rw [dataFlow_of_shell h.shell, List.map_append, List.map_append]
  congr 1
  · split
    · rename_i hkind
      exact h.input kind hkind
    · rfl
  · split
    · rename_i hkind
      exact hkind ▸ h.output
    · rfl

/-- An entry can be allocated if its numbers are below the sizes of the pools and its body can be
allocated. -/
theorem exists_allocate
    (hoperands : ∀ kind, ∀ number ∈ e.operands kind, number < (byKind vecs gprs kind).length)
    (hbody : ∀ body, e.body? = some body → body ≠ [] ∧ ∃ body', Region.allocateAll vecs
      (gprs.filter (· ∉ e.output.filterMap (gprs[·]?))) body = .ok body') :
    ∃ e', e.allocate vecs gprs = .ok e' := by
  obtain ⟨output', houtput⟩ : ∃ output' : List Nat,
      e.output.map ((byKind vecs gprs e.dataFlow.outputKind)[·]?) = output'.map some :=
    exists_map_getElem? fun number hnumber => hoperands _ number (by
      simp [Entry.operands, DataFlow.operandsOf, hnumber])
  cases hcontainer : e.body? with
  | none =>
    obtain ⟨op, input, output, rfl⟩ := eq_leaf hcontainer
    obtain ⟨input', hinput⟩ : ∃ input' : List Nat,
        (op.dataFlow.inputKind = none → input' = input) ∧ ∀ kind, op.dataFlow.inputKind = some kind →
          input.map ((byKind vecs gprs kind)[·]?) = input'.map some := by
      cases hkind : op.dataFlow.inputKind with
      | none => exact ⟨input, fun _ => rfl, fun _ h => absurd h (Option.some_ne_none _).symm⟩
      | some kind =>
        obtain ⟨input', hinput⟩ : ∃ input' : List Nat,
            input.map ((byKind vecs gprs kind)[·]?) = input'.map some :=
          exists_map_getElem? fun number hnumber => hoperands kind number (by
            simp [Entry.operands, DataFlow.operandsOf, dataFlow, hkind, Entry.input, hnumber])
        exact ⟨input', fun h => absurd h (Option.some_ne_none _),
          fun _ h => Option.some.inj h ▸ hinput⟩
    exact ⟨.leaf op input' output', allocate_eq_ok.2
      ⟨replaced_leaf.2 ⟨input', output', rfl, hinput, houtput⟩, .none⟩⟩
  | some body =>
    obtain ⟨hne, body', hallocate⟩ := hbody body hcontainer
    rw [dataFlow_container hcontainer] at houtput
    rw [show e.output.filterMap (gprs[·]?) = output' from filterMap_of_map_getElem? houtput] at hallocate
    refine ⟨e.fill body' e.input output', allocate_eq_ok.2
      ⟨(replaced_container hcontainer).2 ⟨body', output', rfl, houtput⟩, ?_⟩⟩
    rw [body?_fill hcontainer, output_fill, hcontainer]
    exact .some ⟨hne, hallocate⟩

end Entry

/-! ## All places -/

namespace Region

variable {vecs gprs : List Nat} {region region' : Region}

/-- The pools in the body of a container. -/
theorem poolAt_cons {e : Entry} {body : Region} {i : Nat} {place : List Nat} (hi : region[i]? = some e)
    (hbody : e.body? = some body) : region.poolAt vecs gprs (i :: place) =
      Region.poolAt vecs (gprs.filter (· ∉ e.output.filterMap (gprs[·]?))) body place := by
  simp [poolAt, gprsAt, hi, hbody]

/-- **The levels of an allocated region**: at each place the entries are replaced from the pools of the
place, and no level is empty.

**Proof sketch.** By induction on the place. A container on the way to it has an allocated body, and the
pool for this body is what the outputs of the container have left. -/
theorem levels_of_allocateAll (hne : region ≠ []) (h : allocateAll vecs gprs region = .ok region')
    (place : List Nat) : Option.Rel (fun level level' : Region => level ≠ [] ∧
      List.Forall₂ (Entry.Replaced (region.poolAt vecs gprs place)) level level')
        (region.levelAt place) (Region.levelAt region' place) := by
  induction place generalizing gprs region region' with
  | nil =>
    have hentries := allocateAll_eq_ok.1 h
    exact .some ⟨hne, hentries.imp fun _ _ he => (Entry.allocate_eq_ok.1 he).1⟩
  | cons i place ih =>
    -- the container at the first position, and then its body
    refine rel_bind (rel_getElem? (allocateAll_eq_ok.1 h) i) fun e e' hi _ he => ?_
    obtain ⟨hreplaced, hbodies⟩ := Entry.allocate_eq_ok.1 he
    refine rel_bind hbodies fun body body' hbody _ ⟨hne', hallocate⟩ => ?_
    have houtput : e.output.filterMap (gprs[·]?) = e'.output := hreplaced.filterMap_output hbody
    rw [poolAt_cons hi hbody, houtput]
    exact ih hne' hallocate

/-- The bodies of a region for which there are registers. -/
theorem Allocatable.body (h : region.Allocatable vecs gprs) {e : Entry} (he : e ∈ region) {body : Region}
    (hbody : e.body? = some body) :
    body.Allocatable vecs (gprs.filter (· ∉ e.output.filterMap (gprs[·]?))) := by
  intro place level hlevel
  obtain ⟨i, hi⟩ := List.getElem?_of_mem he
  have hinside := h (i :: place) level (levelAt_cons.2 ⟨e, body, hi, hbody, hlevel⟩)
  rwa [poolAt_cons hi hbody] at hinside

/-- **A region for which there are registers can be allocated.** -/
theorem exists_allocateAll (h : region.Allocatable vecs gprs) :
    ∃ region', allocateAll vecs gprs region = .ok region' := by
  induction region using body_induction generalizing gprs with
  | step region ih =>
    have hentry : ∀ e ∈ region, ∃ e', e.allocate vecs gprs = .ok e' := by
      intro e he
      refine Entry.exists_allocate ((h [] region rfl).2 e he) fun body hbody => ?_
      have hinside := h.body he hbody
      exact ⟨(hinside [] body rfl).1, ih e he body hbody hinside⟩
    obtain ⟨region', hregion⟩ := exists_forall₂ hentry
    exact ⟨region', allocateAll_eq_ok.2 hregion⟩

/-- A level of the allocated region is one of the region. -/
theorem exists_levelAt_of_allocated (hne : region ≠ []) (h : allocateAll vecs gprs region = .ok region')
    {place : List Nat} {level' : Region} (hlevel' : Region.levelAt region' place = some level') :
    ∃ level, region.levelAt place = some level ∧
      List.Forall₂ (Entry.Replaced (region.poolAt vecs gprs place)) level level' := by
  have hrel := levels_of_allocateAll hne h place
  rw [hlevel'] at hrel
  obtain ⟨level, hlevel, -, hreplaced⟩ := exists_of_some_rel hrel
  exact ⟨level, hlevel, hreplaced⟩

/-- Only such a region can be allocated. -/
theorem allocatable_of_allocateAll (hne : region ≠ []) (h : allocateAll vecs gprs region = .ok region') :
    region.Allocatable vecs gprs := by
  intro place level hlevel
  have hrel := levels_of_allocateAll hne h place
  rw [hlevel] at hrel
  obtain ⟨level', -, hne', hreplaced⟩ := exists_of_rel_some hrel
  refine ⟨hne', fun e he kind number hnumber => ?_⟩
  obtain ⟨e', -, he'⟩ := forall₂_mem_right hreplaced.flip he
  exact lt_of_map_getElem? (he'.operands kind) hnumber

/-- The operands of all entries of a level are replaced. -/
theorem map_operands {pool : RegisterKind → List Nat} {level level' : Region}
    (h : List.Forall₂ (Entry.Replaced pool) level level') (kind : RegisterKind) :
    (level.operands kind).map ((pool kind)[·]?) = (level'.operands kind).map some := by
  unfold operands
  induction h with
  | nil => rfl
  | cons he _ ih => rw [List.flatMap_cons, List.flatMap_cons, List.map_append, List.map_append, ih,
      he.operands kind]

/-- The pool at a place holds the registers that are not outputs of the containers around it. -/
theorem gprsAt_of_allocateAll (h : allocateAll vecs gprs region = .ok region') {place : List Nat}
    {level : Region} (hlevel : region.levelAt place = some level) :
    region.gprsAt gprs place =
      gprs.filter (· ∉ (Region.enclosing region' place).flatMap Entry.output) := by
  induction place generalizing gprs region region' with
  | nil => simp [gprsAt, enclosing]
  | cons i place ih =>
    obtain ⟨e, body, hi, hbody, hlevel⟩ := levelAt_cons.1 hlevel
    have hrel := rel_getElem? (allocateAll_eq_ok.1 h) i
    rw [hi] at hrel
    obtain ⟨e', hi', he⟩ := exists_of_rel_some hrel
    obtain ⟨hreplaced, hbodies⟩ := Entry.allocate_eq_ok.1 he
    rw [hbody] at hbodies
    obtain ⟨body', hbody', -, hallocate⟩ := exists_of_rel_some hbodies
    -- its outputs are taken out first, and those of the containers inside from what is left
    have houtput : e.output.filterMap (gprs[·]?) = e'.output := hreplaced.filterMap_output hbody
    simp only [gprsAt, enclosing, hi, hi', hbody, hbody', Option.getD_some, List.flatMap_cons,
      List.mem_append, not_or]
    rw [houtput, ih hallocate hlevel, List.filter_filter]
    refine List.filter_congr fun r _ => ?_
    rw [Bool.decide_and, Bool.and_comm]

/-- The registers of a pool without duplicates stay different at each place. -/
theorem nodup_poolAt (hvecs : vecs.Nodup) (hgprs : gprs.Nodup) (place : List Nat) (kind : RegisterKind) :
    (region.poolAt vecs gprs place kind).Nodup := by
  cases kind with
  | vec => exact hvecs
  | gpr =>
    show (region.gprsAt gprs place).Nodup
    induction place generalizing gprs region with
    | nil => exact hgprs
    | cons i place ih =>
      rw [gprsAt]
      split
      · exact hgprs
      · exact ih (hgprs.filter _)

/-! ## Registers that occur -/

/-- A register occurs in an entry among its operands or in its body. -/
theorem mem_occurring_entry {kind : RegisterKind} {e : Entry} {r : Nat} : r ∈ e.occurring kind ↔
    r ∈ e.operands kind ∨ ∃ body, e.body? = some body ∧ r ∈ Region.occurring kind body := by
  cases e <;> simp [Entry.occurring, Entry.operands, Entry.dataFlow, Entry.input, Entry.output,
    Entry.body?]

/-- **The registers that occur in a region** are the operands at all its places. -/
theorem mem_occurring_iff {kind : RegisterKind} {r : Nat} : r ∈ occurring kind region ↔
    ∃ place level, region.levelAt place = some level ∧ ∃ e ∈ level, r ∈ e.operands kind := by
  induction region using body_induction with
  | step region ih =>
    rw [mem_occurring]
    constructor
    · rintro ⟨e, he, hr⟩
      rcases mem_occurring_entry.1 hr with hr | ⟨body, hbody, hr⟩
      · exact ⟨[], region, rfl, e, he, hr⟩
      · obtain ⟨place, level, hlevel, hmem⟩ := (ih e he body hbody).1 hr
        obtain ⟨i, hi⟩ := List.getElem?_of_mem he
        exact ⟨i :: place, level, levelAt_cons.2 ⟨e, body, hi, hbody, hlevel⟩, hmem⟩
    · rintro ⟨place, level, hlevel, hmem⟩
      cases place with
      | nil =>
        obtain rfl := Option.some.inj hlevel
        obtain ⟨e, he, hr⟩ := hmem
        exact ⟨e, he, mem_occurring_entry.2 (.inl hr)⟩
      | cons i place =>
        obtain ⟨e, body, hi, hbody, hlevel⟩ := levelAt_cons.1 hlevel
        have he := List.mem_of_getElem? hi
        exact ⟨e, he, mem_occurring_entry.2
          (.inr ⟨body, hbody, (ih e he body hbody).2 ⟨place, level, hlevel, hmem⟩⟩)⟩

/-! ## Allocations -/

/-- The entries of an allocation, and the registers that it names. -/
theorem allocate_eq_ok {allocation : Allocation} : allocate vecs gprs region = .ok allocation ↔
    region ≠ [] ∧ allocateAll vecs gprs region = .ok allocation.region ∧
      ∀ kind, allocation.used kind = ascending (occurring kind allocation.region) := by
  rw [allocate, Checked.require_bind_eq_ok, Checked.bind_eq_ok, ne_eq, List.length_eq_zero_iff]
  refine and_congr_right fun _ => ?_
  constructor
  · rintro ⟨region', hregion, h⟩
    obtain rfl := Checked.pure_eq_ok.1 h
    refine ⟨hregion, fun kind => ?_⟩
    cases kind <;> rfl
  · rintro ⟨hregion, hused⟩
    refine ⟨allocation.region, hregion, Checked.pure_eq_ok.2 ?_⟩
    rw [← hused .vec, ← hused .gpr]
    rfl

/-- **An allocation is exact.** -/
theorem exact_of_allocate (hvecs : vecs.Nodup) (hgprs : gprs.Nodup) {allocation : Allocation}
    (h : allocate vecs gprs region = .ok allocation) : allocation.Exact vecs gprs region := by
  obtain ⟨hne, hregion, hused⟩ := allocate_eq_ok.1 h
  constructor
  case levels =>
    intro place
    exact rel_mono (levels_of_allocateAll hne hregion place) fun _ _ hlevels => hlevels.2
  case pool => exact fun place level hlevel => gprsAt_of_allocateAll hregion hlevel
  case distinct =>
    intro place level level' hlevel hlevel' kind a b
    obtain ⟨_, hsame, hreplaced⟩ := exists_levelAt_of_allocated hne hregion hlevel'
    obtain rfl := Option.some.inj (hlevel.symm.trans hsame)
    exact getElem?_eq_iff_of_map_getElem? (nodup_poolAt hvecs hgprs place kind)
      (map_operands hreplaced kind) a b
  case apart =>
    intro place level' container hlevel' hcontainer e he r hr houtput
    obtain ⟨level, hlevel, hreplaced⟩ := exists_levelAt_of_allocated hne hregion hlevel'
    have hpool : r ∈ region.gprsAt gprs place :=
      mem_of_map_getElem? (map_operands hreplaced .gpr) (List.mem_flatMap.2 ⟨e, he, hr⟩)
    rw [gprsAt_of_allocateAll hregion hlevel, List.mem_filter, decide_eq_true_eq] at hpool
    exact hpool.2 (List.mem_flatMap.2 ⟨container, hcontainer, houtput⟩)
  case used =>
    intro kind r
    rw [hused, (ascending_spec _).2, mem_occurring_iff]
  case ascending =>
    intro kind
    rw [hused]
    exact (ascending_spec _).1

/-- **When an allocation succeeds, and with what.** The allocator that collects registers on the way does
the same. It succeeds exactly if no level is empty and every number is below the size of the pool at its
place. Then every number has become the register that stands there in this pool; different numbers of a
level have become different registers; what is inside a container does not use the outputs of the
container; and the registers that are named are those of all operands.

**Proof sketch.** By induction over bodies, a region can be allocated if there are registers for it. By
induction on a place, its entries are replaced from the pools there, which are what the outputs around the
place have left. A register that occurs in an entry is one of its operands or occurs in its body. -/
theorem allocate_exact (vecs gprs : List Nat) (region : Region) (hvecs : vecs.Nodup)
    (hgprs : gprs.Nodup) :
    allocateCollecting vecs gprs region = allocate vecs gprs region ∧
      ((∃ allocation, allocate vecs gprs region = .ok allocation) ↔ region.Allocatable vecs gprs) ∧
      ∀ allocation, allocate vecs gprs region = .ok allocation → allocation.Exact vecs gprs region := by
  refine ⟨allocateCollecting_eq vecs gprs region, ⟨?_, fun h => ?_⟩,
    fun allocation h => exact_of_allocate hvecs hgprs h⟩
  · rintro ⟨allocation, h⟩
    obtain ⟨hne, hregion, -⟩ := allocate_eq_ok.1 h
    exact allocatable_of_allocateAll hne hregion
  · obtain ⟨region', hregion⟩ := exists_allocateAll h
    refine ⟨⟨region', ascending (occurring .vec region'), ascending (occurring .gpr region')⟩,
      allocate_eq_ok.2 ⟨(h [] region rfl).1, hregion, fun kind => ?_⟩⟩
    cases kind <;> rfl

/-- A scheduler with two outputs around two tiles, of which the first has an output as well. -/
theorem allocate_exact_of_nested :
    let tile : Tile := ⟨8, 1, [8, 8], 4⟩
    let inner : Region := [.leaf (.load .ymm) [0] [0], .leaf (.store .ymm) [0] [1]]
    let region : Region := [.scheduler .dynamic
      [.tile tile inner [7, 7] [1], .tile tile inner [7, 7] []] [9] [0, 1]]
    [4, 5].Nodup ∧ [0, 1, 2, 3, 8, 9].Nodup ∧
      region.gprsAt [0, 1, 2, 3, 8, 9] [0] = [2, 3, 8, 9] ∧
      region.gprsAt [0, 1, 2, 3, 8, 9] [0, 0] = [2, 8, 9] ∧
      ∃ allocation, allocate [4, 5] [0, 1, 2, 3, 8, 9] region = .ok allocation ∧
        allocation.vecs = [4] ∧ allocation.gprs = [0, 1, 2, 3, 8] ∧
        (allocation.region.levelAt [0, 0]).map (operands .gpr) = some [2, 8] ∧
        (allocation.region.levelAt [0, 1]).map (operands .gpr) = some [2, 3] ∧
        allocation.Exact [4, 5] [0, 1, 2, 3, 8, 9] region := by
  intro tile inner region
  obtain ⟨-, -, hexact⟩ := allocate_exact [4, 5] [0, 1, 2, 3, 8, 9] region (by decide) (by decide)
  exact ⟨by decide, by decide, rfl, rfl, _, rfl, rfl, rfl, rfl, rfl, hexact _ rfl⟩

end Region

end Pointwise
