import Pointwise.Compiler
import Pointwise.Proofs.Kernel.Frame
import Pointwise.Proofs.Kernel.Pointers
import Pointwise.Proofs.Offset.Table

/-!
# Computations in memory

A program is computed on a planned domain by calls of a kernel. Its tensors lie in memory, outputs
apart from everything else, and each call also has bytes of its own for what it saves and for its
index vector. The calls number the rows of the domain, and each of them processes consecutive rows.

## Main definitions

* `Computation` — a program on a planned domain, with the places of its tensors.
* `KernelMode.pointerSlots`, `KernelMode.rowSlots` — the words of the argument block that a kernel reads.
* `CallSite.AdmitsPointer`, `CallSite.AdmitsRow` — what a call may access in its phases.
* `Computation.Proper`, `Computation.Separates` — what a call needs to keep to its bytes, wherever the
  inputs lie.
* `Computation.Valid`, `Computation.Hosts` — bytes that do not get in each other's way.
* `Computation.InPlace` — outputs that may take the place of inputs.
* `CallSite.Called` — the state in which a kernel is called.
* `Computation.Finds` — a memory that holds the elements of the inputs for a range of positions.
* `Computation.Ready`, `Computation.ReadyFor` — a memory that holds the inputs and the argument block.
* `Computation.setting` — the setting of a call.
* `Computation.WalksIn` — code that processes the share of each call from wherever a call may begin.
* `Computation.ComputesIn` — code each call of which performs its share in the phases of a mode.

## Main results

* `Computation.sound`, `Computation.rows`, `Computation.links` — the setting of a call is as the code
  of a kernel needs it.
* `Computation.begins_eq` — where the data pointers of a call begin.
* `Computation.loads_of_performs` — what a call loads are its arguments and what it needs.
* `Computation.InPlace.process_eq` — passes store the values of the outputs.
-/

set_option autoImplicit false

namespace Pointwise

open Machine

/-- A program that is computed on a planned domain, with the places of its tensors. -/
structure Computation where
  program : Program
  domain : Domain
  /-- Which inputs are broadcast along the rows. -/
  flags : List Bool
  w : VectorWidth
  sources : List Address
  targets : List Address

namespace Kernel

/-- The general registers that may hold data pointers. -/
def pointerPool : List Register :=
  (List.finRange 16).filter fun r =>
    r ∉ [Register.rsp, .rbp, .indexArgument, .blockArgument]

theorem map_pointerPool : pointerPool.map (·.val) = gprPool := by decide

theorem nodup_pointerPool : pointerPool.Nodup := by decide

end Kernel

/-- The bytes of the index vector of a call for a number of dimensions. -/
def CallSite.indexSpan (site : CallSite) (dims : Nat) : Span := ⟨site.index, 8 * dims⟩

/-- The bytes of the argument block of a call. -/
def CallSite.blockSpan (site : CallSite) : Span := ⟨site.block, ArgumentBlock.byteSize⟩

/-- The state in which a kernel is called: the stack pointer and the arguments are in their registers, and
the memory holds the index vector and the argument block. Nothing is said of the other registers. -/
structure CallSite.Called (site : CallSite) (index : List Nat) (block : ArgumentBlock)
    (s : MachineState) : Prop where
  begins : site.Begins s
  words : ∀ (d i : Nat), index[d]? = some i →
    s.memory.readWord (site.index + BitVec.ofNat 64 (8 * d)) = BitVec.ofNat 64 i
  arguments : ∀ (offset : Nat) (value : BitVec 64), block.WordAt offset value →
    s.memory.readWord (site.block + BitVec.ofNat 64 offset) = value

/-- The state in which a call begins, for which the index vector has been written. -/
def CallSite.start (site : CallSite) (found : Core) (memory : Memory) (index : List Nat) : MachineState :=
  site.entry found (memory.writeWords site.index (index.map (BitVec.ofNat 64)))

/-! ## What a call may access -/

/-- The registers of the data pointers, inputs first. -/
def Program.pointers (program : Program) : List Register := Kernel.pointerPool.take program.params

theorem Program.length_pointers (program : Program) : program.pointers.length = program.params := by
  have hle := program.wellFormed.params_le
  have hpool : Kernel.pointerPool.length = maxParams := by decide
  refine List.length_take_of_le ?_
  rw [hpool, Program.params]
  exact hle

/-- The words of the argument block that an instruction may read, by their offsets. -/
abbrev Kernel.Slots := Instruction → Nat → Prop

/-- The words from which the data pointer of a parameter is computed: the pointer gets the address of the
parameter, and in a dynamic kernel the strides of the parameter get into another register. -/
def KernelMode.pointerSlots (mode : KernelMode) (program : Program) (p : Nat) : Kernel.Slots
  | .loadWord r _, offset => program.pointers[p]? = some r ∧
      ArgumentBlock.pointerSlot p program.inputs = .ok offset ∨
    mode = .dynamic ∧ r ∉ program.pointers ∧
      ∃ d < maxCallDims, offset = ArgumentBlock.stridesAt + (p * maxCallDims + d) * 8
  | _, _ => False

/-- The words that the rows of a kernel need: the amounts of work in a dynamic kernel, and the row offset
of each parameter, which is added to its pointer. -/
def KernelMode.rowSlots (mode : KernelMode) (program : Program) : Kernel.Slots
  | .loadWord r _, offset => mode = .dynamic ∧ r ∉ program.pointers ∧
      (offset = ArgumentBlock.workAt ∨ offset = ArgumentBlock.workAt + 8)
  | .addLoad r _, offset => mode = .dynamic ∧ ∃ p, program.pointers[p]? = some r ∧
      offset = ArgumentBlock.rowsAt + p * 8
  | _, _ => False

/-- What may be stored through the pointer of an output: consecutive ones of its elements. -/
def Program.StoresTo (program : Program) (targets : List Address) (elements : Nat) (q : Register)
    (count : Nat) (span : Span) : Prop :=
  ∃ (k : Nat) (target : Address), program.pointers[program.inputs + k]? = some q ∧
    targets[k]? = some target ∧ ∃ f, f + count ≤ elements ∧
      span = ⟨target + BitVec.ofNat 64 (4 * f), 4 * count⟩

/-- What an instruction of a call may access: registers are restored from the frame, a number of entries of
the index vector are multiplied by, the argument block is read where the slots allow it, and numbers are
loaded and stored through data pointers. -/
def CallSite.Admits (site : CallSite) (slots : Kernel.Slots) (dims : Nat)
    (loads stores : (pointer : Register) → (count : Nat) → Span → Prop) (i : Instruction)
    (span : Span) : Prop :=
  match i with
  | .pop _ => span.Within site.frame
  | .mulLoad _ _ => ∃ d < dims, span = ⟨site.index + BitVec.ofNat 64 (8 * d), 8⟩
  | .loadWord _ _ | .addLoad _ _ => ∃ offset, slots i offset ∧ offset + 8 ≤ ArgumentBlock.byteSize ∧
      span = ⟨site.block + BitVec.ofNat 64 offset, 8⟩
  | .loadVector w _ q => loads q w.lanes span
  | .loadLane _ q | .splatLoad _ _ q => loads q 1 span
  | .storeVector w q _ => stores q w.lanes span
  | .storeLane q _ => stores q 1 span
  | _ => False

/-- What an instruction may access that computes the data pointer of a parameter. -/
def CallSite.AdmitsPointer (site : CallSite) (mode : KernelMode) (program : Program) (dims p : Nat) :
    Instruction → Span → Prop :=
  site.Admits (mode.pointerSlots program p) dims (fun _ _ _ => False) fun _ _ _ => False

/-- What an instruction of the rows may access. -/
def CallSite.AdmitsRow (site : CallSite) (mode : KernelMode) (program : Program)
    (loads stores : (pointer : Register) → (count : Nat) → Span → Prop) : Instruction → Span → Prop :=
  site.Admits (mode.rowSlots program) 0 loads stores

/-- An instruction may access more where more may be loaded. -/
theorem CallSite.Admits.mono {site : CallSite} {slots : Kernel.Slots} {dims : Nat}
    {loads loads' stores : Register → Nat → Span → Prop} {i : Instruction} {span : Span}
    (h : site.Admits slots dims loads stores i span)
    (hloads : ∀ q count, loads q count span → loads' q count span) :
    site.Admits slots dims loads' stores i span := by
  cases i with
  | loadVector | loadLane | splatLoad => exact hloads _ _ h
  | _ => exact h

namespace Computation

variable (c : Computation)

/-! ## Places -/

/-- The address of a parameter: inputs come first. -/
def base (param : Nat) : Address :=
  if param < c.program.inputs then c.sources.getD param 0
  else c.targets.getD (param - c.program.inputs) 0

/-- The planned shape of a parameter. -/
def shape (param : Nat) : Shape := c.domain.params.getD param []

/-- Which element of its tensor a parameter has for a position. -/
def element (param position : Nat) : Nat :=
  Shape.sourcePosition c.domain.master (c.shape param) position

/-- Where a parameter has the element for a position. -/
def place (param position : Nat) : Address :=
  c.base param + BitVec.ofNat 64 (4 * c.element param position)

/-- The bytes of an output. -/
def span (target : Address) : Span := ⟨target, 4 * c.domain.elements⟩

/-- The bytes of the elements of inputs. -/
def Reads (a : Address) : Prop :=
  ∃ p < c.program.inputs, ∃ f < c.domain.elements, Span.Covers ⟨c.place p f, 4⟩ a

/-- The dimensions for which the kernel is called. -/
def callDims : Shape := c.domain.callShape.dropLast

/-- The number of elements of a call. -/
def share : Nat := c.domain.tiled.outer * c.domain.tiled.inner

/-- What the program finds at each position, given the elements of the inputs. -/
def reading (input : (param position : Nat) → Binary32) : Reading :=
  ⟨.vector, passStart c.w.lanes c.domain.tiled.inner, input⟩

/-- The bytes of the elements of inputs for the positions from `first` to `stop`. -/
def Needs (first stop : Nat) (a : Address) : Prop :=
  ∃ p < c.program.inputs, ∃ f, (first ≤ f ∧ f < stop) ∧ Span.Covers ⟨c.place p f, 4⟩ a

/-! ## What a call may access -/

/-- What is loaded through the pointer of an input: its elements for consecutive positions of a row. More
than one of them is loaded only if the input moves along the rows. -/
def LoadsFrom (q : Register) (count : Nat) (span : Span) : Prop :=
  ∃ p < c.program.inputs, c.program.pointers[p]? = some q ∧
    (1 < count → Domain.moves c.flags p = true) ∧
    ∃ f, f + count ≤ c.domain.elements ∧ f % c.domain.tiled.inner + count ≤ c.domain.tiled.inner ∧
      (∀ j < count, c.element p (f + j) = c.element p f + j) ∧ span = ⟨c.place p f, 4 * count⟩

/-- What an instruction of the rows may access. -/
def AdmitsRow (mode : KernelMode) (site : CallSite) : Instruction → Span → Prop :=
  site.AdmitsRow mode c.program c.LoadsFrom (c.program.StoresTo c.targets c.domain.elements)

/-- The arguments of a call. -/
def Arguments (site : CallSite) (a : Address) : Prop :=
  site.blockSpan.Covers a ∨ (site.indexSpan c.callDims.length).Covers a

/-- The setting of a call that begins with a position. -/
def setting (mode : KernelMode) (site : CallSite) (kept : List (Register × Address)) (first : Nat)
    (memory : Memory) : Setting where
  program := c.program
  start := passStart c.w.lanes c.domain.tiled.inner
  targets := c.targets
  pointers := c.program.pointers
  place := c.place
  moves := Domain.moves c.flags
  elements := c.domain.elements
  first
  memory
  kept
  readable := c.Arguments site
  admits := c.AdmitsRow mode site

/-- The outputs with their values. -/
def outputs (input : (param position : Nat) → Binary32) : List Target :=
  List.zipWith (fun start value => ⟨start, c.program.valueAt (c.reading input) value⟩) c.targets
    c.program.outputs

/-! ## Bytes that do not get in each other's way -/

/-- A computation on a planned domain with elements, whose outputs fit the memory. -/
structure Proper : Prop where
  planned : c.domain.Planned c.program.outputs.length
  pos : 0 < c.domain.elements
  flags : c.domain.broadcastFlags = .ok c.flags
  length_flags : c.flags.length = c.program.inputs
  length_targets : c.targets.length = c.program.outputs.length
  fits : 4 * c.domain.elements ≤ 2 ^ 64

/-- A computation that can go well: outputs overlap neither each other nor inputs. -/
structure Valid : Prop extends c.Proper where
  targets : c.targets.Pairwise fun t u => (c.span t).Disjoint (c.span u)
  sources : ∀ a, c.Reads a → ∀ target ∈ c.targets, ¬ (c.span target).Covers a

/-- A computation that may go on in place: outputs do not overlap each other, and what is written for a
position are no bytes of inputs for other positions. An input with an element for every position may lie in
the place of an output. -/
structure InPlace : Prop extends c.Proper where
  targets : c.targets.Pairwise fun t u => (c.span t).Disjoint (c.span u)
  sources : ∀ p < c.program.inputs, ∀ f < c.domain.elements, ∀ g < c.domain.elements, f ≠ g →
    ∀ target ∈ c.targets, Span.Disjoint ⟨c.place p f, 4⟩ ⟨target + BitVec.ofNat 64 (4 * g), 4⟩

/-- The frame, the index vector and the argument block of a call overlap neither each other nor the
outputs. -/
structure Separates (site : CallSite) : Prop where
  frame_index : site.frame.Disjoint (site.indexSpan c.callDims.length)
  frame_block : site.frame.Disjoint site.blockSpan
  index_block : (site.indexSpan c.callDims.length).Disjoint site.blockSpan
  frame_targets : ∀ target ∈ c.targets, site.frame.Disjoint (c.span target)
  index_targets : ∀ target ∈ c.targets,
    (site.indexSpan c.callDims.length).Disjoint (c.span target)
  block_targets : ∀ target ∈ c.targets, site.blockSpan.Disjoint (c.span target)

/-- A call with bytes of its own: the frame and the index vector overlap nothing else. -/
structure Hosts (site : CallSite) : Prop extends c.Separates site where
  frame_sources : ∀ a, c.Reads a → ¬ site.frame.Covers a
  index_sources : ∀ a, c.Reads a → ¬ (site.indexSpan c.callDims.length).Covers a
  block_sources : ∀ a, c.Reads a → ¬ site.blockSpan.Covers a

/-- A memory that holds the elements of the inputs for the positions from `first` to `stop`. -/
def Finds (input : (param position : Nat) → Binary32) (first stop : Nat) (memory : Memory) : Prop :=
  ∀ p < c.program.inputs, ∀ f, first ≤ f ∧ f < stop → memory.readNumber (c.place p f) = input p f

/-- The elements of the inputs that a memory holds. -/
def inputOf (memory : Memory) (param position : Nat) : Binary32 :=
  memory.readNumber (c.place param position)

/-- A memory that holds the argument block and the elements of the inputs. -/
structure Ready (block : ArgumentBlock) (site : CallSite)
    (input : (param position : Nat) → Binary32) (memory : Memory) : Prop where
  block : ∀ (offset : Nat) (value : BitVec 64), block.WordAt offset value →
    memory.readWord (site.block + BitVec.ofNat 64 offset) = value
  input : ∀ p < c.program.inputs, ∀ f < c.domain.elements,
    memory.readNumber (c.place p f) = input p f

/-- A memory that holds the argument block, and the elements of the inputs for the positions from `first` to
`stop`. -/
structure ReadyFor (block : ArgumentBlock) (site : CallSite)
    (input : (param position : Nat) → Binary32) (first stop : Nat) (memory : Memory) : Prop where
  block : ∀ (offset : Nat) (value : BitVec 64), block.WordAt offset value →
    memory.readWord (site.block + BitVec.ofNat 64 offset) = value
  input : c.Finds input first stop memory

/-- Code that walks through the share of each call: from every state in which registers are saved and the
memory holds the index vector and the argument block, wherever the inputs lie. -/
def WalksIn (mode : KernelMode) (body : Code) (block : ArgumentBlock) : Prop :=
  ∀ (site : CallSite) (call : Nat) (s : MachineState), c.Separates site → call < c.callDims.count →
    site.Pushed s → (∀ p, site.Provides (Shape.unravel c.callDims call) block
      (site.AdmitsPointer mode c.program c.callDims.length p) s.memory) →
    ∃ kept, (Register.rsp, site.stack - 48) ∈ kept ∧
      (c.setting mode site kept (call * c.share) s.memory).Walked c.program.params
        (site.AdmitsPointer mode c.program c.callDims.length) ((call + 1) * c.share)
        (body.length * c.share) body s

/-- Code that computes in a mode: every call performs its share, from whatever state in which the kernel is
called and the memory holds the elements for the share. -/
def ComputesIn (mode : KernelMode) (code : Code) (block : ArgumentBlock) : Prop :=
  ∀ (site : CallSite) (input : (param position : Nat) → Binary32) (s : MachineState) (call : Nat),
    c.Hosts site → site.Called (Shape.unravel c.callDims call) block s →
    c.Finds input (call * c.share) ((call + 1) * c.share) s.memory → call < c.callDims.count →
      site.Performs code (code.length * (c.domain.tiled.outer + 1) * (c.domain.tiled.inner + 1)) s
        (c.outputs input) (call * c.share) ((call + 1) * c.share)
        (c.Needs (call * c.share) ((call + 1) * c.share))
        (site.Phases c.program.params (site.AdmitsPointer mode c.program c.callDims.length)
          (c.AdmitsRow mode site))

/-- Code that computes in some mode. -/
def Computes (code : Code) (block : ArgumentBlock) : Prop :=
  ∃ mode, c.ComputesIn mode code block

variable {c}

theorem ComputesIn.computes {mode : KernelMode} {code : Code} {block : ArgumentBlock}
    (h : c.ComputesIn mode code block) : c.Computes code block :=
  ⟨mode, h⟩

/-- Inputs that are apart from the outputs are no obstacle. -/
theorem Valid.inPlace (h : c.Valid) : c.InPlace where
  toProper := h.toProper
  targets := h.targets
  sources p hp f hf g hg _ target htarget a ha ha' :=
    h.sources a ⟨p, hp, f, hf, ha⟩ target htarget (Span.within_of_le (by omega) a ha')

/-! ## Loads -/

/-- An instruction that accesses no numbers loads from the frame or from the arguments of a call. -/
theorem arguments_of_admits {slots : Kernel.Slots} {dims : Nat}
    {loads stores : Register → Nat → Span → Prop} {site : CallSite} {i : Instruction} {s : MachineState}
    {span : Span} (h : site.Admits slots dims loads stores i span) (hdims : dims ≤ c.callDims.length)
    (hpointer : i.pointer? = none) (hspan : span ∈ i.loads s) {a : Address} (ha : span.Covers a) :
    site.frame.Covers a ∨ c.Arguments site a := by
  have hblock : (∃ offset, slots i offset ∧ offset + 8 ≤ ArgumentBlock.byteSize ∧
      span = ⟨site.block + BitVec.ofNat 64 offset, 8⟩) → c.Arguments site a := by
    rintro ⟨offset, -, hle, rfl⟩
    exact .inl (Span.within_of_le hle a ha)
  cases i with
  | pop => exact .inl (h a ha)
  | mulLoad =>
    obtain ⟨d, hd, rfl⟩ := h
    have hwithin : Span.Within ⟨site.index + BitVec.ofNat 64 (8 * d), 8⟩
        (site.indexSpan c.callDims.length) := Span.within_of_le (by omega)
    exact .inr (.inr (hwithin a ha))
  | loadWord | addLoad => exact .inr (hblock h)
  | loadVector | loadLane | splatLoad => cases hpointer
  | _ => simp [Instruction.loads] at hspan

/-- **What a call loads** are its arguments and what it needs, apart from the frame. -/
theorem loads_of_performs {mode : KernelMode} {site : CallSite} {code : Code} {bound first stop : Nat}
    {s : MachineState} {outputs : List Target}
    (h : site.Performs code bound s outputs first stop (c.Needs first stop) (site.Phases
      c.program.params (site.AdmitsPointer mode c.program c.callDims.length) (c.AdmitsRow mode site)))
    {x : Instruction × MachineState} (hx : x ∈ visited code bound 0 s) {span : Span}
    (hspan : span ∈ x.1.loads x.2) {a : Address} (ha : span.Covers a) :
    site.frame.Covers a ∨ c.Arguments site a ∨ c.Needs first stop a := by
  by_cases hpointer : x.1.pointer? = none
  · rw [← or_assoc]
    obtain ⟨saves, pointers, rows, htrace, hsaves, hpointers, hrows⟩ := h.phases
    have hmem := List.mem_append_left (x.1.stores x.2) hspan
    rw [htrace, List.mem_append, List.mem_append] at hx
    rcases hx with (hx | hx) | hx
    · exact .inl (.inl ((hsaves x hx span hmem).2 a ha))
    · obtain ⟨p, -, hadmits⟩ := hpointers.exists_stage hx
      exact .inl (arguments_of_admits (hadmits span hmem) le_rfl hpointer hspan ha)
    · exact .inl (arguments_of_admits (hrows x hx span hmem) (Nat.zero_le _) hpointer hspan ha)
  · exact .inr (.inr (h.needs x hx hpointer span hspan a ha))

/-! ## Memories that are ready -/

/-- The bytes of a word of a block. -/
theorem within_blockSpan {block : ArgumentBlock} {offset : Nat} {value : BitVec 64}
    (h : block.WordAt offset value) (site : CallSite) :
    Span.Within ⟨site.block + BitVec.ofNat 64 offset, 8⟩ site.blockSpan :=
  Span.within_of_le h.add_le

/-- A memory that is ready is so for all positions. -/
theorem Ready.readyFor {block : ArgumentBlock} {site : CallSite}
    {input : (param position : Nat) → Binary32} {memory : Memory} (h : c.Ready block site input memory)
    {first stop : Nat} (hstop : stop ≤ c.domain.elements) :
    c.ReadyFor block site input first stop memory :=
  ⟨h.block, fun p hp f hf => h.input p hp f (hf.2.trans_le hstop)⟩

/-- What is needed for positions belongs to the inputs. -/
theorem Needs.reads {first stop : Nat} {a : Address} (h : c.Needs first stop a)
    (hstop : stop ≤ c.domain.elements) : c.Reads a := by
  obtain ⟨p, hp, f, hf, ha⟩ := h
  exact ⟨p, hp, f, hf.2.trans_le hstop, ha⟩

theorem finds_inputOf (c : Computation) (first stop : Nat) (memory : Memory) :
    c.Finds (c.inputOf memory) first stop memory :=
  fun _ _ _ _ => rfl

/-- Changes elsewhere leave the elements alone. -/
theorem Finds.congr {input : (param position : Nat) → Binary32} {first stop : Nat}
    {memory memory' : Memory} (h : c.Finds input first stop memory)
    (hneeds : ∀ a, c.Needs first stop a → memory'.read a = memory.read a) :
    c.Finds input first stop memory' := by
  intro p hp f hf
  rw [← h p hp f hf]
  exact Memory.readNumber_congr fun a ha => hneeds a ⟨p, hp, f, hf, ha⟩

/-- Changes elsewhere leave a memory ready. -/
theorem ReadyFor.congr {block : ArgumentBlock} {site : CallSite}
    {input : (param position : Nat) → Binary32} {first stop : Nat} {memory memory' : Memory}
    (h : c.ReadyFor block site input first stop memory)
    (hblock : ∀ a, site.blockSpan.Covers a → memory'.read a = memory.read a)
    (hneeds : ∀ a, c.Needs first stop a → memory'.read a = memory.read a) :
    c.ReadyFor block site input first stop memory' where
  block offset value hvalue := by
    rw [← h.block offset value hvalue]
    exact Memory.readWord_congr fun a ha => hblock a (within_blockSpan hvalue site a ha)
  input := h.input.congr hneeds

section Begin

variable {block : ArgumentBlock} {site : CallSite} {input : (param position : Nat) → Binary32}
  {memory : Memory} {index : List Nat} {s : MachineState}

/-- A call still finds the elements behind the saves. -/
theorem Finds.saved (hhosts : c.Hosts site) (hbegins : site.Begins s) {first stop : Nat}
    (hstop : stop ≤ c.domain.elements) (h : c.Finds input first stop s.memory) :
    c.Finds input first stop (Kernel.saved s) :=
  h.congr fun a ha => hbegins.read_saved (hhosts.frame_sources a (ha.reads hstop))

/-- **A call finds its index vector and the argument block** behind the saves. -/
theorem Separates.provides (hseparates : c.Separates site) (hindex : index.length = c.callDims.length)
    (hcalled : site.Called index block s) (mode : KernelMode) (p : Nat) :
    site.Provides index block (site.AdmitsPointer mode c.program c.callDims.length p)
      (Kernel.saved s) where
  index d i hd := by
    obtain ⟨hlt, -⟩ := List.getElem?_eq_some_iff.1 hd
    have hwithin : Span.Within ⟨site.index + BitVec.ofNat 64 (8 * d), 8⟩
        (site.indexSpan c.callDims.length) := Span.within_of_le (by omega)
    refine ⟨?_, fun r m => ⟨d, hindex ▸ hlt, rfl⟩⟩
    rw [← hcalled.words d i hd]
    exact Memory.readWord_congr fun a ha =>
      hcalled.begins.read_saved fun hf => hseparates.frame_index a hf (hwithin a ha)
  block offset value hvalue := by
    rw [← hcalled.arguments offset value hvalue]
    exact Memory.readWord_congr fun a ha =>
      hcalled.begins.read_saved fun hf => hseparates.frame_block a hf (within_blockSpan hvalue site a ha)

/-- A call begins with the memory that it finds but for the index vector. -/
theorem read_start (found : Core) {a : Address} (h : ¬ (site.indexSpan index.length).Covers a) :
    (site.start found memory index).memory.read a = memory.read a := by
  refine Memory.read_writeWords ?_
  rwa [List.length_map]

/-- **A kernel is called when its index vector has been written** next to the argument block, whatever the
registers hold besides. -/
theorem called_start (found : Core) (hsmall : 8 * index.length ≤ 2 ^ 64)
    (hapart : (site.indexSpan index.length).Disjoint site.blockSpan)
    (hblock : ∀ (offset : Nat) (value : BitVec 64), block.WordAt offset value →
      memory.readWord (site.block + BitVec.ofNat 64 offset) = value) :
    site.Called index block (site.start found memory index) where
  begins := CallSite.begins_iff.2 ⟨found, _, rfl⟩
  words d i hd := by
    obtain ⟨hlt, rfl⟩ := List.getElem?_eq_some_iff.1 hd
    refine (Memory.readWord_writeWords (by simpa using hsmall) (by simpa using hlt)).trans ?_
    rw [List.getElem_map]
  arguments offset value hvalue := by
    rw [← hblock offset value hvalue]
    exact Memory.readWord_congr fun a ha =>
      read_start found fun hcovers => hapart a hcovers (within_blockSpan hvalue site a ha)

end Begin

/-! ## Parameters -/

/-- A position and the first one of its pass lie in a row. -/
theorem mod_add_lt_of_passStart {lanes inner f j : Nat} (hinner : 0 < inner)
    (h : passStart lanes inner (f + j) = f) : f % inner + j < inner := by
  have hlt := Nat.mod_lt (f + j) hinner
  have hdiv := Nat.div_add_mod (f + j) inner
  rw [passStart] at h
  generalize (f + j) % inner = column at *
  have hlane := Nat.mod_le column lanes
  have hcolumn : j ≤ column := by
    split at h <;> omega
  have hmod : f % inner = (inner * ((f + j) / inner) + (column - j)) % inner :=
    congrArg (· % inner) (by omega)
  rw [Nat.mul_add_mod, Nat.mod_eq_of_lt (show column - j < inner by omega)] at hmod
  omega

/-- The bytes in front of an element. -/
theorem ofInt_elements (n : Nat) :
    BitVec.ofInt 64 (elementSize * (n : Int)) = BitVec.ofNat 64 (4 * n) := by
  exact_mod_cast BitVec.ofInt_natCast 64 (elementSize * n)

section Proper

variable (hproper : c.Proper)

include hproper

/-- The parameters are the inputs followed by the outputs. -/
theorem length_params : c.domain.params.length = c.program.params := by
  have hflags := OffsetTable.length_of_broadcastFlags hproper.flags
  rw [Domain.params, List.length_append, ← hflags, hproper.length_flags, hproper.planned.outputShapes,
    List.length_replicate, Program.params]

theorem getElem?_params {p : Nat} (hp : p < c.program.params) :
    c.domain.params[p]? = some (c.shape p) := by
  have hlen := length_params hproper
  rw [shape, List.getD_eq_getElem?_getD, List.getElem?_eq_getElem (by omega), Option.getD_some]

/-- Outputs have the shape of the master. -/
theorem shape_output {k : Nat} (hk : k < c.program.outputs.length) :
    c.shape (c.program.inputs + k) = c.domain.master := by
  have hflags := OffsetTable.length_of_broadcastFlags hproper.flags
  rw [shape, Domain.params, List.getD_eq_getElem?_getD,
    List.getElem?_append_right (by rw [← hflags, hproper.length_flags]; omega), ← hflags,
    hproper.length_flags, Nat.add_sub_cancel_left, hproper.planned.outputShapes,
    List.getElem?_replicate, if_pos hk, Option.getD_some]

/-- The elements of an output follow each other. -/
theorem place_output {k : Nat} {target : Address} (hk : c.targets[k]? = some target) {f : Nat}
    (hf : f < c.domain.elements) :
    c.place (c.program.inputs + k) f = target + BitVec.ofNat 64 (4 * f) := by
  obtain ⟨hlt, -⟩ := List.getElem?_eq_some_iff.1 hk
  have helement : c.element (c.program.inputs + k) f = f := by
    rw [element, shape_output hproper (hproper.length_targets ▸ hlt), Shape.sourcePosition_self,
      ← hproper.planned.elements, Nat.mod_eq_of_lt hf]
  rw [place, helement, base, if_neg (by omega), Nat.add_sub_cancel_left, List.getD_eq_getElem?_getD,
    hk, Option.getD_some]

/-- The calls share the elements among them. -/
theorem count_mul_share : c.callDims.count * c.share = c.domain.elements :=
  hproper.planned.count_callShape

theorem share_pos : 0 < c.share := by
  obtain ⟨houter, hinner⟩ := hproper.planned.tiled_pos hproper.pos
  exact Nat.mul_pos houter hinner

/-- A call stays within the outputs. -/
theorem share_le {call : Nat} (hcall : call < c.callDims.count) :
    (call + 1) * c.share ≤ c.domain.elements := by
  rw [← count_mul_share hproper]
  exact Nat.mul_le_mul_right _ hcall

/-! ## The setting of a call -/

section Table

variable {table : OffsetTable} (htable : table.Describes c.domain c.flags)

include htable

/-- The offsets of every parameter lead along it. -/
theorem leads {p : Nat} (hp : p < c.program.params) :
    OffsetTable.Leads c.domain (c.shape p) (Domain.moves c.flags p) (table.row p)
      (table.rowOffsets.getD p 0) := by
  have hlen := htable.rowOffsets
  rw [length_params hproper] at hlen
  refine htable.leads p _ _ (getElem?_params hproper hp) ?_
  rw [List.getD_eq_getElem?_getD, List.getElem?_eq_getElem (by omega), Option.getD_some]

/-- **Along a row the elements of an input that moves follow each other.** -/
theorem element_add {p : Nat} (hp : p < c.program.params) (hmoves : Domain.moves c.flags p = true)
    {f j : Nat} (hj : f % c.domain.tiled.inner + j < c.domain.tiled.inner) :
    c.element p (f + j) = c.element p f + j := by
  have hdiv := Nat.div_add_mod' f c.domain.tiled.inner
  have hcolumn := (leads hproper htable hp).column (f / c.domain.tiled.inner)
  have hfirst := hcolumn (f % c.domain.tiled.inner) (by omega)
  have hnext := hcolumn (f % c.domain.tiled.inner + j) hj
  rw [if_pos hmoves] at hfirst hnext
  rw [← Nat.add_assoc, hdiv] at hnext
  rw [hdiv] at hfirst
  rw [element, element, hnext, hfirst, Nat.add_assoc]

variable {mode : KernelMode} {site : CallSite} {kept : List (Register × Address)} {first : Nat}
  {memory : Memory}

/-- **The setting of a call is sound.** -/
theorem sound (mode : KernelMode) (hseparates : c.Separates site)
    (hkept : ∀ x ∈ kept, x.1 ∉ Kernel.pointerPool) (first : Nat) (memory : Memory) :
    (c.setting mode site kept first memory).Sound where
  length_pointers := c.program.length_pointers
  nodup := Kernel.nodup_pointerPool.sublist (List.take_sublist _ _)
  kept x hx hmem := hkept x hx (List.mem_of_mem_take hmem)
  length_targets := hproper.length_targets
  fits := hproper.fits
  not_readable a ha target htarget := by
    rcases ha with ha | ha
    · exact hseparates.block_targets target htarget a ha
    · exact hseparates.index_targets target htarget a ha
  output k target hk f hf := place_output hproper hk hf
  load p hp q hq f hf d := by
    have hfrom : c.LoadsFrom q 1 ⟨c.place p f, 4⟩ := by
      have hinner := (hproper.planned.tiled_pos hproper.pos).2
      refine ⟨p, hp, hq, by omega, f, hf, Nat.mod_lt _ hinner, fun j hj => ?_, rfl⟩
      obtain rfl : j = 0 := by omega
      rfl
    exact ⟨hfrom, fun _ => hfrom⟩
  loadVector p hp q hq hmoves w d f hle hstart := by
    have hp : p < c.program.inputs := hp
    have hinner := (hproper.planned.tiled_pos hproper.pos).2
    have hlanes := w.lanes_pos
    have hrow : ∀ j < w.lanes, f % c.domain.tiled.inner + j < c.domain.tiled.inner :=
      fun j hj => mod_add_lt_of_passStart hinner (hstart j hj)
    have hlast := hrow (w.lanes - 1) (by omega)
    have hend : f % c.domain.tiled.inner + w.lanes ≤ c.domain.tiled.inner := by omega
    refine ⟨p, hp, hq, fun _ => hmoves, f, hle, hend, fun j hj => ?_, rfl⟩
    exact element_add hproper htable (by rw [Program.params]; omega) hmoves (hrow j hj)
  store k q target hq htarget r f :=
    ⟨fun hf => ⟨k, target, hq, htarget, f, hf, rfl⟩,
      fun w hle => ⟨k, target, hq, htarget, f, hle, rfl⟩⟩

/-- **The positions of a setting form rows.** -/
theorem rows : (c.setting mode site kept first memory).Rows c.w.lanes c.domain.tiled.inner where
  lanes_pos := c.w.lanes_pos
  inner_pos := (hproper.planned.tiled_pos hproper.pos).2
  inner_lt := by
    obtain ⟨houter, -⟩ := hproper.planned.tiled_pos hproper.pos
    have hle := Nat.le_mul_of_pos_left c.domain.tiled.inner houter
    have hpos := hproper.pos
    rw [← count_mul_share hproper] at hpos
    have hshare := share_le hproper (Nat.pos_of_mul_pos_right hpos)
    have hfits := hproper.fits
    rw [share] at hshare
    omega
  start := rfl
  place p hp row column hcolumn := by
    have hlt : p < c.program.params := by
      rw [setting, Program.pointers, List.length_take] at hp
      omega
    have hcolumn := (leads hproper htable hlt).column row column hcolumn
    have hbytes : ∀ start, 4 * (start + if Domain.moves c.flags p then column else 0) =
        4 * start + if Domain.moves c.flags p then 4 * column else 0 := by
      intro start
      split <;> omega
    change c.place p (row * c.domain.tiled.inner + column) = c.place p (row * c.domain.tiled.inner) +
      BitVec.ofNat 64 (if Domain.moves c.flags p then 4 * column else 0)
    rw [place, place, element, element, hcolumn, hbytes, Span.add_ofNat_add]

/-- **The row offsets link the rows of a call.** -/
theorem links (call : Nat) : (c.setting mode site kept first memory).Links c.domain.tiled.inner
    (call * c.domain.tiled.outer) c.domain.tiled.outer (table.rowOffsets.getD · 0) := by
  intro k hk p hp
  have hlt : p < c.program.params := by
    rw [setting, Program.pointers, List.length_take] at hp
    omega
  have hsame : (call * c.domain.tiled.outer + k + 1) % c.domain.tiled.outer ≠ 0 := by
    rw [Nat.add_assoc, Nat.mul_comm, Nat.mul_add_mod, Nat.mod_eq_of_lt hk]
    omega
  have hnext := congrArg (BitVec.ofInt 64) ((leads hproper htable hlt).next _ hsame)
  have hadvance : BitVec.ofInt 64
      (Strides.rowAdvance (Domain.moves c.flags p) c.domain.tiled.inner elementSize) =
        BitVec.ofNat 64 (if Domain.moves c.flags p then 4 * c.domain.tiled.inner else 0) := by
    rw [Strides.rowAdvance]
    split
    · rw [BitVec.ofInt_natCast, elementSize, Nat.mul_comm]
    · rfl
  rw [BitVec.ofInt_add, BitVec.ofInt_add, hadvance, ofInt_elements, ofInt_elements] at hnext
  change c.base p + BitVec.ofNat 64 (4 * c.element p ((call * c.domain.tiled.outer + k) *
    c.domain.tiled.inner)) + BitVec.ofNat 64 (if Domain.moves c.flags p then
      4 * c.domain.tiled.inner else 0) + BitVec.ofInt 64 (table.rowOffsets.getD p 0) =
        c.base p + BitVec.ofNat 64 (4 * c.element p ((call * c.domain.tiled.outer + (k + 1)) *
          c.domain.tiled.inner))
  rw [BitVec.add_assoc, BitVec.add_assoc, ← BitVec.add_assoc (BitVec.ofNat 64 (4 * _))]
  exact congrArg (c.base p + ·) hnext

/-- **Where the data pointers of a call begin.** -/
theorem begins_eq {p : Nat} (hp : p < c.program.params) (call : Nat) :
    c.base p + BitVec.ofInt 64
        (Strides.displacement (table.row p) (Shape.unravel c.callDims call)) =
      c.place p (call * c.domain.tiled.outer * c.domain.tiled.inner) := by
  rw [callDims, hproper.planned.unravel_callShape hproper.pos, (leads hproper htable hp).start,
    ofInt_elements, place, element]

end Table

end Proper

/-! ## Outputs -/

/-- Outputs lie at the addresses of a computation, whatever their values. -/
theorem map_start_outputs (hproper : c.Proper) (input : (param position : Nat) → Binary32) :
    (c.outputs input).map (·.start) = c.targets := by
  refine List.ext_getElem ?_ fun i _ _ => ?_
  · simp [outputs, hproper.length_targets]
  · simp [outputs]

/-- Different outputs do not overlap. -/
theorem span_disjoint (h : c.targets.Pairwise fun t u => (c.span t).Disjoint (c.span u)) {t u : Address}
    (ht : t ∈ c.targets) (hu : u ∈ c.targets) (hne : t ≠ u) : (c.span t).Disjoint (c.span u) := by
  have : Std.Symm fun t u => (c.span t).Disjoint (c.span u) := ⟨fun _ _ hd => hd.symm⟩
  exact h.forall ht hu hne

/-- Outputs do not overlap. -/
theorem apart (hplace : c.InPlace) (input : (param position : Nat) → Binary32) :
    Target.Apart (c.outputs input) c.domain.elements := by
  refine ⟨hplace.fits, ?_⟩
  have hpairwise := hplace.targets
  rw [← map_start_outputs hplace.toProper input, List.pairwise_map] at hpairwise
  exact hpairwise

/-- **Passes store the values of the outputs**, as they leave the elements alone that are still needed. -/
theorem InPlace.process_eq (hplace : c.InPlace) {input : (param position : Nat) → Binary32}
    {first stop : Nat} {memory : Memory} (hinput : c.Finds input first stop memory)
    (hstop : stop ≤ c.domain.elements) (mode : KernelMode) (site : CallSite)
    (kept : List (Register × Address)) {passes : List Pass} (htiles : Pass.Tiles first passes stop)
    (hpasses : ∀ pass ∈ passes, (c.setting mode site kept first memory).OnePass pass) :
    (c.setting mode site kept first memory).process passes memory =
      Pass.storeAll (c.outputs input) passes memory :=
  Setting.process_eq_storeAll hplace.sources htiles hstop hpasses hinput

end Computation

end Pointwise
