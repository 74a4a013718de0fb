import Pointwise.Machine.Instruction
import Pointwise.Machine.Lanes
import Pointwise.Machine.Memory
import Pointwise.Program.Eval

/-!
# Running code

The machine has sixteen general registers of 64 bits, sixteen vector registers, a memory, and the
outcome of the last comparison. General arithmetic is modulo `2 ^ 64`. It leaves no outcome on
which a branch may rely: a branch is stuck unless a comparison was the last general instruction
that sets one.

Code runs from its first instruction until it comes to `ret`, which is where the caller takes
over again; the stack pointer then has the value that it had at the start of code that pops what
it pushes.

## Main definitions

* `Core` — the registers and the comparison outcome.
* `MachineState` — registers, comparison outcome and memory.
* `Instruction.exec` — what an instruction other than a branch or `ret` does.
* `Machine.step` — one step of running code.
* `Machine.run` — a run with a bound on the number of steps.
-/

set_option autoImplicit false

namespace Pointwise

/-- A state of the machine. -/
structure MachineState where
  words : RegisterFile (BitVec 64)
  vectors : RegisterFile Lanes
  /-- The outcome of the last comparison, if arithmetic has not overwritten it. -/
  outcome : Option Ordering
  memory : Memory

/-- The registers of a machine, and the outcome of the last comparison. -/
structure Core where
  words : RegisterFile (BitVec 64)
  vectors : RegisterFile Lanes
  outcome : Option Ordering

/-- A machine with given registers and memory. -/
def Core.within (core : Core) (memory : Memory) : MachineState :=
  ⟨core.words, core.vectors, core.outcome, memory⟩

/-- Registers that hold zeros. -/
def Core.cleared : Core := ⟨.fill 0, .fill .zero, none⟩

/-- The registers of a state. -/
def MachineState.core (s : MachineState) : Core := ⟨s.words, s.vectors, s.outcome⟩

namespace MachineState

/-- The state with a general register assigned. -/
def setWord (s : MachineState) (r : Register) (value : BitVec 64) : MachineState :=
  { s with words := s.words.set r value }

/-- The state with a vector register assigned. -/
def setVector (s : MachineState) (r : Register) (lanes : Lanes) : MachineState :=
  { s with vectors := s.vectors.set r lanes }

/-- The state with a general register assigned by arithmetic. -/
def setSum (s : MachineState) (r : Register) (value : BitVec 64) : MachineState :=
  { s with words := s.words.set r value, outcome := none }

/-- The address of an operand. -/
def address (s : MachineState) (m : MemoryOperand) : Address :=
  s.words.get m.base + BitVec.ofInt 64 m.displacement

/-- The word at an operand. -/
def load (s : MachineState) (m : MemoryOperand) : BitVec 64 := s.memory.readWord (s.address m)

/-- The number `i` places behind the address in a register. -/
def element (s : MachineState) (base : Register) (i : Nat) : Binary32 :=
  s.memory.readNumber (s.words.get base + BitVec.ofNat 64 (4 * i))

end MachineState

/-- A bitwise operation on two numbers' patterns. -/
def BitwiseOp.apply : BitwiseOp → Binary32 → Binary32 → Binary32
  | .and, x, y => ⟨x.bits &&& y.bits⟩
  | .xor, x, y => ⟨x.bits ^^^ y.bits⟩

/-- What an instruction does to the state, branches and `ret` apart. -/
def Instruction.exec (i : Instruction) (s : MachineState) : MachineState :=
  let word := s.words.get
  let lane (r : Register) (i : Fin 16) := (s.vectors.get r).get i
  match i with
  | .loadWord d m => s.setWord d (s.load m)
  | .setWord d value => s.setWord d (BitVec.ofInt 64 value)
  | .setHalf d value => s.setWord d (value.setWidth 64)
  | .mulLoad d m => s.setSum d (word d * s.load m)
  | .addWord d r => s.setSum d (word d + word r)
  | .addLoad d m => s.setSum d (word d + s.load m)
  | .addImmediate d value => s.setSum d (word d + BitVec.ofInt 64 value)
  | .subImmediate d value => s.setSum d (word d - BitVec.ofInt 64 value)
  | .compare r value => { s with outcome := some (Ord.compare (word r).toInt value) }
  | .push r =>
    let top := word .rsp - 8
    { s.setWord .rsp top with memory := s.memory.writeWord top (word r) }
  | .pop r => (s.setWord .rsp (word .rsp + 8)).setWord r (s.memory.readWord (word .rsp))
  | .ret | .jump _ | .jumpIf _ _ => s
  | .zeroUpper => { s with vectors := s.vectors.map fun lanes => .upTo 4 lanes.get }
  | .loadVector w d base => s.setVector d (.upTo w.lanes fun i => s.element base i)
  | .storeVector w base r =>
    { s with memory :=
        s.memory.writeNumbers (word base) ((s.vectors.get r).values.toList.take w.lanes) }
  | .loadLane d base => s.setVector d (.upTo 1 fun i => s.element base i)
  | .storeLane base r =>
    { s with memory := s.memory.writeNumber (word base) (s.vectors.get r).first }
  | .splatLoad w d base => s.setVector d (.upTo w.lanes fun _ => s.element base 0)
  | .splat w d r => s.setVector d (.upTo w.lanes fun _ => (s.vectors.get r).first)
  | .laneFromWord d r => s.setVector d (.upTo 1 fun _ => ⟨(word r).setWidth 32⟩)
  | .moveVector w d r => s.setVector d (.upTo w.lanes (lane r))
  | .binary w op d a b =>
    s.setVector d (.upTo w.lanes fun i => Arithmetic.vector.binary op (lane a i) (lane b i))
  | .sqrt w d r => s.setVector d (.upTo w.lanes fun i => .sqrt (lane r i))
  | .bitwise w op d a b => s.setVector d (.upTo w.lanes fun i => op.apply (lane a i) (lane b i))
  | .mulAddTarget w d a c =>
    s.setVector d (.upTo w.lanes fun i => .fma (lane a i) (lane d i) (lane c i))
  | .mulAddOnto w d a b =>
    s.setVector d (.upTo w.lanes fun i => .fma (lane a i) (lane b i) (lane d i))

/-- Whether a condition holds of the outcome of a comparison. -/
def Condition.holds : Condition → Ordering → Bool
  | .less, outcome => outcome = .lt
  | .equal, outcome => outcome = .eq
  | .greaterEqual, outcome => outcome ≠ .lt

namespace Machine

/-- What follows a step: another instruction, the end of the run, or nothing. -/
inductive Next where
  | goOn (position : Nat) (s : MachineState)
  | done (s : MachineState)
  | stuck

/-- The position that a branch at `position` goes to, if it is one in front of the code. -/
def branch (position : Nat) (distance : Int) (s : MachineState) : Next :=
  let target := position + 1 + distance
  if 0 ≤ target then .goOn target.toNat s else .stuck

/-- One step of running code at a position. -/
def step (code : Code) (position : Nat) (s : MachineState) : Next :=
  match code[position]? with
  | none => .stuck
  | some .ret => .done s
  | some (.jump distance) => branch position distance s
  | some (.jumpIf condition distance) =>
    match s.outcome with
    | none => .stuck
    | some outcome =>
      if condition.holds outcome then branch position distance s else .goOn (position + 1) s
  | some i => .goOn (position + 1) (i.exec s)

/-- The state in which a run from a position comes to its end, if it does so in fewer than
`bound` steps. -/
def run (code : Code) : (bound position : Nat) → MachineState → Option MachineState
  | 0, _, _ => none
  | bound + 1, position, s =>
    match step code position s with
    | .goOn next t => run code bound next t
    | .done t => some t
    | .stuck => none

end Machine

end Pointwise
