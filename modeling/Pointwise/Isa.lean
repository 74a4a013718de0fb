import Pointwise.Error
import Pointwise.Text.Blank
import Pointwise.Text.Numeral

/-!
# Instruction sets and hosts

Code is generated for one of two vector instruction sets; the scalar set stands for a machine
without either.

## Main definitions

* `Isa` — the instruction sets.
* `Isa.read` — the instruction set that a setting names.
* `Isa.vectorWidth` — the width at which code is generated.
* `Host` — what is known of the machine that runs the kernels.
-/

set_option autoImplicit false

namespace Pointwise

/-- An instruction set. -/
inductive Isa where
  | scalar | avx2 | avx512
  deriving DecidableEq

namespace Isa

/-- The name of an instruction set. -/
def name : Isa → String
  | .scalar => "scalar"
  | .avx2 => "avx2"
  | .avx512 => "avx512"

/-- How many single precision numbers the widest register holds. -/
def lanes : Isa → Nat
  | .scalar => 1
  | .avx2 => 8
  | .avx512 => 16

/-- Whether code can be generated for the instruction set. -/
def isVector : Isa → Bool
  | .scalar => false
  | .avx2 | .avx512 => true

/-- The instruction set that a setting names. Blanks around the name and the case of its letters
do not matter, and the second vector set has two names. -/
def read (text : String) : Option Isa :=
  let names (spelling : String) := Text.sameName (Text.trim text.toList) spelling.toList
  if names "avx2" then some .avx2
  else if names "avx512" || names "avx512f" then some .avx512
  else if names "scalar" then some .scalar
  else none

/-- The width at which code is generated for the instruction set. -/
def vectorWidth : Isa → Except Error VectorWidth
  | .avx2 => .ok .ymm
  | .avx512 => .ok .zmm
  | .scalar => .error .unsupported

/-- The width has as many lanes as the instruction set. -/
theorem lanes_vectorWidth {isa : Isa} {w : VectorWidth} (h : isa.vectorWidth = .ok w) :
    w.lanes = isa.lanes := by
  cases isa <;> simp_all [vectorWidth] <;> subst h <;> rfl

end Isa

/-- What is known of the machine that runs the kernels. -/
structure Host where
  isa : Isa
  cores : Nat
  workers : Nat

namespace Host

/-- The profile of a host on one line. -/
def text (host : Host) : String := s!"{host.isa.name} | {host.cores}L | {host.workers} workers"

/-- Whether code for an instruction set runs on the host. -/
def supports (host : Host) (isa : Isa) : Bool :=
  match host.isa, isa with
  | _, .scalar => true
  | .avx512, _ => true
  | .avx2, .avx2 => true
  | _, _ => false

end Host

end Pointwise
