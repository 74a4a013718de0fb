import Pointwise.Region.Basic

/-!
# Code of leaf operations

Every leaf operation becomes one to four instructions. Some need a register besides their
operands, which they take from the end of the pool of free ones.

## Main definitions

* `Leaf.splatBits` — a bit pattern in every lane.
* `LeafOp.emit` — the code of a leaf operation.
-/

set_option autoImplicit false

namespace Pointwise

namespace Leaf

/-- The free vector register that an operation may use besides its operands. -/
def auxiliaryVec (owner : String) (pool : List Nat) : Except Error Nat :=
  match pool.getLast? with
  | some r => .ok r
  | none => .error (.capacity (.auxiliaryVec owner))

/-- The free general register that an operation may use besides its operands. -/
def auxiliaryGpr (owner : String) (pool : List Nat) : Except Error Nat :=
  match pool.getLast? with
  | some r => .ok r
  | none => .error (.capacity (.auxiliaryGpr owner))

/-- A bit pattern in every lane of `target`, by way of a general register. -/
def splatBits (w : VectorWidth) (target : Nat) (bits : BitVec 32) (scratch : Nat) :
    Except Error Code := do
  let r ← RegisterClass.gpr32.pick scratch
  let lane ← RegisterClass.xmm.pick target
  let all ← w.pick target
  return [.setHalf r bits, .laneFromWord lane r, .splat w all lane]

/-- The code of a fused operation. Its instructions overwrite one of their operands: the addend,
if that is the target, or a factor. If the target is none of them, the addend is moved there. -/
def fma (w : VectorWidth) (target left right addend : Nat) : Except Error Code := do
  let d ← w.pick target
  if target = addend then
    return [.mulAddOnto w d (← w.pick left) (← w.pick right)]
  else if target = left then
    return [.mulAddTarget w d (← w.pick right) (← w.pick addend)]
  else if target = right then
    return [.mulAddTarget w d (← w.pick left) (← w.pick addend)]
  else do
    let c ← w.pick addend
    return [.moveVector w d c, .mulAddOnto w d (← w.pick left) (← w.pick right)]

/-- The pattern with only the sign bit set. -/
def signBit : BitVec 32 := 0x80000000

/-- The pattern with all but the sign bit set. -/
def magnitudeBits : BitVec 32 := 0x7fffffff

/-- The code of an operation on one vector. Negation and absolute value combine with a mask of
the sign bit, and the rectifier takes the maximum with zero. -/
def unary (w : VectorWidth) (op : UnaryOp) (target source : Nat) (vecs gprs : List Nat) :
    Except Error Code := do
  match op with
  | .sqrt => return [.sqrt w (← w.pick target) (← w.pick source)]
  | .neg =>
    let aux ← auxiliaryVec op.leafName vecs
    let mask ← splatBits w aux signBit (← auxiliaryGpr op.leafName gprs)
    return mask ++ [.bitwise w .xor (← w.pick target) (← w.pick source) (← w.pick aux)]
  | .abs =>
    let aux ← auxiliaryVec op.leafName vecs
    let mask ← splatBits w aux magnitudeBits (← auxiliaryGpr op.leafName gprs)
    return mask ++ [.bitwise w .and (← w.pick target) (← w.pick source) (← w.pick aux)]
  | .relu =>
    let aux ← w.pick (← auxiliaryVec op.leafName vecs)
    return [.bitwise w .xor aux aux aux,
      .binary w .max (← w.pick target) (← w.pick source) aux]

end Leaf

/-- How many inputs and outputs a leaf operation has. -/
def LeafOp.arity : LeafOp → Nat × Nat
  | .const _ _ => (0, 1)
  | .load _ | .splatLoad _ | .laneLoad | .store _ | .laneStore | .splat _ | .unary _ _ => (1, 1)
  | .binary _ _ => (2, 1)
  | .fma _ => (3, 1)

/-- The code of a leaf operation. -/
def LeafOp.emit (op : LeafOp) (input output vecs gprs : List Nat) : Except Error Code := do
  match op, input, output with
  | .load w, [pointer], [target] =>
    let p ← RegisterClass.gpr64.pick pointer
    return [.loadVector w (← w.pick target) p]
  | .splatLoad w, [pointer], [target] =>
    let p ← RegisterClass.gpr64.pick pointer
    return [.splatLoad w (← w.pick target) p]
  | .laneLoad, [pointer], [target] =>
    let d ← RegisterClass.xmm.pick target
    return [.loadLane d (← RegisterClass.gpr64.pick pointer)]
  | .store w, [source], [pointer] =>
    let p ← RegisterClass.gpr64.pick pointer
    return [.storeVector w p (← w.pick source)]
  | .laneStore, [source], [pointer] =>
    let p ← RegisterClass.gpr64.pick pointer
    return [.storeLane p (← RegisterClass.xmm.pick source)]
  | .const w value, [], [target] =>
    Leaf.splatBits w target value.bits (← Leaf.auxiliaryGpr op.name gprs)
  | .splat w, [source], [target] =>
    let d ← w.pick target
    return [.splat w d (← RegisterClass.xmm.pick source)]
  | .binary w op, [left, right], [target] =>
    let d ← w.pick target
    return [.binary w op d (← w.pick left) (← w.pick right)]
  | .fma w, [left, right, addend], [target] => Leaf.fma w target left right addend
  | .unary w op, [source], [target] => Leaf.unary w op target source vecs gprs
  | op, input, output =>
    .error (.invalid (.arity op.name op.arity.1 op.arity.2 input.length output.length))

end Pointwise
