/-
**The arithmetic unit.**

Addition and multiplication of register contents under an overflow policy, and comparison.  The
exact result is taken in the natural numbers; the policy decides only when it passes 255.

Main definitions:

* `ByteMachine.AluOp.apply` — an operation on two register contents;
* `ByteMachine.AluOutcome` — what it produces: a register content or new flags.
-/

import ByteMachine.Config
import ByteMachine.Registers

set_option relaxedAutoImplicit false
set_option autoImplicit false

namespace ByteMachine

/-- What an operation of the arithmetic unit produces. -/
inductive AluOutcome where
  /-- A new content for the first register. -/
  | value (v : UInt8)
  /-- New flags. -/
  | flags (f : Flags)
  deriving DecidableEq, Repr

/-- Stores an exact result in a byte, as the policy says. -/
def OverflowPolicy.fit (p : OverflowPolicy) (overflow : Fault) (exact : Nat) :
    Except Fault UInt8 :=
  if exact < 256 then .ok (UInt8.ofNat exact)
  else
    match p with
    | .wrap => .ok (UInt8.ofNat (exact % 256))
    | .saturate => .ok 255
    | .trap => .error overflow

namespace AluOp

/-- **Applies an operation to two register contents.**  A comparison never fails. -/
def apply (op : AluOp) (left right : UInt8) (p : OverflowPolicy) : Except Fault AluOutcome :=
  match op with
  | .add => (p.fit (.arithmeticOverflow op left right) (left.toNat + right.toNat)).map .value
  | .mul => (p.fit (.arithmeticOverflow op left right) (left.toNat * right.toNat)).map .value
  | .cmp => .ok (.flags (.compare left right))

@[simp] theorem apply_cmp (left right : UInt8) (p : OverflowPolicy) :
    apply cmp left right p = .ok (.flags (.compare left right)) := rfl

end AluOp

end ByteMachine
