/-
**Snapshots.**

The part of a machine that is shown after a run: program counter, flags, stack pointer, registers
and cycle counter.

Main definitions:

* `ByteMachine.Snapshot`, `ByteMachine.Machine.snapshot`.
-/

import ByteMachine.Machine.Basic

set_option relaxedAutoImplicit false
set_option autoImplicit false

namespace ByteMachine

/-- **What is shown of a machine after a run.** -/
structure Snapshot where
  pc : Nat
  flags : Flags
  sp : UInt8
  registers : Vector UInt8 8
  cycles : Nat
  deriving DecidableEq, Repr

/-- What is shown of a machine. -/
def Machine.snapshot (m : Machine) : Snapshot where
  pc := m.pc
  flags := m.flags
  sp := m.sp
  registers := m.registers.values
  cycles := m.cycles

end ByteMachine
