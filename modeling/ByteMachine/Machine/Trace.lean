/-
**Trace lines.**

What is shown of a machine before an instruction: program counter, flags, the three bytes from the
program counter on, and all registers, in upper-case hexadecimal columns.

Main definitions:

* `ByteMachine.Trace`, `Trace.text` — what is shown, and its line of text;
* `ByteMachine.Machine.trace` — what is shown of a machine.
-/

import ByteMachine.Machine.Basic

set_option relaxedAutoImplicit false
set_option autoImplicit false

namespace ByteMachine

/-- **What a trace line shows.** -/
structure Trace where
  pc : Nat
  flags : UInt8
  /-- The bytes from the program counter on; none past the end of memory. -/
  bytes : Vector (Option UInt8) 3
  registers : Vector UInt8 8
  deriving DecidableEq, Repr

namespace Trace

/-- The column of a byte, or of its absence. -/
def column : Option UInt8 → String
  | some b => " " ++ Numeral.hexByte b.toNat
  | none => " --"

/-- The line of text, without its end. -/
def text (t : Trace) : String :=
  "TRACE: " ++ Numeral.hexByte t.pc ++ " | " ++ Numeral.hexByte t.flags.toNat ++ " |" ++
    String.join (t.bytes.toList.map column) ++ " |" ++
    String.join (t.registers.toList.map fun r => column (some r))

end Trace

/-- What a trace line shows of a machine. -/
def Machine.trace (m : Machine) : Trace where
  pc := m.pc
  flags := m.flags.bits
  bytes := #v[m.memory.peek m.pc, m.memory.peek (m.pc + 1), m.memory.peek (m.pc + 2)]
  registers := m.registers.values

end ByteMachine
