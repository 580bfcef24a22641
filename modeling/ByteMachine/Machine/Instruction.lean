/-
**Fetching an instruction.**

The opcode byte at the program counter is read and looked up in the instruction table.  The two
bytes behind it are looked at as well, whether the instruction has operands or not; only an operand
that the instruction asks for has to lie in memory.

Main definitions:

* `ByteMachine.Instruction`, `Instruction.first`, `Instruction.second` — a decoded instruction and
  its operands;
* `ByteMachine.Opcode.decode` — looking up a byte, with the fault for one in no table;
* `ByteMachine.Machine.fetch` — the instruction at the program counter.
-/

import ByteMachine.Machine.Basic

set_option relaxedAutoImplicit false
set_option autoImplicit false

namespace ByteMachine

/-- **A decoded instruction** with the two bytes that follow its opcode, as far as they lie in
memory. -/
structure Instruction where
  /-- What to do. -/
  opcode : Opcode
  /-- Where the opcode was read. -/
  address : Nat
  /-- The byte after the opcode. -/
  first? : Option UInt8
  /-- The byte after that. -/
  second? : Option UInt8
  deriving DecidableEq, Repr

namespace Instruction

/-- The first operand. -/
def first (i : Instruction) : Except Fault UInt8 :=
  match i.first? with
  | some b => .ok b
  | none => .error (.memoryOutOfBounds (i.address + 1))

/-- The second operand. -/
def second (i : Instruction) : Except Fault UInt8 :=
  match i.second? with
  | some b => .ok b
  | none => .error (.memoryOutOfBounds (i.address + 2))

/-- The address behind the instruction. -/
def next (i : Instruction) : Nat := i.address + i.opcode.encodedLength

end Instruction

/-- The instruction of a byte read at address `pc`.  Of a byte in no table the fault says whether it
is marked for the arithmetic unit. -/
def Opcode.decode (b : UInt8) (pc : Nat) : Except Fault Opcode :=
  match decode? b with
  | some op => .ok op
  | none =>
    if Shape.isAlu b then .error (.unsupportedAluOperation b pc)
    else .error (.illegalInstruction b pc)

/-- The instruction at the program counter. -/
def Machine.fetch (m : Machine) : Except Fault Instruction := do
  let byte ← m.memory.read m.pc
  let opcode ← Opcode.decode byte m.pc
  return {
    opcode
    address := m.pc
    first? := m.memory.peek (m.pc + 1)
    second? := m.memory.peek (m.pc + 2) }

end ByteMachine
