/-
**What an instruction does.**

Executing a decoded instruction either fails, and then there is no new machine at all, or gives an
effect: the machine afterwards, perhaps a value to print, and whether the machine stops.  Operands
are read before registers, registers before the stack, so the first thing that is wrong is the
fault.

Main definitions:

* `ByteMachine.Machine.push`, `Machine.pop` — the stack, which grows down from the stack base to
  the stack limit;
* `ByteMachine.Machine.setRegister` — a register write, which moves the stack if it writes the
  stack pointer;
* `ByteMachine.Effect`, `ByteMachine.Machine.execute` — one instruction.
-/

import ByteMachine.Alu
import ByteMachine.Machine.Instruction

set_option relaxedAutoImplicit false
set_option autoImplicit false

namespace ByteMachine

/-- **The effect of an instruction.** -/
structure Effect where
  machine : Machine
  /-- A value to print as a decimal line. -/
  printed : Option UInt8
  /-- Whether the machine stops. -/
  halts : Bool
  deriving DecidableEq, Repr

namespace Machine

/-! ### Parts of an instruction -/

/-- The machine with another program counter. -/
def goto (m : Machine) (pc : Nat) : Machine := { m with pc }

/-- Writes a register for an instruction.  Writing the stack pointer moves the stack: it is empty
at the new place. -/
def setRegister (m : Machine) (index value : UInt8) : Except Fault Machine := do
  let registers ← m.registers.set index value
  return { m with
    registers
    stackBase := if index = Registers.spIndex then value else m.stackBase }

/-- Pushes a byte: the stack pointer goes down by one and the byte is written there. -/
def push (m : Machine) (value : UInt8) : Except Fault Machine := do
  if m.sp ≤ m.config.stackLimit then
    throw (.stackOverflow m.sp)
  let memory ← m.memory.write (m.sp - 1).toNat value
  return { m with memory, registers := m.registers.setSp (m.sp - 1) }

/-- Pops a byte: it is read at the stack pointer, which goes up by one. -/
def pop (m : Machine) : Except Fault (UInt8 × Machine) := do
  if m.stackBase ≤ m.sp then
    throw (.stackUnderflow m.sp)
  let value ← m.memory.read m.sp.toNat
  return (value, { m with registers := m.registers.setSp (m.sp + 1) })

/-- Pushes the address behind the instruction, which has to fit a byte. -/
def pushReturn (m : Machine) (i : Instruction) : Except Fault Machine :=
  if i.next < 256 then m.push (UInt8.ofNat i.next)
  else .error (.memoryOutOfBounds i.next)

/-- Goes to the address in the register named by the first operand if `taken` holds, and behind
the instruction if not.  The register is looked at in both cases. -/
def branch (m : Machine) (i : Instruction) (taken : Bool) : Except Fault Machine := do
  let target ← m.registers.get (← i.first)
  if taken then
    match m.config.jumpMode with
    | .plain => return m.goto target.toNat
    | .pushReturn => return (← m.pushReturn i).goto target.toNat
  else
    return m.goto i.next

/-- An operation of the arithmetic unit on the registers named by the operands. -/
def arithmetic (m : Machine) (i : Instruction) (op : AluOp) : Except Fault Machine := do
  let a ← i.first
  let b ← i.second
  let left ← m.registers.get a
  let right ← m.registers.get b
  match ← op.apply left right m.config.overflow with
  | .value v => m.setRegister a v
  | .flags flags => return { m with flags }

/-! ### Instructions -/

/-- An effect that prints nothing and goes on. -/
def proceed (m : Machine) : Effect := ⟨m, none, false⟩

/-- **Executes a decoded instruction.** -/
def execute (m : Machine) (i : Instruction) : Except Fault Effect := do
  match i.opcode with
  | .hlt => return ⟨m, none, true⟩
  | .ldi =>
    let register ← i.first
    let value ← i.second
    return ((← m.setRegister register value).goto i.next).proceed
  | .prn =>
    let value ← m.registers.get (← i.first)
    return ⟨m.goto i.next, some value, false⟩
  | .add => return ((← m.arithmetic i .add).goto i.next).proceed
  | .mul => return ((← m.arithmetic i .mul).goto i.next).proceed
  | .cmp => return ((← m.arithmetic i .cmp).goto i.next).proceed
  | .push =>
    let value ← m.registers.get (← i.first)
    return ((← m.push value).goto i.next).proceed
  | .pop =>
    let register ← i.first
    let _ ← m.registers.get register
    let (value, m) ← m.pop
    return ((← m.setRegister register value).goto i.next).proceed
  | .call =>
    let target ← m.registers.get (← i.first)
    return ((← m.pushReturn i).goto target.toNat).proceed
  | .ret =>
    let (target, m) ← m.pop
    return (m.goto target.toNat).proceed
  | .jmp => return (← m.branch i true).proceed
  | .jeq => return (← m.branch i m.flags.equal).proceed
  | .jne => return (← m.branch i (!m.flags.equal)).proceed

end Machine

end ByteMachine
