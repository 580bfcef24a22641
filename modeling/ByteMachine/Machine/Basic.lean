/-
**Machines.**

A machine is its memory, its registers and flags, the program counter, the number of instructions
executed, and the configuration it was built with.  Beside the stack pointer it keeps the *stack
base*: the value of the stack pointer at which its stack is empty, which moves when an instruction
writes the stack pointer as a register.

Main definitions:

* `ByteMachine.Machine`, `Machine.fresh`, `Machine.ofConfig` — machines and new machines;
* `ByteMachine.Machine.load`, `Machine.loadProgram`, `Machine.poke` — writing memory from outside.
-/

import ByteMachine.Config
import ByteMachine.Memory
import ByteMachine.Program
import ByteMachine.Registers

set_option relaxedAutoImplicit false
set_option autoImplicit false

namespace ByteMachine

/-- **The state of a machine.** -/
structure Machine where
  /-- The configuration it was built with. -/
  config : Config
  /-- Memory, which holds code and stack. -/
  memory : Memory
  /-- The registers, among them the stack pointer. -/
  registers : Registers
  /-- The result of the last comparison. -/
  flags : Flags
  /-- The address of the next instruction. -/
  pc : Nat
  /-- The stack pointer of an empty stack. -/
  stackBase : UInt8
  /-- The number of instructions executed so far. -/
  cycles : Nat
  deriving DecidableEq, Repr

namespace Machine

/-- A new machine: memory and registers are zero, the stack is empty. -/
def fresh (c : Config) : Machine where
  config := c
  memory := .empty
  registers := .initial c.stackTop
  flags := .none
  pc := 0
  stackBase := c.stackTop
  cycles := 0

/-- A new machine, if the configuration allows one. -/
def ofConfig (c : Config) : Except Fault Machine :=
  match c.validate with
  | .ok () => .ok (fresh c)
  | .error e => .error e

/-- The stack pointer. -/
def sp (m : Machine) : UInt8 := m.registers.sp

/-- Writes an image at address zero. -/
def load (m : Machine) (image : List UInt8) : Except Fault Machine :=
  match m.memory.load image with
  | .ok memory => .ok { m with memory }
  | .error e => .error e

/-- Writes a program at address zero. -/
def loadProgram (m : Machine) (p : Program) : Except Fault Machine := m.load p.bytes

/-- Writes one byte of memory. -/
def poke (m : Machine) (address : Nat) (value : UInt8) : Except Fault Machine :=
  match m.memory.write address value with
  | .ok memory => .ok { m with memory }
  | .error e => .error e

@[simp] theorem config_fresh (c : Config) : (fresh c).config = c := rfl

@[simp] theorem sp_fresh (c : Config) : (fresh c).sp = c.stackTop := by
  simp [fresh, sp]

theorem ofConfig_eq_ok_iff {c : Config} {m : Machine} :
    ofConfig c = .ok m ↔ c.stackLimit < c.stackTop ∧ m = fresh c := by
  rw [← Config.validate_eq_ok_iff, ofConfig]
  cases c.validate <;> simp [eq_comm]

end Machine

end ByteMachine
