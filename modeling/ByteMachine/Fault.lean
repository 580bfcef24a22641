/-
**The faults of the machine.**

A fault is the cause for which an operation could not be carried out, with the values that a reader
of the message needs.  Addresses are written in hexadecimal, opcode bytes in binary, register
contents in decimal.

Main definitions:

* `ByteMachine.Fault` — the ten causes;
* `ByteMachine.Fault.message` — each cause in words.
-/

import ByteMachine.Numeral
import ByteMachine.Opcode

set_option relaxedAutoImplicit false
set_option autoImplicit false

namespace ByteMachine

/-- **Why an operation of the machine failed.** -/
inductive Fault where
  /-- The byte at the program counter is in no table. -/
  | illegalInstruction (opcode : UInt8) (pc : Nat)
  /-- The byte at the program counter asks the arithmetic unit for an unknown operation. -/
  | unsupportedAluOperation (opcode : UInt8) (pc : Nat)
  /-- An access outside memory. -/
  | memoryOutOfBounds (address : Nat)
  /-- An operand names no register. -/
  | invalidRegister (index : UInt8)
  /-- A push with the stack pointer at the stack limit. -/
  | stackOverflow (sp : UInt8)
  /-- A pop from an empty stack. -/
  | stackUnderflow (sp : UInt8)
  /-- A result that fits no register, where the configuration asks for a fault. -/
  | arithmeticOverflow (operation : AluOp) (left right : UInt8)
  /-- A program image longer than memory. -/
  | programTooLarge (size capacity : Nat)
  /-- A configuration on which no machine can be built. -/
  | invalidConfig (reason : String)
  /-- A text could not be written to the output or to the trace. -/
  | output (reason : String)
  deriving DecidableEq, Repr

/-- The cause in words. -/
def Fault.message : Fault → String
  | .illegalInstruction opcode pc =>
    "Illegal instruction " ++ Numeral.binaryByte opcode ++ " at address " ++
      Numeral.hexAddress 2 pc
  | .unsupportedAluOperation opcode pc =>
    "Unsupported ALU operation " ++ Numeral.binaryByte opcode ++ " at address " ++
      Numeral.hexAddress 2 pc
  | .memoryOutOfBounds address =>
    "Memory access out of bounds: address " ++ Numeral.hexAddress 1 address
  | .invalidRegister index => "Invalid register: R" ++ index.toNat.repr
  | .stackOverflow sp => "Stack overflow (SP=" ++ Numeral.hexAddress 2 sp.toNat ++ ")"
  | .stackUnderflow sp => "Stack underflow (SP=" ++ Numeral.hexAddress 2 sp.toNat ++ ")"
  | .arithmeticOverflow operation left right =>
    "Arithmetic overflow in " ++ operation.mnemonic ++ ": " ++ left.toNat.repr ++ " and " ++
      right.toNat.repr
  | .programTooLarge size capacity =>
    "Program too large: " ++ size.repr ++ " bytes (memory holds " ++ capacity.repr ++ ")"
  | .invalidConfig reason => "Invalid configuration: " ++ reason
  | .output reason => "Output error: " ++ reason

end ByteMachine
