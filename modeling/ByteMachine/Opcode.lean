/-
**The instruction table.**

An instruction is an opcode byte followed by up to two operand bytes.  The opcode byte describes
its own shape: bits 7–6 count the operands, bit 5 marks the arithmetic unit, bit 4 marks an
instruction that sets the program counter itself, and bits 3–0 identify it.  The four fields are
defined for every byte, also for one that is in no table.

Main definitions:

* `ByteMachine.Opcode`, `Opcode.encode`, `Opcode.decode?` — the thirteen instructions and their
  bytes;
* `ByteMachine.Shape` — the bit fields of an arbitrary byte;
* `ByteMachine.AluOp`, `AluOp.ofByte?` — the operations of the arithmetic unit.

Main results:

* `ByteMachine.Opcode.decode?_encode` — a byte written for an instruction is read back as it.
-/

set_option relaxedAutoImplicit false
set_option autoImplicit false

namespace ByteMachine

/-! ### The bit fields of a byte -/

namespace Shape

/-- The number of operand bytes that the byte announces. -/
def operandCount (b : UInt8) : Nat := (b >>> 6).toNat

/-- Whether the byte is marked as an operation of the arithmetic unit. -/
def isAlu (b : UInt8) : Bool := b &&& 0b0010_0000 != 0

/-- Whether the byte is marked as setting the program counter. -/
def setsPc (b : UInt8) : Bool := b &&& 0b0001_0000 != 0

/-- The low four bits, which tell instructions of one shape apart. -/
def identifier (b : UInt8) : UInt8 := b &&& 0b0000_1111

end Shape

/-! ### Instructions -/

/-- **The instructions of the machine.** -/
inductive Opcode where
  /-- Stop. -/
  | hlt
  /-- Load the second operand into the register named by the first. -/
  | ldi
  /-- Print a register as a decimal line. -/
  | prn
  /-- Add the second register to the first. -/
  | add
  /-- Multiply the first register by the second. -/
  | mul
  /-- Record in the flags how the first register compares to the second. -/
  | cmp
  /-- Push a register. -/
  | push
  /-- Pop into a register. -/
  | pop
  /-- Push the address of the next instruction, then jump to the address in a register. -/
  | call
  /-- Pop an address and jump to it. -/
  | ret
  /-- Jump to the address in a register. -/
  | jmp
  /-- Jump if the last comparison found equality. -/
  | jeq
  /-- Jump unless the last comparison found equality. -/
  | jne
  deriving DecidableEq, Repr

namespace Opcode

/-- The byte of an instruction. -/
def encode : Opcode → UInt8
  | hlt => 0b0000_0001
  | ldi => 0b1000_0010
  | prn => 0b0100_0111
  | add => 0b1010_0000
  | mul => 0b1010_0010
  | cmp => 0b1010_0111
  | push => 0b0100_0101
  | pop => 0b0100_0110
  | call => 0b0101_0000
  | ret => 0b0001_0001
  | jmp => 0b0101_0100
  | jeq => 0b0101_0101
  | jne => 0b0101_0110

/-- The whole table. -/
def all : List Opcode :=
  [hlt, ldi, prn, add, mul, cmp, push, pop, call, ret, jmp, jeq, jne]

/-- The instruction of a byte, if it is in the table. -/
def decode? (b : UInt8) : Option Opcode := all.find? (·.encode == b)

/-- The assembler mnemonic. -/
def mnemonic : Opcode → String
  | hlt => "HLT"
  | ldi => "LDI"
  | prn => "PRN"
  | add => "ADD"
  | mul => "MUL"
  | cmp => "CMP"
  | push => "PUSH"
  | pop => "POP"
  | call => "CALL"
  | ret => "RET"
  | jmp => "JMP"
  | jeq => "JEQ"
  | jne => "JNE"

/-- The number of operand bytes after the opcode. -/
def operandCount (op : Opcode) : Nat := Shape.operandCount op.encode

/-- The length of the whole instruction in bytes. -/
def encodedLength (op : Opcode) : Nat := 1 + op.operandCount

/-- Whether the arithmetic unit carries the instruction out. -/
def isAlu (op : Opcode) : Bool := Shape.isAlu op.encode

/-- Whether the instruction sets the program counter itself. -/
def setsPc (op : Opcode) : Bool := Shape.setsPc op.encode

theorem mem_all (op : Opcode) : op ∈ all := by
  cases op <;> decide

@[simp] theorem decode?_encode (op : Opcode) : decode? op.encode = some op := by
  cases op <;> rfl

theorem encode_of_decode? {b : UInt8} {op : Opcode} (h : decode? b = some op) :
    op.encode = b := by
  simpa using List.find?_some h

/-- A byte is in the table exactly as the byte of the instruction it is read as. -/
theorem decode?_eq_some_iff {b : UInt8} {op : Opcode} :
    decode? b = some op ↔ b = op.encode :=
  ⟨fun h => (encode_of_decode? h).symm, fun h => h ▸ decode?_encode op⟩

theorem operandCount_le_two (op : Opcode) : op.operandCount ≤ 2 := by
  cases op <;> decide

end Opcode

/-! ### Operations of the arithmetic unit -/

/-- The operations of the arithmetic unit. -/
inductive AluOp where
  | add
  | mul
  | cmp
  deriving DecidableEq, Repr

namespace AluOp

/-- The mnemonic of the instruction that asks for the operation. -/
def mnemonic : AluOp → String
  | add => "ADD"
  | mul => "MUL"
  | cmp => "CMP"

/-- The operation that an instruction asks for. -/
def ofOpcode? : Opcode → Option AluOp
  | .add => some add
  | .mul => some mul
  | .cmp => some cmp
  | _ => none

/-- The operation that a byte asks for: none if the byte is not marked for the arithmetic unit or
is not in the table. -/
def ofByte? (b : UInt8) : Option AluOp :=
  if Shape.isAlu b then (Opcode.decode? b).bind ofOpcode? else none

end AluOp

end ByteMachine
