/-
**Disassembly.**

An image is cut into rows from its beginning.  A byte of the instruction table together with the
operands it asks for is an instruction row; a byte in no table, and an opcode whose operands pass
the end of the image, is a row of a single data byte.

Main definitions:

* `ByteMachine.Row`, `Row.bytes`, `Row.text`, `Row.line` — a row and its written forms;
* `ByteMachine.disassemble` — the rows of an image.

Main results:

* `ByteMachine.rowsFrom_cons` — how the first row is found.
-/

import ByteMachine.Numeral
import ByteMachine.Opcode
import ByteMachine.Text.Column

set_option relaxedAutoImplicit false
set_option autoImplicit false

namespace ByteMachine

/-! ### Rows -/

/-- What a row holds. -/
inductive RowContent where
  /-- An instruction with its operand bytes. -/
  | instruction (opcode : Opcode) (operands : List UInt8)
  /-- A byte that is not decoded. -/
  | data (byte : UInt8)
  deriving DecidableEq, Repr

/-- **A row of a disassembly.** -/
structure Row where
  /-- The address of its first byte. -/
  address : Nat
  /-- What it holds. -/
  content : RowContent
  deriving DecidableEq, Repr

namespace RowContent

/-- The bytes of a row. -/
def bytes : RowContent → List UInt8
  | instruction opcode operands => opcode.encode :: operands
  | data byte => [byte]

/-- Whether a row holds a byte that is not decoded. -/
def isData : RowContent → Bool
  | instruction _ _ => false
  | data _ => true

/-- A register operand. -/
def register (index : UInt8) : String := "R" ++ index.toNat.repr

/-- The text of a row in assembler notation.  Operands name registers, but the second operand of a
load is a value. -/
def text : RowContent → String
  | instruction .ldi [a, b] => "LDI " ++ register a ++ ", " ++ b.toNat.repr
  | instruction opcode [a, b] => opcode.mnemonic ++ " " ++ register a ++ ", " ++ register b
  | instruction opcode [a] => opcode.mnemonic ++ " " ++ register a
  | instruction opcode _ => opcode.mnemonic
  | data byte => ".byte " ++ Numeral.binaryByte byte

end RowContent

namespace Row

/-- The bytes of a row. -/
def bytes (r : Row) : List UInt8 := r.content.bytes

/-- The text of a row in assembler notation. -/
def text (r : Row) : String := r.content.text

/-- The whole row: address, bytes and text in columns. -/
def line (r : Row) : String :=
  Numeral.hexByte r.address ++ "  " ++
    Text.column 9 (" ".intercalate (r.bytes.map fun b => Numeral.hexByte b.toNat)) ++ " " ++ r.text

/-- The row at an address that is higher by `n`. -/
def shift (n : Nat) (r : Row) : Row := { r with address := r.address + n }

@[simp] theorem bytes_shift (n : Nat) (r : Row) : (r.shift n).bytes = r.bytes := rfl

@[simp] theorem text_shift (n : Nat) (r : Row) : (r.shift n).text = r.text := rfl

end Row

/-! ### Cutting an image into rows -/

/-- The row that starts with a byte, the rest of the image being `rest`. -/
def firstRow (byte : UInt8) (rest : List UInt8) : RowContent :=
  match Opcode.decode? byte with
  | some opcode =>
    let operands := rest.take opcode.operandCount
    if operands.length = opcode.operandCount then .instruction opcode operands else .data byte
  | none => .data byte

theorem bytes_firstRow (byte : UInt8) (rest : List UInt8) :
    ∃ n, (firstRow byte rest).bytes = byte :: rest.take n := by
  unfold firstRow
  split
  · rename_i opcode h
    dsimp only
    split
    · exact ⟨opcode.operandCount, by simp [RowContent.bytes, Opcode.encode_of_decode? h]⟩
    · exact ⟨0, by simp [RowContent.bytes]⟩
  · exact ⟨0, by simp [RowContent.bytes]⟩

/-- The rows of an image whose first byte is at `address`. -/
def rowsFrom (address : Nat) : List UInt8 → List Row
  | [] => []
  | byte :: rest =>
    let content := firstRow byte rest
    let operands := content.bytes.length - 1
    ⟨address, content⟩ :: rowsFrom (address + 1 + operands) (rest.drop operands)
  termination_by image => image.length
  decreasing_by
    simp only [List.length_drop, List.length_cons]
    omega

/-- **The rows of an image.** -/
def disassemble (image : List UInt8) : List Row := rowsFrom 0 image

@[simp] theorem rowsFrom_nil (address : Nat) : rowsFrom address [] = [] := by
  rw [rowsFrom]

/-- The first row takes its bytes off the image, and the others follow at the address behind it. -/
theorem rowsFrom_cons (address : Nat) (byte : UInt8) (rest : List UInt8) :
    rowsFrom address (byte :: rest) =
      ⟨address, firstRow byte rest⟩ ::
        rowsFrom (address + 1 + ((firstRow byte rest).bytes.length - 1))
          (rest.drop ((firstRow byte rest).bytes.length - 1)) := by
  rw [rowsFrom]

end ByteMachine
