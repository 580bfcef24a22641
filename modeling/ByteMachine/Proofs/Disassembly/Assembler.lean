/-
**Assembling a disassembly.**

The text of a row is in assembler notation, and nothing but the text is needed to find the bytes of
the row again.  This module reads such texts: the first word names an opcode or announces a data
byte, the operands follow in the forms that the opcode prescribes, and numerals are decimal, but
binary for a data byte.  Read back in this way, the texts of a disassembly give the image that was
taken apart.

Main definitions:

* `ByteMachine.OperandForm`, `Opcode.operandForms` — how the operands of an opcode are written;
* `ByteMachine.writeOperands`, `readOperands?` — operands in their forms, written and read;
* `ByteMachine.assemble?`, `assembleAll?` — the bytes of a text, and of many texts.

Main results:

* `ByteMachine.readOperands?_writeOperands` — operands are read as they were written;
* `ByteMachine.toList_text_instruction` — the text of an instruction is its mnemonic and its
  operands in their forms;
* `ByteMachine.texts_determine_image` — **the texts of a disassembly can be assembled back**.
-/

import ByteMachine.Proofs.Disassembly.Partition
import ByteMachine.Proofs.Numeral
import Mathlib.Data.List.Basic

set_option relaxedAutoImplicit false
set_option autoImplicit false

namespace ByteMachine

variable {image : List UInt8} {row : Row}

/-! ### Numerals of bytes -/

/-- The byte of a numeral: at least one digit, and a value of at most 255. -/
def readByte? (base : Nat) : List Char → Option UInt8
  | [] => none
  | cs => (Numeral.readDigits base 255 0 cs).toOption.map UInt8.ofNat

theorem readByte?_of_readDigits {base : Nat} {cs : List Char} {b : UInt8} (hne : cs ≠ [])
    (h : Numeral.readDigits base 255 0 cs = .ok b.toNat) : readByte? base cs = some b := by
  cases cs with
  | nil => exact absurd rfl hne
  | cons c cs =>
      rw [readByte?, h, Except.toOption, Option.map_some, UInt8.ofNat_toNat]
      simp

theorem readByte?_repr (b : UInt8) : readByte? 10 b.toNat.repr.toList = some b := by
  have hbound : b.toNat ≤ 255 := Nat.le_of_lt_succ b.toNat_lt
  rw [Nat.toList_repr]
  exact readByte?_of_readDigits Nat.toDigits_ne_nil
    (Numeral.readDigits_toDigits (by decide) (by decide) hbound)

/-! ### Operands -/

/-- How an operand is written: as the name of a register or as a value. -/
inductive OperandForm where
  | register
  | value
  deriving DecidableEq, Repr

/-- What is written in front of the numeral. -/
def OperandForm.mark : OperandForm → List Char
  | register => ['R']
  | value => []

/-- The forms of the operands of an opcode: registers, but the second operand of a load is a
value. -/
def Opcode.operandForms : Opcode → List OperandForm
  | ldi => [.register, .value]
  | op => List.replicate op.operandCount .register

theorem Opcode.operandForms_of_ne {op : Opcode} (h : op ≠ .ldi) :
    op.operandForms = List.replicate op.operandCount .register := by
  cases op <;> first | rfl | exact absurd rfl h

theorem Opcode.length_operandForms (op : Opcode) : op.operandForms.length = op.operandCount := by
  cases op <;> rfl

/-- Operands in their forms, the first of them behind `separator` and every other one behind a
comma and a blank. -/
def writeOperands : List Char → List OperandForm → List UInt8 → List Char
  | separator, form :: forms, operand :: operands =>
    separator ++ form.mark ++ operand.toNat.repr.toList ++ writeOperands [',', ' '] forms operands
  | _, _, _ => []

/-- Reads operands in their forms; nothing may stand behind the last one. -/
def readOperands? : List Char → List OperandForm → List Char → Option (List UInt8)
  | _, [], cs => if cs = [] then some [] else none
  | separator, form :: forms, cs => do
    let cs ← (separator ++ form.mark).isPrefixOf? cs
    let operand ← readByte? 10 (cs.takeWhile Char.isDigit)
    let operands ← readOperands? [',', ' '] forms (cs.dropWhile Char.isDigit)
    return operand :: operands

/-- Where operands are written, their separator comes first. -/
theorem head?_writeOperands (stop : Char) (more : List Char) (forms : List OperandForm)
    (operands : List UInt8) :
    ∀ c ∈ (writeOperands (stop :: more) forms operands).head?, c = stop := by
  intro c hc
  cases forms with
  | nil => cases hc
  | cons form forms =>
      cases operands with
      | nil => cases hc
      | cons operand operands =>
          cases hc
          rfl

/-- **Operands are read as they were written.** -/
theorem readOperands?_writeOperands (separator : List Char) {forms : List OperandForm}
    {operands : List UInt8} (h : operands.length = forms.length) :
    readOperands? separator forms (writeOperands separator forms operands) = some operands := by
  induction forms generalizing separator operands with
  | nil =>
      obtain rfl := List.length_eq_zero_iff.1 h
      rfl
  | cons form forms ih =>
      cases operands with
      | nil => cases h
      | cons operand operands =>
          have hdigits : ∀ c ∈ operand.toNat.repr.toList, c.isDigit = true :=
            fun c => Numeral.isDigit_of_mem_repr
          have hbehind : ∀ c ∈ (writeOperands [',', ' '] forms operands).head?,
              c.isDigit = false := by
            intro c hc
            rw [head?_writeOperands ',' [' '] forms operands c hc]
            decide
          have hmark := List.isPrefixOf?_eq_some_iff_append_eq.2
            (List.append_assoc (separator ++ form.mark) operand.toNat.repr.toList
              (writeOperands [',', ' '] forms operands)).symm
          rw [writeOperands, readOperands?, hmark, Option.bind_eq_bind, Option.bind_some,
            takeWhile_word hdigits hbehind, dropWhile_word hdigits hbehind, readByte?_repr,
            ih _ (Nat.succ.inj h)]
          rfl

/-! ### Rows -/

/-- The opcode of a mnemonic. -/
def Opcode.ofMnemonic? (word : List Char) : Option Opcode :=
  all.find? fun op => op.mnemonic.toList = word

@[simp] theorem Opcode.ofMnemonic?_mnemonic (op : Opcode) :
    ofMnemonic? op.mnemonic.toList = some op := by
  cases op <;> decide

/-- The byte behind `.byte`, as eight binary digits. -/
def readData? (cs : List Char) : Option UInt8 := do
  let digits ← " 0b".toList.isPrefixOf? cs
  if digits.length = 8 then readByte? 2 digits else none

/-- The bytes of a row whose text is a word and what stands behind it. -/
def assembleRow? (word behind : List Char) : Option (List UInt8) :=
  if word = ".byte".toList then
    (readData? behind).map fun byte => [byte]
  else do
    let op ← Opcode.ofMnemonic? word
    let operands ← readOperands? [' '] op.operandForms behind
    return op.encode :: operands

/-- **The bytes that a text in assembler notation stands for.** -/
def assemble? (text : String) : Option (List UInt8) :=
  assembleRow? (text.toList.takeWhile (· ≠ ' ')) (text.toList.dropWhile (· ≠ ' '))

/-- The bytes of texts, one behind the other. -/
def assembleAll? (texts : List String) : Option (List UInt8) :=
  (texts.mapM assemble?).map List.flatten

/-- **The text of an instruction** is its mnemonic and its operands in their forms. -/
theorem toList_text_instruction {op : Opcode} {operands : List UInt8}
    (h : operands.length = op.operandCount) :
    (RowContent.instruction op operands).text.toList =
      op.mnemonic.toList ++ writeOperands [' '] op.operandForms operands := by
  -- one case for each way to write an instruction; the opcode fixes the number of operands, so
  -- the three shapes without a value come from the three counts
  rw [RowContent.text.eq_def]
  split
  · rename_i heq
    cases heq
    simp [Opcode.mnemonic, Opcode.operandForms, writeOperands, OperandForm.mark,
      RowContent.register]
  · rename_i a b hload heq
    cases heq
    have hne : op ≠ .ldi := fun hop => hload hop
    have hcount : op.operandCount = 2 := h.symm
    rw [Opcode.operandForms_of_ne hne, hcount]
    simp [writeOperands, OperandForm.mark, RowContent.register]
  · rename_i a heq
    cases heq
    have hcount : op.operandCount = 1 := h.symm
    have hne : op ≠ .ldi := by
      rintro rfl
      cases hcount
    rw [Opcode.operandForms_of_ne hne, hcount]
    simp [writeOperands, OperandForm.mark, RowContent.register]
  · rename_i hload htwo hone heq
    cases heq
    have hle := op.operandCount_le_two
    have hnil : operands = [] := by
      rcases operands with _ | ⟨a, _ | ⟨b, _ | ⟨c, operands⟩⟩⟩
      · rfl
      · exact absurd rfl (hone a)
      · exact absurd rfl (htwo a b)
      · simp only [List.length_cons] at h
        omega
    subst hnil
    cases op.operandForms <;> simp [writeOperands]
  · rename_i heq
    cases heq

/-- A data byte is read as it was written. -/
theorem readData?_binaryByte (b : UInt8) :
    readData? (' ' :: (Numeral.binaryByte b).toList) = some b := by
  have hbound : b.toNat < 2 ^ 8 := b.toNat_lt
  have hlen : (Numeral.padded 2 8 b.toNat).length = 8 :=
    Numeral.length_padded (by decide) (by decide) hbound
  have hread : Numeral.readDigits 2 255 0 (Numeral.padded 2 8 b.toNat) = .ok b.toNat :=
    Numeral.readDigits_padded (by decide) (by decide) (Nat.le_of_lt_succ hbound)
  have hprefix : " 0b".toList.isPrefixOf? (' ' :: (Numeral.binaryByte b).toList) =
      some (Numeral.padded 2 8 b.toNat) := by
    rw [List.isPrefixOf?_eq_some_iff_append_eq]
    simp [Numeral.binaryByte]
  rw [readData?, hprefix, Option.bind_eq_bind, Option.bind_some, if_pos hlen]
  refine readByte?_of_readDigits ?_ hread
  intro hnil
  rw [hnil] at hlen
  cases hlen

theorem assemble?_of_word {text : String} {word behind : List Char}
    (htext : text.toList = word ++ behind) (hword : ∀ c ∈ word, decide (c ≠ ' ') = true)
    (hbehind : ∀ c ∈ behind.head?, c = ' ') : assemble? text = assembleRow? word behind := by
  have hstop : ∀ c ∈ behind.head?, decide (c ≠ ' ') = false := by
    intro c hc
    rw [hbehind c hc]
    decide
  rw [assemble?, htext, takeWhile_word hword hstop, dropWhile_word hword hstop]

/-- The text of an instruction stands for its opcode and its operands. -/
theorem assemble?_instruction {op : Opcode} {operands : List UInt8}
    (h : operands.length = op.operandCount) :
    assemble? (RowContent.instruction op operands).text = some (op.encode :: operands) := by
  have hmnemonic : op.mnemonic.toList ≠ ".byte".toList := by cases op <;> decide
  have hoperands : readOperands? [' '] op.operandForms
      (writeOperands [' '] op.operandForms operands) = some operands :=
    readOperands?_writeOperands [' '] (h.trans op.length_operandForms.symm)
  rw [assemble?_of_word (toList_text_instruction h) (fun c => Opcode.ne_blank_of_mem_mnemonic)
    (head?_writeOperands ' ' [] op.operandForms operands), assembleRow?, if_neg hmnemonic,
    Opcode.ofMnemonic?_mnemonic, Option.bind_eq_bind, Option.bind_some, hoperands]
  rfl

/-- The text of a data byte stands for it. -/
theorem assemble?_data (b : UInt8) : assemble? (RowContent.data b).text = some [b] := by
  have htext : (RowContent.data b).text.toList =
      ".byte".toList ++ ' ' :: (Numeral.binaryByte b).toList := by
    simp [RowContent.text]
  have hword : ∀ c ∈ ".byte".toList, decide (c ≠ ' ') = true := by simp
  have hblank : ∀ c ∈ some ' ', c = ' ' := by simp
  rw [assemble?_of_word htext hword hblank, assembleRow?, if_pos rfl, readData?_binaryByte,
    Option.map_some]

/-- **The text of a row stands for its bytes.** -/
theorem assemble?_text (h : row ∈ disassemble image) : assemble? row.text = some row.bytes := by
  obtain ⟨k, hrow⟩ := List.mem_iff_getElem?.1 h
  rcases kind_of_getElem? hrow with ⟨op, operands, hcontent, hbytes, hlen⟩ | ⟨b, hcontent, hbytes⟩
  · have hcount : operands.length = op.operandCount := by
      rw [hbytes, List.length_cons, Opcode.encodedLength] at hlen
      omega
    rw [Row.text, hcontent, hbytes, assemble?_instruction hcount]
  · rw [Row.text, hcontent, hbytes, assemble?_data]

/-! ### Images -/

theorem assembleAll?_map_text {rows : List Row}
    (h : ∀ row ∈ rows, assemble? row.text = some row.bytes) :
    assembleAll? (rows.map Row.text) = some (rows.flatMap Row.bytes) := by
  have hmap : (rows.map Row.text).mapM assemble? = some (rows.map Row.bytes) := by
    induction rows with
    | nil => rfl
    | cons row rows ih =>
        have hrows := ih fun r hr => h r (List.mem_cons_of_mem _ hr)
        rw [List.map_cons, List.mapM_cons, h row List.mem_cons_self, hrows]
        rfl
  rw [assembleAll?, hmap, Option.map_some, List.flatMap_def]

theorem assembleAll?_disassemble (image : List UInt8) :
    assembleAll? ((disassemble image).map Row.text) = some image := by
  rw [assembleAll?_map_text fun row => assemble?_text, disassemble, flatMap_bytes_rowsFrom]

/-- **The texts of a disassembly can be assembled back.**  The text of every row, read alone, gives
the bytes of the row, so rows with one text have the same bytes, in whichever images they are found.
The texts of all rows, read one behind the other, give the image, so two images with the same texts
are the same. -/
theorem texts_determine_image (image : List UInt8) :
    (∀ row ∈ disassemble image, assemble? row.text = some row.bytes) ∧
    (∀ image', ∀ row ∈ disassemble image, ∀ row' ∈ disassemble image',
      row.text = row'.text → row.bytes = row'.bytes) ∧
    assembleAll? ((disassemble image).map Row.text) = some image ∧
    ∀ image', (disassemble image).map Row.text = (disassemble image').map Row.text ↔
      image = image' := by
  refine ⟨fun row => assemble?_text, fun image' row hrow row' hrow' htext => ?_,
    assembleAll?_disassemble image, fun image' => ⟨fun htexts => ?_, fun h => by rw [h]⟩⟩
  · have hbytes := assemble?_text hrow
    rw [htext, assemble?_text hrow'] at hbytes
    exact (Option.some.inj hbytes).symm
  · have himage := assembleAll?_disassemble image
    rw [htexts, assembleAll?_disassemble] at himage
    exact (Option.some.inj himage).symm

/-- One row of every form; its third one is found again, at another address, in a shorter image. -/
theorem reads_every_form :
    (disassemble [0x82, 3, 72, 0xA0, 1, 2, 0x47, 3, 1, 0xFF]).map Row.text =
        ["LDI R3, 72", "ADD R1, R2", "PRN R3", "HLT", ".byte 0b11111111"] ∧
      assemble? "ADD R1, R2" = some [0xA0, 1, 2] ∧
      assembleAll? ["LDI R3, 72", "ADD R1, R2", "PRN R3", "HLT", ".byte 0b11111111"] =
        some [0x82, 3, 72, 0xA0, 1, 2, 0x47, 3, 1, 0xFF] ∧
      (Row.mk 6 (.instruction .prn [3])).bytes = (Row.mk 1 (.instruction .prn [3])).bytes ∧
      (disassemble [0x82, 3, 72, 0xA0, 1, 2, 0x47, 3, 1, 0xFF]).map Row.text ≠
        (disassemble [1, 0x47, 3]).map Row.text := by
  have hrows : disassemble [0x82, 3, 72, 0xA0, 1, 2, 0x47, 3, 1, 0xFF] =
      [⟨0, .instruction .ldi [3, 72]⟩, ⟨3, .instruction .add [1, 2]⟩, ⟨6, .instruction .prn [3]⟩,
        ⟨8, .instruction .hlt []⟩, ⟨9, .data 0xFF⟩] := by cbv
  have hshort : disassemble [1, 0x47, 3] = [⟨0, .instruction .hlt []⟩,
      ⟨1, .instruction .prn [3]⟩] := by cbv
  have htexts : (disassemble [0x82, 3, 72, 0xA0, 1, 2, 0x47, 3, 1, 0xFF]).map Row.text =
      ["LDI R3, 72", "ADD R1, R2", "PRN R3", "HLT", ".byte 0b11111111"] := by
    rw [hrows]
    cbv
  obtain ⟨hrow, hsame, hall, himage⟩ :=
    texts_determine_image [0x82, 3, 72, 0xA0, 1, 2, 0x47, 3, 1, 0xFF]
  rw [htexts] at hall
  rw [hrows] at hrow hsame
  exact ⟨htexts, hrow ⟨3, .instruction .add [1, 2]⟩ (by decide), hall,
    hsame [1, 0x47, 3] ⟨6, .instruction .prn [3]⟩ (by decide) ⟨1, .instruction .prn [3]⟩
      (by rw [hshort]; decide) rfl,
    fun heq => absurd ((himage [1, 0x47, 3]).1 heq) (by decide)⟩

end ByteMachine
