/-
**The rows take an image apart.**

No byte of an image is lost in its disassembly and none is shown twice: the rows, put together, are
the image, and each of them begins where the one before it ends.  A row holds a data byte exactly
where no opcode stands or the image ends inside the instruction.  A check counts rows; it knows them
by their texts only, but the text of a row tells a data byte from an instruction, so its figures add
up to the size of the program.

Main definitions:

* `ByteMachine.Row.startsAsData` — the text of a row starts like the one of a data byte;
* `ByteMachine.lengthOfInstructions` — how many bytes of rows belong to instructions.

Main results:

* `ByteMachine.flatMap_bytes_rowsFrom` — **the rows, put together, are the image**;
* `ByteMachine.isData_iff_of_getElem?` — where a row holds a data byte;
* `ByteMachine.startsAsData_iff` — the text of a row tells its kind;
* `ByteMachine.disassembly_partitions_image` — **the rows of an image, and the figures of a check**.
-/

import ByteMachine.CommandLine.Inspect
import ByteMachine.Proofs.Disassembly.Rows
import Mathlib.Algebra.GroupWithZero.Nat

set_option relaxedAutoImplicit false
set_option autoImplicit false

namespace ByteMachine

variable {image : List UInt8} {k : Nat} {row : Row}

/-! ### Nothing is lost -/

/-- The first row and the bytes behind it are the image. -/
theorem bytes_firstRow_append (byte : UInt8) (rest : List UInt8) :
    (firstRow byte rest).bytes ++ rest.drop ((firstRow byte rest).bytes.length - 1) =
      byte :: rest := by
  obtain ⟨n, hbytes⟩ := bytes_firstRow byte rest
  rw [hbytes, List.length_cons, List.length_take, Nat.add_sub_cancel, List.cons_append]
  rcases Nat.le_total n rest.length with hle | hle
  · rw [Nat.min_eq_left hle, List.take_append_drop]
  · rw [Nat.min_eq_right hle, List.take_of_length_le hle, List.drop_length, List.append_nil]

/-- **The rows, put together, are the image.** -/
theorem flatMap_bytes_rowsFrom (a : Nat) (image : List UInt8) :
    (rowsFrom a image).flatMap Row.bytes = image := by
  fun_induction rowsFrom a image with
  | case1 => rfl
  | case2 a byte rest content operands ih =>
      rw [List.flatMap_cons, ih]
      exact bytes_firstRow_append byte rest

/-! ### The kinds of rows -/

/-- What a row holds: an opcode with its operands, or one byte. -/
theorem kind_of_getElem? (h : (disassemble image)[k]? = some row) :
    (∃ op operands, row.content = .instruction op operands ∧ row.bytes = op.encode :: operands ∧
        row.bytes.length = op.encodedLength) ∨
      ∃ b, row.content = .data b ∧ row.bytes = [b] := by
  cases hcontent : row.content with
  | instruction op operands =>
      refine .inl ⟨op, operands, rfl, ?_, length_bytes_of_instruction h hcontent⟩
      rw [Row.bytes, hcontent, RowContent.bytes]
  | data b =>
      refine .inr ⟨b, rfl, ?_⟩
      rw [Row.bytes, hcontent, RowContent.bytes]

/-- **Where a row holds a data byte:** no opcode stands there, or its operands pass the end of the
image. -/
theorem isData_iff_of_getElem? (h : (disassemble image)[k]? = some row) :
    row.content.isData = true ↔ ∃ b, image[row.address]? = some b ∧
      ∀ op, Opcode.decode? b = some op → image.length < row.address + op.encodedLength := by
  obtain ⟨before, byte, rest, rfl, rfl, -⟩ := exists_split_of_getElem? h
  have hbyte : (before ++ byte :: rest)[0 + before.length]? = some byte := by
    rw [Nat.zero_add, List.getElem?_append_right (Nat.le_refl _), Nat.sub_self]
    rfl
  have hlong : ∀ op : Opcode, rest.length < op.operandCount ↔
      (before ++ byte :: rest).length < 0 + before.length + op.encodedLength := by
    intro op
    rw [List.length_append, List.length_cons, Opcode.encodedLength]
    omega
  constructor
  · intro hdata
    cases hcontent : firstRow byte rest with
    | instruction op operands =>
        rw [hcontent] at hdata
        cases hdata
    | data b =>
        obtain ⟨rfl, hcut⟩ := firstRow_eq_data_iff.1 hcontent
        exact ⟨b, hbyte, fun op hop => (hlong op).1 (hcut op hop)⟩
  · rintro ⟨b, hb, hcut⟩
    obtain rfl := Option.some.inj (hbyte.symm.trans hb)
    have hcontent : firstRow byte rest = .data byte :=
      firstRow_eq_data_iff.2 ⟨rfl, fun op hop => (hlong op).2 (hcut op hop)⟩
    dsimp only
    rw [hcontent]
    rfl

/-- The text of a row starts like the one of a data byte. -/
def Row.startsAsData (r : Row) : Bool := ".byte".toList.isPrefixOf r.text.toList

/-- **The text of a row tells its kind.** -/
theorem startsAsData_iff (r : Row) : r.startsAsData = r.content.isData := by
  obtain ⟨a, content⟩ := r
  cases content with
  | data b => simp [Row.startsAsData, Row.text, RowContent.text, RowContent.isData]
  | instruction op operands =>
      rw [RowContent.isData, Row.startsAsData, Bool.eq_false_iff]
      intro hprefix
      obtain ⟨more, hmore⟩ := List.isPrefixOf_iff_prefix.1 hprefix
      -- the first word of the text would begin with a dot, but it is a mnemonic
      have hword := firstWord_instruction a op operands
      rw [Row.firstWord, ← hmore] at hword
      have hhead : op.mnemonic.toList.head? = some '.' := by
        rw [← hword]
        rfl
      cases op <;> cases hhead

/-! ### The figures of a check -/

/-- How many bytes of the rows belong to instructions. -/
def lengthOfInstructions (rows : List Row) : Nat :=
  ((rows.filter fun r => !r.content.isData).map fun r => r.bytes.length).sum

/-- The bytes of rows are those of instructions and those that are not decoded. -/
theorem lengthOfInstructions_add (rows : List Row) :
    lengthOfInstructions rows + undecodedCount rows = (rows.flatMap Row.bytes).length := by
  induction rows with
  | nil => rfl
  | cons r rows ih =>
      rw [List.flatMap_cons, List.length_append, ← ih]
      obtain ⟨a, content⟩ := r
      cases content with
      | instruction op operands =>
          simp [lengthOfInstructions, undecodedCount, RowContent.isData]
          omega
      | data b =>
          simp [lengthOfInstructions, undecodedCount, RowContent.isData, Row.bytes,
            RowContent.bytes]
          omega

theorem undecodedCount_eq (rows : List Row) :
    undecodedCount rows = rows.countP Row.startsAsData := by
  rw [undecodedCount]
  refine List.countP_congr fun r _ => ?_
  rw [startsAsData_iff]

/-- The rows that are counted as instructions are all those that hold one. -/
theorem length_sub_undecodedCount (rows : List Row) :
    rows.length - undecodedCount rows = rows.countP fun r => !r.content.isData := by
  have hlen := List.length_eq_countP_add_countP (fun r : Row => r.content.isData) (l := rows)
  simp only [Bool.not_eq_true, Bool.decide_eq_false] at hlen
  rw [undecodedCount]
  omega

/-- **The rows of an image take it apart.**  Put together they are the image; the first one begins
at its beginning, and every other one where the one before it ends.  A row holds an opcode with as
many operands as this asks for, or one data byte; it holds a data byte exactly if no opcode stands at
its address, or one whose operands pass the end of the image.

So the figures of a check are right for every program: it counts as not decoded the rows whose text
starts like the one of a data byte, which are the rows that hold a data byte, and as instructions
all the others; and the lengths of these instructions, together with the bytes not decoded, are the
size of the program. -/
theorem disassembly_partitions_image (image : List UInt8) :
    (disassemble image).flatMap Row.bytes = image ∧
    (∀ row, (disassemble image)[0]? = some row → row.address = 0) ∧
    (∀ k row next, (disassemble image)[k]? = some row → (disassemble image)[k + 1]? = some next →
      next.address = row.address + row.bytes.length) ∧
    (∀ row ∈ disassemble image,
      ((∃ op operands, row.content = .instruction op operands ∧
          row.bytes = op.encode :: operands ∧ row.bytes.length = op.encodedLength) ∨
        ∃ b, row.content = .data b ∧ row.bytes = [b]) ∧
      (row.content.isData = true ↔ ∃ b, image[row.address]? = some b ∧
        ∀ op, Opcode.decode? b = some op → image.length < row.address + op.encodedLength)) ∧
    ∀ (program : Program) (p : Palette), program.bytes = image → ∃ instructions undecoded,
      checkReport p program = ⟨0,
        "✓ Syntax OK\n✓ " ++ program.size.repr ++ " bytes, " ++ instructions.repr ++
          " instructions\n",
        if 0 < undecoded then p.warning (undecoded.repr ++ " bytes do not decode as instructions")
        else ""⟩ ∧
      undecoded = (disassemble image).countP Row.startsAsData ∧
      undecoded = (disassemble image).countP (fun r => r.content.isData) ∧
      instructions = (disassemble image).countP (fun r => !r.content.isData) ∧
      lengthOfInstructions (disassemble image) + undecoded = program.size := by
  refine ⟨flatMap_bytes_rowsFrom 0 image, fun row hrow => ?_, fun k row next hrow hnext => ?_,
    fun row hmem => ?_, fun program p himage => ?_⟩
  · rw [← rowStart_of_getElem? hrow, rowStart_zero]
  · rw [← rowStart_of_getElem? hnext, rowStart_succ hrow]
  · obtain ⟨k, hrow⟩ := List.mem_iff_getElem?.1 hmem
    exact ⟨kind_of_getElem? hrow, isData_iff_of_getElem? hrow⟩
  · subst himage
    refine ⟨_, _, rfl, undecodedCount_eq _, rfl, length_sub_undecodedCount _, ?_⟩
    rw [lengthOfInstructions_add, disassemble, flatMap_bytes_rowsFrom, Program.length_bytes]

/-- A print, a byte that is no opcode, and a load that the end of the image cuts off. -/
theorem counts_one_instruction :
    disassemble [0x47, 0x00, 0xFF, 0x82] =
        [⟨0, .instruction .prn [0x00]⟩, ⟨2, .data 0xFF⟩, ⟨3, .data 0x82⟩] ∧
      (Program.ofBytes [0x47, 0x00, 0xFF, 0x82]).bytes = [0x47, 0x00, 0xFF, 0x82] ∧
      (∀ row next, (disassemble [0x47, 0x00, 0xFF, 0x82])[0]? = some row →
        (disassemble [0x47, 0x00, 0xFF, 0x82])[1]? = some next →
        row.address = 0 ∧ next.address = row.address + row.bytes.length) ∧
      RowContent.isData (.data 0x82) = true ∧
      ∃ instructions undecoded,
        checkReport .plain (Program.ofBytes [0x47, 0x00, 0xFF, 0x82]) = ⟨0,
          "✓ Syntax OK\n✓ 4 bytes, " ++ instructions.repr ++ " instructions\n",
          if 0 < undecoded then
            Palette.plain.warning (undecoded.repr ++ " bytes do not decode as instructions")
          else ""⟩ ∧
        instructions = 1 ∧ undecoded = 2 := by
  have hrows : disassemble [0x47, 0x00, 0xFF, 0x82] =
      [⟨0, .instruction .prn [0x00]⟩, ⟨2, .data 0xFF⟩, ⟨3, .data 0x82⟩] := by cbv
  obtain ⟨-, hfirst, hnext, hkinds, hcheck⟩ :=
    disassembly_partitions_image [0x47, 0x00, 0xFF, 0x82]
  have hbytes := Program.bytes_ofBytes [0x47, 0x00, 0xFF, 0x82]
  obtain ⟨instructions, undecoded, hreport, -, hundecoded, hinstructions, -⟩ :=
    hcheck _ .plain hbytes
  have hlast : ⟨3, .data 0x82⟩ ∈ disassemble [0x47, 0x00, 0xFF, 0x82] := by
    rw [hrows]
    exact List.mem_of_getElem? (i := 2) rfl
  have hdata := (hkinds _ hlast).2.2 ⟨0x82, rfl, by decide⟩
  rw [hrows] at hundecoded hinstructions
  exact ⟨hrows, hbytes, fun row next hrow hbehind =>
    ⟨hfirst row hrow, hnext 0 row next hrow hbehind⟩, hdata, instructions, undecoded, hreport,
    hinstructions, hundecoded⟩

end ByteMachine
