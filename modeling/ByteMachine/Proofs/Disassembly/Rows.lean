/-
**The rows of an image.**

A disassembly is found by cutting rows off an image, one after another.  Here a row is looked up by
its number instead, and what is known of it is said in terms of the image: which bytes stand in
front of it, which it holds, and that the rows behind it are those of the bytes behind it.

Main definitions:

* `ByteMachine.rowStart` — where the row of a number begins;
* `ByteMachine.RowContent.CutOff` — an opcode whose operands pass the end of the image;
* `ByteMachine.Row.firstWord` — the first word of a row's text.

Main results:

* `ByteMachine.firstRow_eq_instruction_iff`, `firstRow_eq_data_iff` — when the first row is an
  instruction and when it is a data byte;
* `ByteMachine.exists_split_of_getElem?` — **the row of a number, in the image**;
* `ByteMachine.rowStart_succ` — a row begins where the one before it ends;
* `ByteMachine.mnemonic_eq_firstWord_iff` — the text of an instruction row names its opcode.
-/

import ByteMachine.Disassembly

set_option relaxedAutoImplicit false
set_option autoImplicit false

namespace ByteMachine

variable {image rest : List UInt8} {byte : UInt8} {a k : Nat} {row : Row}

/-! ### The first row -/

/-- The content is the byte of an opcode, not decoded because its operands are not all there. -/
def RowContent.CutOff (content : RowContent) : Prop :=
  ∃ byte opcode, content = .data byte ∧ Opcode.decode? byte = some opcode

theorem firstRow_of_decode? {op : Opcode} (h : Opcode.decode? byte = some op) :
    firstRow byte rest =
      if op.operandCount ≤ rest.length then .instruction op (rest.take op.operandCount)
      else .data byte := by
  have hmin : min op.operandCount rest.length = op.operandCount ↔
      op.operandCount ≤ rest.length := by omega
  simp only [firstRow, h, List.length_take, hmin]

/-- The first row is an instruction if its operands are all there. -/
theorem firstRow_eq_instruction_iff {op : Opcode} {operands : List UInt8} :
    firstRow byte rest = .instruction op operands ↔
      byte = op.encode ∧ op.operandCount ≤ rest.length ∧ operands = rest.take op.operandCount := by
  rw [← Opcode.decode?_eq_some_iff]
  cases hdecode : Opcode.decode? byte with
  | none => simp [firstRow, hdecode]
  | some op' =>
      rw [firstRow_of_decode? hdecode]
      split
      · rename_i hlen
        rw [RowContent.instruction.injEq, Option.some.injEq]
        constructor
        · rintro ⟨rfl, rfl⟩
          exact ⟨rfl, hlen, rfl⟩
        · rintro ⟨rfl, -, rfl⟩
          exact ⟨rfl, rfl⟩
      · rename_i hlen
        simp only [reduceCtorEq, Option.some.injEq, false_iff]
        rintro ⟨rfl, hle, -⟩
        exact hlen hle

/-- It is a data byte if the byte is no opcode, or one whose operands are not all there. -/
theorem firstRow_eq_data_iff {b : UInt8} :
    firstRow byte rest = .data b ↔
      b = byte ∧ ∀ op, Opcode.decode? byte = some op → rest.length < op.operandCount := by
  cases hdecode : Opcode.decode? byte with
  | none => simp [firstRow, hdecode, eq_comm]
  | some op =>
      rw [firstRow_of_decode? hdecode]
      by_cases hlen : op.operandCount ≤ rest.length
      · simp [hlen]
      · simp [hlen, Nat.lt_of_not_le hlen, eq_comm]

/-- A row holds its first byte and some of those behind it. -/
theorem length_bytes_firstRow (byte : UInt8) (rest : List UInt8) :
    1 ≤ (firstRow byte rest).bytes.length ∧
      (firstRow byte rest).bytes.length ≤ rest.length + 1 := by
  obtain ⟨n, hbytes⟩ := bytes_firstRow byte rest
  rw [hbytes, List.length_cons, List.length_take]
  omega

/-! ### The row of a number -/

/-- **The row of a number, in the image:** it begins with the byte at its address, and the rows
behind it are those of the bytes behind it. -/
theorem exists_split_of_getElem? (h : (rowsFrom a image)[k]? = some row) :
    ∃ before byte rest, image = before ++ byte :: rest ∧
      row = ⟨a + before.length, firstRow byte rest⟩ ∧
      (rowsFrom a image).drop (k + 1) =
        rowsFrom (row.address + row.bytes.length) (rest.drop (row.bytes.length - 1)) := by
  -- induction on the number; the rows behind the first are those of a shorter image
  induction k generalizing a image with
  | zero =>
      cases image with
      | nil =>
          rw [rowsFrom_nil] at h
          cases h
      | cons byte rest =>
          have hlen := length_bytes_firstRow byte rest
          rw [rowsFrom_cons] at h ⊢
          obtain rfl := Option.some.inj h
          refine ⟨[], byte, rest, rfl, rfl, ?_⟩
          rw [Nat.zero_add, List.drop_one, List.tail_cons, Row.bytes]
          congr 1
          dsimp only
          omega
  | succ k ih =>
      cases image with
      | nil =>
          rw [rowsFrom_nil] at h
          cases h
      | cons byte rest =>
          have hlen := length_bytes_firstRow byte rest
          rw [rowsFrom_cons] at h ⊢
          rw [List.getElem?_cons_succ] at h
          obtain ⟨before, byte', rest', himage, hrow, hdrop⟩ := ih h
          generalize (firstRow byte rest).bytes.length = len at *
          refine ⟨byte :: (rest.take (len - 1) ++ before), byte', rest', ?_, ?_, ?_⟩
          · rw [List.cons_append, List.append_assoc, ← himage, List.take_append_drop]
          · rw [hrow, List.length_cons, List.length_append, List.length_take]
            congr 1
            omega
          · rw [List.drop_succ_cons, hdrop]

/-- **Where the row of a number begins;** behind the last row, where the image ends. -/
def rowStart (image : List UInt8) (k : Nat) : Nat :=
  ((disassemble image)[k]?.map (·.address)).getD image.length

theorem rowStart_of_getElem? (h : (disassemble image)[k]? = some row) :
    rowStart image k = row.address := by
  rw [rowStart, h]
  rfl

theorem rowStart_zero (image : List UInt8) : rowStart image 0 = 0 := by
  cases image with
  | nil => rw [rowStart, disassemble, rowsFrom_nil]; rfl
  | cons byte rest => rw [rowStart, disassemble, rowsFrom_cons]; rfl

/-- A row begins where the one before it ends. -/
theorem rowStart_succ (h : (disassemble image)[k]? = some row) :
    rowStart image (k + 1) = row.address + row.bytes.length := by
  obtain ⟨before, byte, rest, himage, hrow, hdrop⟩ := exists_split_of_getElem? h
  have hlen := length_bytes_firstRow byte rest
  have hbytes : row.bytes = (firstRow byte rest).bytes := congrArg Row.bytes hrow
  have haddress : row.address = before.length := by rw [hrow, Nat.zero_add]
  rw [rowStart, disassemble, ← List.head?_drop, hdrop]
  cases hbehind : rest.drop (row.bytes.length - 1) with
  | nil =>
      have hle := List.drop_eq_nil_iff.1 hbehind
      rw [rowsFrom_nil, List.head?_nil, Option.map_none, Option.getD_none, himage,
        List.length_append, List.length_cons, haddress, hbytes] at *
      omega
  | cons b bs =>
      rw [rowsFrom_cons]
      rfl

/-- An instruction row is as long as its instruction. -/
theorem length_bytes_of_instruction {op : Opcode} {operands : List UInt8}
    (hrow : (disassemble image)[k]? = some row)
    (hcontent : row.content = .instruction op operands) :
    row.bytes.length = op.encodedLength := by
  obtain ⟨before, byte, rest, rfl, rfl, -⟩ := exists_split_of_getElem? hrow
  obtain ⟨-, hlen, rfl⟩ := firstRow_eq_instruction_iff.1 hcontent
  rw [Row.bytes, hcontent, RowContent.bytes, List.length_cons, List.length_take,
    Nat.min_eq_left hlen, Opcode.encodedLength, Nat.add_comm]

/-! ### The text of a row -/

/-- The first word of the text of a row. -/
def Row.firstWord (r : Row) : List Char := r.text.toList.takeWhile (· ≠ ' ')

/-- A word goes up to the first character that is none of its kind. -/
theorem takeWhile_word {w cs : List Char} {p : Char → Bool} (hword : ∀ c ∈ w, p c = true)
    (hbehind : ∀ c ∈ cs.head?, p c = false) : (w ++ cs).takeWhile p = w := by
  rw [List.takeWhile_append_of_pos hword]
  cases cs with
  | nil => simp
  | cons c cs =>
      have hstop : p c = false := hbehind c rfl
      simp [hstop]

/-- What stands behind it is left over. -/
theorem dropWhile_word {w cs : List Char} {p : Char → Bool} (hword : ∀ c ∈ w, p c = true)
    (hbehind : ∀ c ∈ cs.head?, p c = false) : (w ++ cs).dropWhile p = cs := by
  rw [List.dropWhile_append_of_pos hword]
  cases cs with
  | nil => rfl
  | cons c cs =>
      have hstop : p c = false := hbehind c rfl
      simp [hstop]

theorem Opcode.ne_blank_of_mem_mnemonic {op : Opcode} {c : Char} (h : c ∈ op.mnemonic.toList) :
    decide (c ≠ ' ') = true := by
  have hno : ' ' ∉ op.mnemonic.toList := by cases op <;> decide
  rw [decide_eq_true_iff]
  rintro rfl
  exact hno h

theorem Opcode.mnemonic_injective {op op' : Opcode}
    (h : op.mnemonic.toList = op'.mnemonic.toList) : op = op' := by
  cases op <;> cases op' <;> first | rfl | exact absurd h (by decide)

theorem firstWord_instruction (a : Nat) (op : Opcode) (operands : List UInt8) :
    Row.firstWord ⟨a, .instruction op operands⟩ = op.mnemonic.toList := by
  have hword : ∀ c ∈ op.mnemonic.toList, decide (c ≠ ' ') = true :=
    fun c => Opcode.ne_blank_of_mem_mnemonic
  have hblank : ∀ c ∈ some ' ', decide (c ≠ ' ') = false := by simp
  rw [Row.firstWord, Row.text, RowContent.text.eq_def]
  split
  · rename_i heq
    cases heq
    simp only [String.toList_append]
    exact takeWhile_word (w := Opcode.ldi.mnemonic.toList) hword hblank
  · rename_i heq
    cases heq
    simp only [String.toList_append, List.append_assoc]
    exact takeWhile_word hword hblank
  · rename_i heq
    cases heq
    simp only [String.toList_append, List.append_assoc]
    exact takeWhile_word hword hblank
  · rename_i heq
    cases heq
    have hnone : ∀ c ∈ ([] : List Char).head?, decide (c ≠ ' ') = false := by simp
    have htake := takeWhile_word hword hnone
    rwa [List.append_nil] at htake
  · rename_i heq
    cases heq

/-- **The text of an instruction row names its opcode,** and no other. -/
theorem mnemonic_eq_firstWord_iff {op : Opcode} {operands : List UInt8}
    (h : row.content = .instruction op operands) {op' : Opcode} :
    op'.mnemonic.toList = row.firstWord ↔ op' = op := by
  obtain ⟨address, content⟩ := row
  cases h
  rw [firstWord_instruction]
  exact ⟨Opcode.mnemonic_injective, fun h => h ▸ rfl⟩

end ByteMachine
