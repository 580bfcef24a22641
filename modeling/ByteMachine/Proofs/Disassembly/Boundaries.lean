/-
**Cutting an image between its rows.**

A disassembly is read from left to right, and only in one place does it ask for what is still to
come: an opcode near the end of the image is decoded if all its operands are there.  So bytes put
behind an image can change the rows that it had, but only by completing an opcode that its end has
cut off.  Where nothing is cut off, image and bytes are taken apart on their own; and the beginning
of any row cuts an image into two that have its rows between them.

Main definitions:

* `ByteMachine.Row.CompletedIn` — an opcode that was cut off has all its operands in an image of
  another length.

Main results:

* `ByteMachine.rowsFrom_add` — where an image begins moves its rows and does nothing else;
* `ByteMachine.rowsFrom_append` — **the rows of an image with bytes behind it**;
* `ByteMachine.rowsFrom_take_of_getElem?`, `drop_rowsFrom_of_getElem?` — the rows in front of a row
  and from it on;
* `ByteMachine.disassembly_cuts_at_rows` — **a disassembly can be cut where a row begins**.
-/

import ByteMachine.Proofs.Disassembly.Rows

set_option relaxedAutoImplicit false
set_option autoImplicit false

namespace ByteMachine

variable {image rest more : List UInt8} {byte : UInt8} {a k n : Nat} {row : Row}

/-- **The row is the byte of an opcode whose operands lie within an image of `n` bytes.**  In a
shorter image it can have been cut off. -/
def Row.CompletedIn (r : Row) (n : Nat) : Prop :=
  ∃ byte op, r.content = .data byte ∧ Opcode.decode? byte = some op ∧
    r.address + op.encodedLength ≤ n

/-- Only an opcode that was cut off is completed. -/
theorem Row.CompletedIn.cutOff (h : row.CompletedIn n) : row.content.CutOff := by
  obtain ⟨byte, op, hcontent, hdecode, -⟩ := h
  exact ⟨byte, op, hcontent, hdecode⟩

/-! ### Moving an image -/

/-- **Where an image begins moves its rows,** and does nothing else. -/
theorem rowsFrom_add (a n : Nat) (image : List UInt8) :
    rowsFrom (a + n) image = (rowsFrom a image).map (·.shift n) := by
  fun_induction rowsFrom a image with
  | case1 a => rw [rowsFrom_nil, List.map_nil]
  | case2 a byte rest content operands ih =>
      rw [rowsFrom_cons, List.map_cons, ← ih]
      congr 2
      change a + n + 1 + operands = a + 1 + operands + n
      omega

theorem rowsFrom_eq_map_disassemble (a : Nat) (image : List UInt8) :
    rowsFrom a image = (disassemble image).map (·.shift a) := by
  rw [disassemble, ← rowsFrom_add, Nat.zero_add]

/-! ### Bytes behind an image -/

/-- The first row does not change with bytes behind it that complete no opcode. -/
theorem firstRow_append (h : ∀ op, firstRow byte rest = .data byte →
      Opcode.decode? byte = some op → rest.length + more.length < op.operandCount) :
    firstRow byte (rest ++ more) = firstRow byte rest := by
  cases hcontent : firstRow byte rest with
  | instruction op operands =>
      obtain ⟨hbyte, hlen, hoperands⟩ := firstRow_eq_instruction_iff.1 hcontent
      refine firstRow_eq_instruction_iff.2 ⟨hbyte, ?_, ?_⟩
      · rw [List.length_append]
        omega
      · rw [List.take_append_of_le_length hlen, hoperands]
  | data b =>
      obtain ⟨rfl, -⟩ := firstRow_eq_data_iff.1 hcontent
      refine firstRow_eq_data_iff.2 ⟨rfl, fun op hop => ?_⟩
      rw [List.length_append]
      exact h op hcontent hop

/-- Nor does it change with fewer bytes behind it, if its own are still there. -/
theorem firstRow_take (h : (firstRow byte rest).bytes.length ≤ n + 1) :
    firstRow byte (rest.take n) = firstRow byte rest := by
  cases hcontent : firstRow byte rest with
  | instruction op operands =>
      rw [hcontent] at h
      obtain ⟨hbyte, hlen, rfl⟩ := firstRow_eq_instruction_iff.1 hcontent
      rw [RowContent.bytes, List.length_cons, List.length_take] at h
      have hle : op.operandCount ≤ n := by omega
      refine firstRow_eq_instruction_iff.2 ⟨hbyte, ?_, ?_⟩
      · rw [List.length_take]
        omega
      · rw [List.take_take, Nat.min_eq_left hle]
  | data b =>
      obtain ⟨rfl, hcut⟩ := firstRow_eq_data_iff.1 hcontent
      refine firstRow_eq_data_iff.2 ⟨rfl, fun op hop => ?_⟩
      exact Nat.lt_of_le_of_lt (List.length_take_le' n rest) (hcut op hop)

/-- **The rows of an image with bytes behind it** that complete no opcode. -/
theorem rowsFrom_append (h : ∀ row ∈ rowsFrom a image,
      ¬row.CompletedIn (a + image.length + more.length)) :
    rowsFrom a (image ++ more) = rowsFrom a image ++ rowsFrom (a + image.length) more := by
  -- induction on the rows of the image; what is left behind the first one has the same end
  fun_induction rowsFrom a image with
  | case1 a => rfl
  | case2 a byte rest content operands ih =>
      have hlen := length_bytes_firstRow byte rest
      have hfirst : firstRow byte (rest ++ more) = firstRow byte rest := by
        refine firstRow_append fun op hcontent hop => Nat.lt_of_not_le fun hle => ?_
        refine h _ List.mem_cons_self ⟨byte, op, hcontent, hop, ?_⟩
        rw [List.length_cons, Opcode.encodedLength]
        dsimp only
        omega
      have hoperands : operands ≤ rest.length := by
        change (firstRow byte rest).bytes.length - 1 ≤ rest.length
        omega
      have hend : a + 1 + operands + (rest.drop operands).length = a + (byte :: rest).length := by
        rw [List.length_drop, List.length_cons]
        omega
      rw [hend] at ih
      rw [List.cons_append, rowsFrom_cons, hfirst, List.drop_append_of_le_length hoperands,
        ih fun row hrow => h row (List.mem_cons_of_mem _ hrow)]
      rfl

/-- **An opcode that is completed does not keep its row.** -/
theorem not_completedIn_of_getElem? (h : (rowsFrom a image)[k]? = some row) :
    ¬row.CompletedIn (a + image.length) := by
  rintro ⟨b, op, hcontent, hdecode, hle⟩
  obtain ⟨before, byte, rest, rfl, rfl, -⟩ := exists_split_of_getElem? h
  obtain ⟨rfl, hcut⟩ := firstRow_eq_data_iff.1 hcontent
  have hlt := hcut op hdecode
  rw [List.length_append, List.length_cons, Opcode.encodedLength] at hle
  dsimp only at hle
  omega

/-! ### The two sides of a row -/

/-- **The rows from a row on** are those of the bytes from its address on. -/
theorem drop_rowsFrom_of_getElem? (h : (rowsFrom a image)[k]? = some row) :
    (rowsFrom a image).drop k = rowsFrom row.address (image.drop (row.address - a)) := by
  obtain ⟨before, byte, rest, himage, hrow, hdrop⟩ := exists_split_of_getElem? h
  have hlen := length_bytes_firstRow byte rest
  have haddress : row.address = a + before.length := congrArg Row.address hrow
  have hbytes : row.bytes = (firstRow byte rest).bytes := congrArg Row.bytes hrow
  have hrest : image.drop (row.address - a) = byte :: rest := by
    rw [haddress, Nat.add_sub_cancel_left, himage, List.drop_left]
  have hfirst : row = ⟨row.address, firstRow byte rest⟩ := by rw [haddress, hrow]
  have hbehind : row.address + (firstRow byte rest).bytes.length =
      row.address + 1 + ((firstRow byte rest).bytes.length - 1) := by omega
  rw [List.drop_eq_getElem?_toList_append, h, hdrop, hrest, rowsFrom_cons, hbytes, ← hbehind,
    ← hfirst]
  rfl

/-- **The rows in front of a row** are those of the bytes in front of it. -/
theorem rowsFrom_take_of_getElem? (h : (rowsFrom a image)[k]? = some row) :
    (rowsFrom a image).take k = rowsFrom a (image.take (row.address - a)) := by
  -- induction on the number of the row; the first row ends in front of it, so it stays
  induction k generalizing a image with
  | zero =>
      cases image with
      | nil => rw [List.take_nil, rowsFrom_nil, List.take_nil]
      | cons byte rest =>
          rw [rowsFrom_cons] at h
          have haddress : a = row.address := congrArg Row.address (Option.some.inj h)
          rw [haddress, Nat.sub_self, List.take_zero, List.take_zero, rowsFrom_nil]
  | succ k ih =>
      cases image with
      | nil =>
          rw [rowsFrom_nil] at h
          cases h
      | cons byte rest =>
          have hlen := length_bytes_firstRow byte rest
          rw [rowsFrom_cons, List.getElem?_cons_succ] at h
          obtain ⟨before, _, _, _, hrow, -⟩ := exists_split_of_getElem? h
          have haddress : row.address =
              a + 1 + ((firstRow byte rest).bytes.length - 1) + before.length :=
            congrArg Row.address hrow
          have hfirst : firstRow byte (rest.take (row.address - a - 1)) = firstRow byte rest :=
            firstRow_take (by omega)
          have hfront : row.address - a = row.address - a - 1 + 1 := by omega
          rw [rowsFrom_cons, List.take_succ_cons, ih h, hfront, List.take_succ_cons,
            rowsFrom_cons, hfirst, List.drop_take]
          congr 3
          omega

/-! ### Disassembling pieces -/

/-- **A disassembly can be cut where a row begins.**  If an image cuts off no opcode, then with
bytes behind it it has its own rows and those of the bytes, moved behind it; and this is so exactly
if the bytes complete no opcode that the image cuts off.  Every row of an image cuts it in this way:
the rows from it on are those of the bytes from its address on, moved there, and the rows in front
of it are those of the bytes in front of it. -/
theorem disassembly_cuts_at_rows :
    (∀ image more : List UInt8, (∀ row ∈ disassemble image, ¬row.content.CutOff) →
      disassemble (image ++ more) =
        disassemble image ++ (disassemble more).map (·.shift image.length)) ∧
    (∀ image more : List UInt8,
      disassemble (image ++ more) =
          disassemble image ++ (disassemble more).map (·.shift image.length) ↔
        ∀ row ∈ disassemble image, ¬row.CompletedIn (image.length + more.length)) ∧
    ∀ (image : List UInt8) (k : Nat) (row : Row), (disassemble image)[k]? = some row →
      (disassemble image).drop k =
          (disassemble (image.drop row.address)).map (·.shift row.address) ∧
        (disassemble image).take k = disassemble (image.take row.address) := by
  have happend : ∀ image more : List UInt8,
      (∀ row ∈ disassemble image, ¬row.CompletedIn (image.length + more.length)) →
      disassemble (image ++ more) =
        disassemble image ++ (disassemble more).map (·.shift image.length) := by
    intro image more h
    rw [← rowsFrom_eq_map_disassemble, ← Nat.zero_add image.length]
    refine rowsFrom_append fun row hrow => ?_
    rw [Nat.zero_add]
    exact h row hrow
  refine ⟨fun image more h => happend image more fun row hrow hcompleted =>
      h row hrow hcompleted.cutOff,
    fun image more => ⟨fun heq row hmem => ?_, happend image more⟩,
    fun image k row hrow => ⟨?_, ?_⟩⟩
  · obtain ⟨k, hrow⟩ := List.mem_iff_getElem?.1 hmem
    have hkept : (rowsFrom 0 (image ++ more))[k]? = some row := by
      rw [← disassemble, heq, List.getElem?_append_left (List.getElem?_eq_some_iff.1 hrow).1, hrow]
    have hnot := not_completedIn_of_getElem? hkept
    rwa [Nat.zero_add, List.length_append] at hnot
  · rw [disassemble, drop_rowsFrom_of_getElem? hrow, Nat.sub_zero, rowsFrom_eq_map_disassemble]
  · rw [disassemble, rowsFrom_take_of_getElem? hrow, Nat.sub_zero, disassemble]

/-- A print and a byte that is no opcode cut nothing off, so the load behind them gets rows of its
own; but the opcode of a load is completed by the operands behind it. -/
theorem cuts_in_front_of_load :
    disassemble ([0x47, 0x00, 0xFF] ++ [0x82, 0x00, 0x08]) =
        disassemble [0x47, 0x00, 0xFF] ++ (disassemble [0x82, 0x00, 0x08]).map (·.shift 3) ∧
      disassemble ([0x82] ++ [0x00, 0x08]) ≠
        disassemble [0x82] ++ (disassemble [0x00, 0x08]).map (·.shift 1) ∧
      (disassemble [0x47, 0x00, 0xFF]).drop 1 = (disassemble [0xFF]).map (·.shift 2) ∧
      (disassemble [0x47, 0x00, 0xFF]).take 1 = disassemble [0x47, 0x00] := by
  have hrows : disassemble [0x47, 0x00, 0xFF] =
      [⟨0, .instruction .prn [0x00]⟩, ⟨2, .data 0xFF⟩] := by cbv
  have hload : disassemble [0x82] = [⟨0, .data 0x82⟩] := by cbv
  obtain ⟨happend, hexact, hcut⟩ := disassembly_cuts_at_rows
  have hmiddle : (disassemble [0x47, 0x00, 0xFF])[1]? = some ⟨2, .data 0xFF⟩ := by
    rw [hrows]
    rfl
  refine ⟨happend _ _ fun row hmem => ?_, fun heq => ?_, hcut _ 1 _ hmiddle⟩
  · rw [hrows, List.mem_cons, List.mem_singleton] at hmem
    rintro ⟨byte, op, hcontent, hdecode⟩
    obtain rfl | rfl := hmem
    · cases hcontent
    · cases hcontent
      exact absurd hdecode (by decide +revert)
  · refine (hexact [0x82] [0x00, 0x08]).1 heq ⟨0, .data 0x82⟩ (hload ▸ List.mem_singleton.2 rfl) ?_
    exact ⟨0x82, .ldi, rfl, by decide, by decide⟩

end ByteMachine
