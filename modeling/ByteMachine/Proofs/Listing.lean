/-
**Listings are lossless.**

A listing shows a program in columns, one line for each row of its disassembly.  A column has the
width of what it holds or more, and an address has as many digits as it needs, so where a column
begins is not the same in all lines.  Still, every line can be taken apart: the number of the source
line is what stands at its end in digits, and the text of the row stands behind the address, which
ends at the first blank, and the bytes of the row, which are never more than their column holds.
The texts of the rows are the program.  Of the source lines a listing names those of the first bytes
of its rows, and no others.

A listing is written line by line; what a sink takes of it is what it takes of the whole text.

Main definitions:

* `ByteMachine.Listing.text` — the whole text of a listing;
* `ByteMachine.Listing.readRow` — the text and the number in a line.

Main results:

* `ByteMachine.Listing.readRow_rowChars` — **a line can be taken apart**;
* `ByteMachine.Listing.text_eq_text_iff` — which programs have the same listing;
* `ByteMachine.Listing.write_eq` — what is taken and how writing ends;
* `ByteMachine.Listing.listing_determines_program` — **a listing is complete and lossless**.
-/

import ByteMachine.Listing
import ByteMachine.Proofs.Disassembly.Assembler
import ByteMachine.Proofs.Sink

set_option relaxedAutoImplicit false
set_option autoImplicit false

namespace ByteMachine

variable {image : List UInt8} {row : Row}

/-! ### The columns of a row -/

theorem Opcode.isAlphanum_of_mem_mnemonic {op : Opcode} {c : Char}
    (h : c ∈ op.mnemonic.toList) : c.isAlphanum = true := by
  have hall : op.mnemonic.toList.all Char.isAlphanum = true := by cases op <;> decide
  exact List.all_eq_true.1 hall c h

/-- What the text of a row ends with: its last word, in letters and digits. -/
theorem RowContent.exists_lastWord (content : RowContent) :
    ∃ front word, content.text.toList = front ++ word ∧ '\n' ∉ front ∧ word ≠ [] ∧
      ∀ c ∈ word, c.isAlphanum = true := by
  have hrepr : ∀ n : Nat, n.repr.toList ≠ [] ∧ ∀ c ∈ n.repr.toList, c.isAlphanum = true := by
    refine fun n => ⟨?_, fun c => Numeral.isAlphanum_of_mem_repr⟩
    rw [Nat.toList_repr]
    exact Nat.toDigits_ne_nil
  have hregister : ∀ a : UInt8, '\n' ∉ (register a).toList := by
    intro a h
    rw [register, String.toList_append, List.mem_append] at h
    rcases h with h | h
    · exact absurd h (by decide)
    · exact absurd (Numeral.isAlphanum_of_mem_repr h) (by decide)
  have hmnemonic : ∀ op : Opcode, '\n' ∉ op.mnemonic.toList :=
    fun op h => absurd (Opcode.isAlphanum_of_mem_mnemonic h) (by decide)
  rw [RowContent.text.eq_def]
  split
  · rename_i a b
    exact ⟨("LDI " ++ register a ++ ", ").toList, b.toNat.repr.toList, by simp,
      by simp [hregister], hrepr _⟩
  · rename_i op a b _
    exact ⟨(op.mnemonic ++ " " ++ register a ++ ", R").toList, b.toNat.repr.toList,
      by simp [register], by simp [hregister, hmnemonic], hrepr _⟩
  · rename_i op a
    exact ⟨(op.mnemonic ++ " R").toList, a.toNat.repr.toList, by simp [register],
      by simp [hmnemonic], hrepr _⟩
  · rename_i op _ _ _ _
    exact ⟨[], op.mnemonic.toList, rfl, by simp, by cases op <;> decide,
      fun c => Opcode.isAlphanum_of_mem_mnemonic⟩
  · rename_i b
    have hlen : (Numeral.padded 2 8 b.toNat).length = 8 :=
      Numeral.length_padded (by decide) (by decide) b.toNat_lt
    refine ⟨".byte 0b".toList, Numeral.padded 2 8 b.toNat, by simp [Numeral.binaryByte], by simp,
      ?_, fun c => Numeral.isAlphanum_of_mem_padded (by decide) (by decide)⟩
    intro hnil
    rw [hnil] at hlen
    cases hlen

/-- A row holds at most three bytes. -/
theorem length_bytes_le_three (h : row ∈ disassemble image) : row.bytes.length ≤ 3 := by
  obtain ⟨k, hrow⟩ := List.mem_iff_getElem?.1 h
  rcases kind_of_getElem? hrow with ⟨op, operands, -, -, hlen⟩ | ⟨b, -, hbytes⟩
  · have hle := op.operandCount_le_two
    rw [Opcode.encodedLength] at hlen
    omega
  · rw [hbytes, List.length_singleton]
    omega

/-- Bytes in hexadecimal, with a blank between them. -/
def hexBytes (bs : List UInt8) : String := " ".intercalate (bs.map fun b => Numeral.hexByte b.toNat)

theorem hexBytes_cons_cons (b b' : UInt8) (bs : List UInt8) :
    hexBytes (b :: b' :: bs) = Numeral.hexByte b.toNat ++ " " ++ hexBytes (b' :: bs) :=
  String.intercalate_cons_cons

/-- Each of them takes two digits. -/
theorem length_hexBytes (bs : List UInt8) : (hexBytes bs).toList.length = 3 * bs.length - 1 := by
  induction bs with
  | nil => rfl
  | cons b bs ih =>
      cases bs with
      | nil => simpa [hexBytes] using Numeral.length_hexByte b
      | cons b' bs =>
          have hblank : " ".toList.length = 1 := rfl
          rw [hexBytes_cons_cons, String.toList_append, String.toList_append, List.length_append,
            List.length_append, Numeral.length_hexByte, hblank, ih]
          simp only [List.length_cons]
          omega

theorem newline_not_mem_hexBytes (bs : List UInt8) : '\n' ∉ (hexBytes bs).toList := by
  induction bs with
  | nil => decide
  | cons b bs ih =>
      cases bs with
      | nil => simpa [hexBytes] using Numeral.newline_not_mem_hexByte b.toNat
      | cons b' bs =>
          rw [hexBytes_cons_cons, String.toList_append, String.toList_append, List.mem_append,
            List.mem_append, not_or, not_or]
          exact ⟨⟨Numeral.newline_not_mem_hexByte b.toNat, by decide⟩, ih⟩

theorem Row.line_eq (r : Row) :
    r.line = Numeral.hexByte r.address ++ "  " ++ Text.column 9 (hexBytes r.bytes) ++ " " ++
      r.text := rfl

/-- The bytes of a row leave room in the column that they stand in. -/
theorem length_column_hexBytes (h : row ∈ disassemble image) :
    (Text.column 9 (hexBytes row.bytes)).toList.length = 9 := by
  have hle := length_bytes_le_three h
  rw [Text.toList_column, List.length_append, List.length_replicate, length_hexBytes]
  omega

namespace Listing

variable {file : String} {p p' : Program}

/-! ### Lines -/

/-- The characters of a line in front of its end. -/
def rowChars (p : Program) (row : Row) : List Char :=
  (Text.column 32 row.line).toList ++ " ; line ".toList ++
    Nat.toDigits 10 ((p.lineOf? row.address).getD 0)

theorem toList_rowLine (p : Program) (row : Row) :
    (rowLine p row).toList = rowChars p row ++ ['\n'] := by
  simp [rowLine, rowChars]

/-- The text of a row, from the line of it: what stands behind the address, two blanks, nine
characters for the bytes and one more blank, without the blanks at its end. -/
def readText (line : List Char) : List Char :=
  (((line.dropWhile (· ≠ ' ')).drop 12).reverse.dropWhile (· = ' ')).reverse

/-- **The text and the number in a line,** the number in digits. -/
def readRow (cs : List Char) : List Char × List Char :=
  (readText ((cs.reverse.dropWhile Char.isDigit).drop 8).reverse,
    (cs.reverse.takeWhile Char.isDigit).reverse)

theorem newline_not_mem_text (content : RowContent) : '\n' ∉ content.text.toList := by
  obtain ⟨front, word, htext, hfront, -, hword⟩ := content.exists_lastWord
  rw [htext, List.mem_append, not_or]
  exact ⟨hfront, fun h => absurd (hword _ h) (by decide)⟩

theorem newline_not_mem_column (row : Row) : '\n' ∉ (Text.column 32 row.line).toList := by
  have hbytes := newline_not_mem_hexBytes row.bytes
  have htext := newline_not_mem_text row.content
  have haddress := Numeral.newline_not_mem_hexByte row.address
  rw [Text.toList_column, List.mem_append, not_or]
  refine ⟨?_, fun h => absurd (List.eq_of_mem_replicate h) (by decide)⟩
  rw [Row.line_eq]
  simp only [String.toList_append, List.mem_append, Text.toList_column, List.mem_replicate, not_or,
    not_and]
  exact ⟨⟨⟨⟨haddress, by decide⟩, hbytes, fun _ => by decide⟩, by decide⟩, htext⟩

theorem newline_not_mem_rowChars (p : Program) (row : Row) : '\n' ∉ rowChars p row := by
  have hnumber : '\n' ∉ Nat.toDigits 10 ((p.lineOf? row.address).getD 0) := fun h =>
    absurd (Nat.isDigit_of_mem_toDigits (by decide) (by decide) h) (by decide)
  simp [rowChars, hnumber, newline_not_mem_column]

/-- The text of a row is found in its column. -/
theorem readText_column (h : row ∈ disassemble image) :
    readText (Text.column 32 row.line).toList = row.text.toList := by
  obtain ⟨front, word, htext, -, hne, hword⟩ := row.content.exists_lastWord
  have haddress : ∀ c ∈ (Numeral.hexByte row.address).toList, decide (c ≠ ' ') = true := by
    intro c hc
    rw [decide_eq_true_iff]
    rintro rfl
    exact absurd (Numeral.isAlphanum_of_mem_hexByte hc) (by decide)
  have hblank : ∀ c ∈ List.replicate (32 - row.line.toList.length) ' ', decide (c = ' ') = true :=
    fun c hc => decide_eq_true (List.eq_of_mem_replicate hc)
  have hstop : ∀ c ∈ row.text.toList.reverse.head?, decide (c = ' ') = false := by
    intro c hc
    rw [List.head?_reverse, Row.text, htext, List.getLast?_append_of_ne_nil _ hne] at hc
    rw [decide_eq_false_iff_not]
    rintro rfl
    exact absurd (hword _ (List.mem_of_getLast? hc)) (by decide)
  have hcolumn : (Text.column 32 row.line).toList = (Numeral.hexByte row.address).toList ++
      ((' ' :: ' ' :: (Text.column 9 (hexBytes row.bytes)).toList ++ [' ']) ++
        (row.text.toList ++ List.replicate (32 - row.line.toList.length) ' ')) := by
    rw [Text.toList_column]
    nth_rewrite 1 [Row.line_eq]
    simp
  have hwidth :
      (' ' :: ' ' :: (Text.column 9 (hexBytes row.bytes)).toList ++ [' ']).length = 12 := by
    simp [length_column_hexBytes h]
  rw [readText, hcolumn, dropWhile_word haddress (by simp), List.drop_left' hwidth,
    List.reverse_append, dropWhile_word ?_ hstop, List.reverse_reverse]
  exact fun c hc => hblank c (List.mem_reverse.1 hc)

theorem readRow_rowChars (p : Program) (h : row ∈ disassemble image) :
    readRow (rowChars p row) =
      (row.text.toList, Nat.toDigits 10 ((p.lineOf? row.address).getD 0)) := by
  have hdigits : ∀ c ∈ (Nat.toDigits 10 ((p.lineOf? row.address).getD 0)).reverse,
      c.isDigit = true := fun c hc =>
    Nat.isDigit_of_mem_toDigits (by decide) (by decide) (List.mem_reverse.1 hc)
  have hback : (rowChars p row).reverse =
      (Nat.toDigits 10 ((p.lineOf? row.address).getD 0)).reverse ++
        (" ; line ".toList.reverse ++ (Text.column 32 row.line).toList.reverse) := by
    simp [rowChars]
  have hbehind : ∀ c ∈ (" ; line ".toList.reverse ++
      (Text.column 32 row.line).toList.reverse).head?, c.isDigit = false := by
    simp
  rw [readRow, hback, takeWhile_word hdigits hbehind, dropWhile_word hdigits hbehind,
    List.reverse_reverse, List.drop_left' (by rfl), List.reverse_reverse, readText_column h]

/-! ### Texts -/

/-- Lines are found again in the text that they make. -/
theorem lines_eq_of_flatMap_eq {ls ls' : List (List Char)} (h : ∀ l ∈ ls, '\n' ∉ l)
    (h' : ∀ l ∈ ls', '\n' ∉ l)
    (heq : ls.flatMap (· ++ ['\n']) = ls'.flatMap (· ++ ['\n'])) : ls = ls' := by
  have hplain : ∀ l : List Char, '\n' ∉ l → ∀ c ∈ l, decide (c ≠ '\n') = true := fun l hl c hc =>
    decide_eq_true fun hnewline => hl (hnewline ▸ hc)
  have hend : ∀ cs : List Char, ∀ c ∈ (['\n'] ++ cs).head?, decide (c ≠ '\n') = false := by simp
  induction ls generalizing ls' with
  | nil =>
      cases ls' with
      | nil => rfl
      | cons l' ls' => simp at heq
  | cons l ls ih =>
      cases ls' with
      | nil => simp at heq
      | cons l' ls' =>
          obtain ⟨hl, hls⟩ := List.forall_mem_cons.1 h
          obtain ⟨hl', hls'⟩ := List.forall_mem_cons.1 h'
          rw [List.flatMap_cons, List.flatMap_cons, List.append_assoc, List.append_assoc] at heq
          have hfirst := congrArg (List.takeWhile (· ≠ '\n')) heq
          rw [takeWhile_word (hplain l hl) (hend _), takeWhile_word (hplain l' hl') (hend _)]
            at hfirst
          subst hfirst
          rw [ih hls hls' (List.append_cancel_left (List.append_cancel_left heq))]

/-- **The text of a listing.** -/
def text (file : String) (p : Program) : String := String.join (lines file p)

theorem text_eq (file : String) (p : Program) :
    text file p = "Disassembly of '" ++ file ++ "':\n" ++ "\n" ++
      String.join ((disassemble p.bytes).map (rowLine p)) := by
  rw [text, lines, String.join_cons, String.join_cons]
  simp only [String.append_assoc]

theorem toList_join_rowLine (p : Program) (rows : List Row) :
    (String.join (rows.map (rowLine p))).toList =
      (rows.map (rowChars p)).flatMap (· ++ ['\n']) := by
  simp [String.toList_join, List.flatMap_def, toList_rowLine, Function.comp_def]

/-- The first byte of a row was written on some line. -/
theorem exists_lineOf? (h : row ∈ disassemble p.bytes) : ∃ k, p.lineOf? row.address = some k := by
  obtain ⟨n, hrow⟩ := List.mem_iff_getElem?.1 h
  obtain ⟨before, byte, rest, himage, hrow, -⟩ := exists_split_of_getElem? hrow
  rw [← Option.isSome_iff_exists, Program.lineOf?_isSome_iff, ← Program.length_bytes, himage, hrow,
    List.length_append, List.length_cons]
  dsimp only
  omega

/-- What the lines of a listing show of a program. -/
theorem map_readRow_rowChars (p : Program) :
    ((disassemble p.bytes).map (rowChars p)).map readRow =
      (disassemble p.bytes).map fun row =>
        (row.text.toList, Nat.toDigits 10 ((p.lineOf? row.address).getD 0)) := by
  rw [List.map_map]
  exact List.map_congr_left fun row hrow => readRow_rowChars p hrow

/-- **Which programs have the same listing:** those with the same bytes and, at the addresses of
their rows, the same lines. -/
theorem text_eq_text_iff :
    text file p = text file p' ↔ p.bytes = p'.bytes ∧
      ∀ row ∈ disassemble p.bytes, p.lineOf? row.address = p'.lineOf? row.address := by
  constructor
  · intro h
    rw [text_eq, text_eq, String.append_right_inj, ← String.toList_inj, toList_join_rowLine,
      toList_join_rowLine] at h
    have hplain : ∀ q : Program, ∀ l ∈ (disassemble q.bytes).map (rowChars q), '\n' ∉ l := by
      intro q l hl
      obtain ⟨row, -, rfl⟩ := List.mem_map.1 hl
      exact newline_not_mem_rowChars q row
    have hrows := congrArg (List.map readRow)
      (lines_eq_of_flatMap_eq (hplain p) (hplain p') h)
    rw [map_readRow_rowChars, map_readRow_rowChars] at hrows
    have hbytes : p.bytes = p'.bytes := by
      have htexts := congrArg (List.map (String.ofList ∘ Prod.fst)) hrows
      simp only [List.map_map, Function.comp_def, String.ofList_toList] at htexts
      have himage := assembleAll?_disassemble p.bytes
      rw [show (disassemble p.bytes).map Row.text = _ from htexts,
        assembleAll?_disassemble] at himage
      exact (Option.some.inj himage).symm
    refine ⟨hbytes, fun row hrow => ?_⟩
    rw [← hbytes] at hrows
    have hnumber := congrArg Prod.snd (List.map_inj_left.1 hrows row hrow)
    obtain ⟨k, hk⟩ := exists_lineOf? hrow
    obtain ⟨k', hk'⟩ := exists_lineOf? (hbytes ▸ hrow)
    rw [hk, hk'] at hnumber ⊢
    exact congrArg some (Numeral.toDigits_injective (by decide) (by decide) hnumber)
  · rintro ⟨hbytes, hlines⟩
    have hrows : (disassemble p.bytes).map (rowLine p) = (disassemble p.bytes).map (rowLine p') :=
      List.map_congr_left fun row hrow => by rw [rowLine, rowLine, hlines row hrow]
    rw [text_eq, text_eq, ← hbytes, hrows]

/-! ### Writing -/

/-- Texts are taken as if they were one text. -/
theorem writeAll_eq (texts : List String) (s : Sink) :
    writeAll texts s =
      (if s.Fits (String.join texts) then .ok () else .error .closed,
        s.wrote (String.join texts)) := by
  induction texts generalizing s with
  | nil =>
      rw [writeAll, String.join_nil, if_pos s.fits_empty, Sink.wrote_empty]
  | cons text more ih =>
      rw [writeAll, Sink.write_eq, String.join_cons, Sink.wrote_append]
      by_cases htext : s.Fits text
      · rw [if_pos htext]
        simp only [ih, Sink.fits_append_iff, htext, true_and]
      · have hall : ¬s.Fits (text ++ String.join more) :=
          fun h => htext (Sink.fits_append_iff.1 h).1
        rw [if_neg htext, if_neg hall, Sink.wrote_of_not_fits htext]

/-- **What is taken of a listing,** and how writing it ends. -/
theorem write_eq (file : String) (p : Program) (s : Sink) :
    write file p s =
      (if s.Fits (text file p) then s.flush else .error .closed, s.wrote (text file p)) := by
  have hall : writeAll (lines file p) s =
      (if s.Fits (text file p) then .ok () else .error .closed, s.wrote (text file p)) :=
    writeAll_eq (lines file p) s
  rw [write, hall]
  by_cases h : s.Fits (text file p)
  · simp only [if_pos h, Sink.flush_wrote]
  · simp only [if_neg h]

/-- A sink without a limit takes the whole listing. -/
theorem write_of_unlimited (file : String) (p : Program) {s : Sink} (hroom : s.room = none)
    (hflush : s.flushFails = false) :
    write file p s = (.ok (), s.wrote (text file p)) ∧
      (s.wrote (text file p)).taken = s.taken ++ (text file p).toUTF8 := by
  have hfits := Sink.fits_of_unlimited hroom (text file p)
  refine ⟨?_, Sink.taken_wrote_of_fits hfits⟩
  rw [write_eq, if_pos hfits, Sink.flush, hflush]
  rfl

/-- An empty sink with a limit takes the listing up to its limit. -/
theorem write_of_limited (room : Nat) (flushFails : Bool) :
    (write file p ⟨.empty, some room, flushFails⟩).2.taken =
        (text file p).toUTF8.extract 0 (min room (text file p).utf8ByteSize) ∧
      ((write file p ⟨.empty, some room, flushFails⟩).1 = .ok () ↔
        (text file p).utf8ByteSize ≤ room ∧ flushFails = false) := by
  have hfits : Sink.Fits ⟨.empty, some room, flushFails⟩ (text file p) ↔
      (text file p).utf8ByteSize ≤ room := by
    simp [Sink.Fits]
  rw [write_eq]
  by_cases h : (text file p).utf8ByteSize ≤ room
  · have hsize : (text file p).utf8ByteSize = (text file p).toUTF8.size := rfl
    rw [if_pos (hfits.2 h), Sink.taken_wrote_of_fits (hfits.2 h), Nat.min_eq_right h, hsize,
      ByteArray.extract_zero_size]
    cases flushFails <;> simp [Sink.flush, h]
  · have hlt : room ≤ (text file p).utf8ByteSize := Nat.le_of_lt (Nat.lt_of_not_le h)
    rw [if_neg fun hf => h (hfits.1 hf), Sink.taken_wrote_of_room rfl, Nat.min_eq_left hlt]
    simp [h]

/-- **A listing is complete and lossless.**  It consists of a heading, an empty line and the lines
of the rows; each of these ends with the number of the line on which the first byte of the row was
written, and there always is one.  A sink without a limit that can be flushed takes all of it.  Two
programs have the same listing under one name exactly if they have the same bytes and the same line
at the address of every row.  A sink with a limit holds the first bytes of the listing, as many as
it has room for, and writing succeeds exactly if that is all and flushing does not fail. -/
theorem listing_determines_program (file : String) (p : Program) :
    (text file p = "Disassembly of '" ++ file ++ "':\n" ++ "\n" ++
      String.join ((disassemble p.bytes).map (rowLine p))) ∧
    (∀ row ∈ disassemble p.bytes, ∃ k, p.lineOf? row.address = some k ∧
      rowLine p row = Text.column 32 row.line ++ " ; line " ++ k.repr ++ "\n" ∧
      '\n' ∉ (Text.column 32 row.line).toList) ∧
    (∀ s : Sink, s.room = none → s.flushFails = false →
      write file p s = (.ok (), s.wrote (text file p)) ∧
        (s.wrote (text file p)).taken = s.taken ++ (text file p).toUTF8) ∧
    (∀ p' : Program, text file p = text file p' ↔ p.bytes = p'.bytes ∧
      ∀ row ∈ disassemble p.bytes, p.lineOf? row.address = p'.lineOf? row.address) ∧
    ∀ room flushFails,
      (write file p ⟨.empty, some room, flushFails⟩).2.taken =
          (text file p).toUTF8.extract 0 (min room (text file p).utf8ByteSize) ∧
        ((write file p ⟨.empty, some room, flushFails⟩).1 = .ok () ↔
          (text file p).utf8ByteSize ≤ room ∧ flushFails = false) := by
  refine ⟨text_eq file p, fun row hrow => ?_, fun s => write_of_unlimited file p,
    fun p' => text_eq_text_iff, write_of_limited⟩
  obtain ⟨k, hk⟩ := exists_lineOf? hrow
  exact ⟨k, hk, by rw [rowLine, hk, Option.getD_some], newline_not_mem_column row⟩

/-- A program of two rows, the first of which holds bytes of three lines. -/
def twoRows (second last : Nat) : Program := ⟨[⟨0x82, 2⟩, ⟨0, second⟩, ⟨8, 4⟩, ⟨1, last⟩]⟩

/-- Lines of operands are not in a listing, but those of opcodes are.  A sink without a limit takes
all 105 bytes of this one, and a sink with room for five bytes the beginning of its heading. -/
theorem operand_lines_are_not_listed :
    text "a" (twoRows 3 5) = text "a" (twoRows 9 5) ∧
    text "a" (twoRows 3 5) ≠ text "a" (twoRows 3 6) ∧
    (write "a" (twoRows 3 5) .unlimited).1 = .ok () ∧
    (write "a" (twoRows 3 5) (.limited 5)).2.taken = "Disas".toUTF8 ∧
    (write "a" (twoRows 3 5) (.limited 104)).1 ≠ .ok () ∧
    (write "a" (twoRows 3 5) (.limited 105)).1 = .ok () := by
  have hrows : disassemble (twoRows 3 5).bytes =
      [⟨0, .instruction .ldi [0, 8]⟩, ⟨3, .instruction .hlt []⟩] := by
    cbv
  have htext : text "a" (twoRows 3 5) = "Disassembly of 'a':\n\n" ++
      "00  82 00 08  LDI R0, 8          ; line 2\n" ++
      "03  01        HLT                ; line 5\n" := by
    rw [text_eq, hrows]
    decide
  obtain ⟨-, -, hwhole, hsame, htaken⟩ := listing_determines_program "a" (twoRows 3 5)
  rw [htext] at htaken
  refine ⟨(hsame _).2 ⟨rfl, ?_⟩, fun h => ?_, ?_, ?_, ?_, ?_⟩
  · rw [hrows]
    decide
  · have hlines := ((hsame _).1 h).2
    rw [hrows] at hlines
    exact absurd (hlines _ (List.mem_cons_of_mem _ List.mem_cons_self)) (by decide)
  · rw [(hwhole .unlimited rfl rfl).1]
  · exact (htaken 5 false).1.trans (by decide)
  · exact mt (htaken 104 false).2.1 (by decide)
  · exact (htaken 105 false).2.2 (by decide)

end Listing

end ByteMachine
