/-
**The disassembly shows what the machine does.**

The disassembly and the machine walk over the same bytes and know nothing of each other: one cuts a
list, the other reads memory at its program counter.  Where memory holds an image and the program
counter stands at a row of it, both find the same instruction with the same operands, and both go on
behind it at the same address.  A data byte of the disassembly is one that the machine refuses, or
an opcode that the end of the image cuts off.

Main definitions:

* `ByteMachine.Machine.Holds` — memory holds an image;
* `ByteMachine.Instruction.row` — the row that shows an instruction;
* `ByteMachine.Machine.StepsAs` — what the machine does at a row.

Main results:

* `ByteMachine.Machine.fetch_of_instruction_row`, `fetch_of_data_row` — what is fetched at a row;
* `ByteMachine.Machine.straight_rows` — a straight line from the beginning walks over the rows;
* `ByteMachine.Machine.disassembly_agrees_with_steps` — **the rows are what the machine executes**.
-/

import ByteMachine.Proofs.Disassembly.Rows
import ByteMachine.Proofs.Machine.Precedence
import ByteMachine.Proofs.Machine.StraightLine

set_option relaxedAutoImplicit false
set_option autoImplicit false

namespace ByteMachine

/-- **The row that shows an instruction:** its address, its opcode, and the operands it asks for. -/
def Instruction.row (i : Instruction) : Row :=
  ⟨i.address,
    .instruction i.opcode (([i.first?, i.second?].take i.opcode.operandCount).filterMap id)⟩

namespace Machine

/-- Memory holds the image from address zero on. -/
def Holds (m : Machine) (image : List UInt8) : Prop :=
  ∀ a < image.length, m.memory.peek a = image[a]?

variable {m m' : Machine} {s : Sinks} {i : Instruction} {image : List UInt8} {k : Nat} {row : Row}

/-- Memory holds what has been loaded. -/
theorem holds_of_load (h : m.load image = .ok m') : m'.Holds image := by
  intro a ha
  unfold load at h
  split at h
  · rename_i memory hload
    obtain rfl := Except.ok.inj h
    rw [Memory.peek_load hload, if_pos ha]
  · cases h

/-! ### Fetching at a row -/

/-- What memory holds from a place in the image on. -/
theorem Holds.peek {before rest : List UInt8} (hm : m.Holds (before ++ rest)) {j : Nat}
    (hj : j < rest.length) : m.memory.peek (before.length + j) = rest[j]? := by
  have hlt : before.length + j < (before ++ rest).length := by
    rw [List.length_append]
    omega
  rw [hm _ hlt, List.getElem?_append_right (Nat.le_add_right _ _), Nat.add_sub_cancel_left]

/-- The operands that are looked at are those of the row, as far as the row has any. -/
theorem filterMap_take_pair {x y : Option UInt8} {rest : List UInt8} {n : Nat} (hn : n ≤ 2)
    (hlen : n ≤ rest.length) (hx : 0 < rest.length → x = rest[0]?)
    (hy : 1 < rest.length → y = rest[1]?) : ([x, y].take n).filterMap id = rest.take n := by
  match n, rest with
  | 0, _ => rfl
  | 1, a :: cs =>
      rw [hx (Nat.zero_lt_succ _)]
      rfl
  | 2, a :: b :: cs =>
      rw [hx (Nat.zero_lt_succ _), hy (by simp)]
      rfl
  | 1, [] => cases hlen
  | 2, [] => cases hlen
  | 2, [_] => exact absurd hlen (Nat.not_succ_le_self 1)

/-- **At an instruction row that instruction is fetched.** -/
theorem fetch_of_instruction_row {op : Opcode} {operands : List UInt8}
    (hrow : (disassemble image)[k]? = some row) (hcontent : row.content = .instruction op operands)
    (hm : m.Holds image) (hpc : m.pc = row.address) :
    ∃ i, m.fetch = .ok i ∧ i.opcode = op ∧ i.row = row := by
  obtain ⟨before, byte, rest, rfl, rfl, -⟩ := exists_split_of_getElem? hrow
  obtain ⟨rfl, hlen, rfl⟩ := firstRow_eq_instruction_iff.1 hcontent
  have hplace : m.pc = before.length := by rw [hpc, Nat.zero_add]
  have hbyte : m.memory.peek m.pc = some op.encode := by
    rw [hplace]
    exact hm.peek (j := 0) (Nat.zero_lt_succ _)
  have hbehind : ∀ j < rest.length, m.memory.peek (m.pc + (j + 1)) = rest[j]? := by
    intro j hj
    rw [hplace, hm.peek (Nat.succ_lt_succ hj), List.getElem?_cons_succ]
  refine ⟨⟨op, m.pc, m.memory.peek (m.pc + 1), m.memory.peek (m.pc + 2)⟩,
    fetch_eq_ok_iff.2 ⟨hbyte, rfl, rfl, rfl⟩, rfl, ?_⟩
  have hoperands : ([m.memory.peek (m.pc + 1), m.memory.peek (m.pc + 2)].take
      op.operandCount).filterMap id = rest.take op.operandCount :=
    filterMap_take_pair op.operandCount_le_two hlen (hbehind 0) (hbehind 1)
  rw [Instruction.row, hoperands, hpc, firstRow_eq_instruction_iff.2 ⟨rfl, hlen, rfl⟩]

/-- **At a data row nothing is fetched,** or an opcode whose operands pass the end of the image. -/
theorem fetch_of_data_row {b : UInt8} (hrow : (disassemble image)[k]? = some row)
    (hcontent : row.content = .data b) (hm : m.Holds image) (hpc : m.pc = row.address) :
    Opcode.decode? b = none ∧
        m.fetch = .error
          (if Shape.isAlu b then .unsupportedAluOperation b m.pc else .illegalInstruction b m.pc) ∨
      ∃ i, m.fetch = .ok i ∧ Opcode.decode? b = some i.opcode ∧
        image.length < m.pc + i.opcode.encodedLength := by
  obtain ⟨before, byte, rest, rfl, rfl, -⟩ := exists_split_of_getElem? hrow
  obtain ⟨rfl, hcut⟩ := firstRow_eq_data_iff.1 hcontent
  have hplace : m.pc = before.length := by rw [hpc, Nat.zero_add]
  have hbyte : m.memory.peek m.pc = some b := by
    rw [hplace]
    exact hm.peek (j := 0) (Nat.zero_lt_succ _)
  cases hdecode : Opcode.decode? b with
  | none => exact .inl ⟨rfl, fetch_eq_error_iff.2 (.inr ⟨b, hbyte, hdecode, rfl⟩)⟩
  | some op =>
      have hlen := hcut op hdecode
      obtain rfl := Opcode.encode_of_decode? hdecode
      refine .inr ⟨⟨op, m.pc, m.memory.peek (m.pc + 1), m.memory.peek (m.pc + 2)⟩,
        fetch_eq_ok_iff.2 ⟨hbyte, rfl, rfl, rfl⟩, rfl, ?_⟩
      have hlong : (before ++ op.encode :: rest).length < before.length + op.encodedLength := by
        rw [List.length_append, List.length_cons, Opcode.encodedLength]
        omega
      rwa [hplace]

/-! ### Steps at a row -/

/-- A step that fetches an instruction does not fail because there is none. -/
theorem result_step_ne_of_fetch (ht : m.Traces s) (hi : m.fetch = .ok i) (b : UInt8) (a : Nat) :
    (m.step s).result ≠ .error (.illegalInstruction b a) ∧
      (m.step s).result ≠ .error (.unsupportedAluOperation b a) := by
  have hstep := m.steps_step s
  generalize m.step s = o at hstep
  cases hstep with
  | untraced ht' =>
      rw [Traces, ht'] at ht
      cases ht
  | unfetched ht' hi' =>
      rw [hi] at hi'
      cases hi'
  | failed _ _ he =>
      constructor
      · intro h
        cases h
        cases he
      · intro h
        cases h
        cases he
  | unprinted =>
      constructor
      · intro h
        cases h
      · intro h
        cases h
  | done =>
      constructor
      · intro h
        cases h
      · intro h
        cases h

/-- **What the machine does at a row** of the disassembly of an image.  At an instruction row it
fetches the instruction that the row shows, its text naming the opcode and no other, and goes on
behind the row unless the instruction transfers.  At a data row it refuses the byte, or the byte is
an opcode that the end of the image cuts off, and if memory ends there too the machine fails. -/
def StepsAs (m : Machine) (s : Sinks) (image : List UInt8) (row : Row) : Prop :=
  match row.content with
  | .instruction op _ =>
      (∃ i, m.fetch = .ok i ∧ i.row = row ∧
        ∀ op' : Opcode, op'.mnemonic.toList = row.firstWord ↔ op' = i.opcode) ∧
      (∀ b a, (m.step s).result ≠ .error (.illegalInstruction b a) ∧
        (m.step s).result ≠ .error (.unsupportedAluOperation b a)) ∧
      ((m.step s).result = .ok .running → ¬m.Transfers op →
        (m.step s).machine.pc = row.address + row.bytes.length)
  | .data b =>
      Opcode.decode? b = none ∧
          (m.step s).result = .error (if Shape.isAlu b then .unsupportedAluOperation b row.address
            else .illegalInstruction b row.address) ∨
        ∃ op, Opcode.decode? b = some op ∧ image.length < row.address + op.encodedLength ∧
          (image.length = 256 → (m.step s).result = .error (.memoryOutOfBounds 256))

/-- An opcode that the end of the image cuts off fails if memory ends there too. -/
theorem execute_of_cutOff (hpc : 256 < m.pc + i.opcode.encodedLength) (hi : m.fetch = .ok i) :
    m.execute i = .error (.memoryOutOfBounds 256) := by
  rw [Opcode.encodedLength] at hpc
  exact execute_of_faults (faults_of_cutShort hi (by omega))

theorem stepsAs_row (hrow : (disassemble image)[k]? = some row) (hm : m.Holds image)
    (hpc : m.pc = row.address) (ht : m.Traces s) : m.StepsAs s image row := by
  unfold StepsAs
  cases hcontent : row.content with
  | instruction op operands =>
      obtain ⟨i, hi, rfl, hshown⟩ := fetch_of_instruction_row hrow hcontent hm hpc
      have hlen := length_bytes_of_instruction hrow hcontent
      refine ⟨⟨i, hi, hshown, fun op' => mnemonic_eq_firstWord_iff hcontent⟩,
        result_step_ne_of_fetch ht hi, fun hs hstay => ?_⟩
      rw [pc_step_of_not_transfers hi hstay hs, hpc, hlen]
  | data b =>
      rw [← hpc]
      rcases fetch_of_data_row hrow hcontent hm hpc with ⟨hnone, hi⟩ | ⟨i, hi, hdecode, hlong⟩
      · exact .inl ⟨hnone, by rw [step_of_fetch_eq_error ht hi]⟩
      · refine .inr ⟨i.opcode, hdecode, hlong, fun hsize => ?_⟩
        rw [step_of_execute_eq_error ht hi (execute_of_cutOff (by omega) hi)]

/-! ### A straight line from the beginning -/

/-- A step that succeeds at a row executes what the row shows, unless the row is cut off. -/
theorem row_of_step {p : Progress} (hrow : (disassemble image)[k]? = some row)
    (hm : m.Holds image) (hpc : m.pc = row.address) (hi : m.fetch = .ok i)
    (hs : (m.step s).result = .ok p) (hcut : image.length = 256 ∨ ¬row.content.CutOff) :
    i.row = row ∧ row.bytes.length = i.opcode.encodedLength := by
  cases hcontent : row.content with
  | instruction op operands =>
      obtain ⟨i', hi', rfl, hshown⟩ := fetch_of_instruction_row hrow hcontent hm hpc
      obtain rfl := Except.ok.inj (hi.symm.trans hi')
      exact ⟨hshown, length_bytes_of_instruction hrow hcontent⟩
  | data b =>
      rcases fetch_of_data_row hrow hcontent hm hpc with ⟨-, herror⟩ | ⟨i', hi', hdecode, hlong⟩
      · rw [hi] at herror
        cases herror
      · obtain rfl := Except.ok.inj (hi.symm.trans hi')
        rcases hcut with hsize | hcut
        · -- the step would fail at an operand behind memory
          obtain ⟨i', f, hi', hf, -⟩ := exists_executes_of_step hs
          obtain rfl := Except.ok.inj (hi.symm.trans hi')
          have herror := execute_of_cutOff (by omega) hi
          rw [execute_of_executes hf] at herror
          cases herror
        · exact absurd ⟨b, i.opcode, hcontent, hdecode⟩ hcut

/-- **A straight line from the beginning walks over the rows.**  As long as no opcode is met that
the end of the image cuts off, and none can be met if the image fills memory, the instructions
executed are those that the rows show, one after another. -/
theorem straight_rows {is : List Instruction} (h : Straight (Holds · image) m is m')
    (hpc : m.pc = 0)
    (hcut : image.length = 256 ∨
      ∀ row ∈ (disassemble image).take is.length, ¬row.content.CutOff) :
    (is.take (disassemble image).length).map Instruction.row =
        (disassemble image).take is.length ∧
      (is.length ≤ (disassemble image).length → m'.pc = rowStart image is.length) := by
  -- induction on the steps; the program counter stands at the row of their number
  induction h with
  | refl => exact ⟨by simp, fun _ => hpc.trans (rowStart_zero image).symm⟩
  | @step is m' i s _ hm hi hstay hs ih =>
      rw [List.length_append, List.length_singleton] at hcut ⊢
      have hfewer := List.take_subset_take_left (disassemble image) (Nat.le_succ is.length)
      obtain ⟨hrows, hstart⟩ := ih (hcut.imp_right fun h row hrow => h row (hfewer hrow))
      rcases Nat.lt_or_ge is.length (disassemble image).length with hlt | hge
      · obtain ⟨row, hrow⟩ : ∃ row, (disassemble image)[is.length]? = some row :=
          ⟨_, List.getElem?_eq_getElem hlt⟩
        have hplace : m'.pc = row.address :=
          (hstart (Nat.le_of_lt hlt)).trans (rowStart_of_getElem? hrow)
        have htake : (disassemble image).take (is.length + 1) =
            (disassemble image).take is.length ++ [row] := by
          rw [List.take_add_one, hrow, Option.toList_some]
        rw [htake] at hcut ⊢
        obtain ⟨hshown, hlen⟩ := row_of_step hrow hm hplace hi hs
          (hcut.imp_right fun h => h row (List.mem_append_right _ List.mem_cons_self))
        rw [List.take_of_length_le (Nat.le_of_lt hlt)] at hrows
        have hall : (is ++ [i]).length ≤ (disassemble image).length := by
          rw [List.length_append]
          exact hlt
        rw [List.take_of_length_le hall, List.map_append, hrows, List.map_singleton, hshown]
        refine ⟨rfl, fun _ => ?_⟩
        rw [pc_step_of_not_transfers hi hstay hs, hplace, ← hlen, rowStart_succ hrow]
      · rw [List.take_append_of_le_length hge, hrows, List.take_of_length_le hge,
          List.take_of_length_le (Nat.le_succ_of_le hge)]
        exact ⟨rfl, fun hle => by omega⟩

/-- **The disassembly shows what the machine does.**  Memory holds an image that has been loaded.
Where it does and the program counter stands at a row of the disassembly, the machine does what the
row says, whatever its registers, its flags and its stack are; and the row ends where the next one
begins, or, if it is the last one, where the image ends.  So a straight line from the beginning
executes the rows one after another, up to an opcode that the end of the image cuts off. -/
theorem disassembly_agrees_with_steps (image : List UInt8) :
    (∀ m m' : Machine, m.load image = .ok m' → m'.Holds image) ∧
    (∀ (k : Nat) (row : Row) (m : Machine) (s : Sinks), (disassemble image)[k]? = some row →
      m.Holds image → m.pc = row.address → m.Traces s →
      m.StepsAs s image row ∧ row.address + row.bytes.length = rowStart image (k + 1)) ∧
    ∀ (m : Machine) (is : List Instruction) (m' : Machine),
      Straight (Holds · image) m is m' → m.pc = 0 →
      (image.length = 256 ∨
        ∀ row ∈ (disassemble image).take is.length, ¬row.content.CutOff) →
      (is.take (disassemble image).length).map Instruction.row =
          (disassemble image).take is.length ∧
        (is.length ≤ (disassemble image).length → m'.pc = rowStart image is.length) :=
  ⟨fun _ _ h => holds_of_load h,
    fun _ _ _ _ hrow hm hpc ht => ⟨stepsAs_row hrow hm hpc ht, (rowStart_succ hrow).symm⟩,
    fun _ _ _ h hpc hcut => straight_rows h hpc hcut⟩

/-- A machine that prints a register and then meets a load that the end of its image cuts off. -/
def printsThenLoads : Machine :=
  { fresh .default with memory := ((Memory.empty.put 0 0x47).put 1 0x00).put 2 0x82 }

/-- It walks from the first of its two rows to the other one, where it finds the load. -/
theorem walks_to_cut_off_load :
    (fresh .default).load [0x47, 0x00, 0x82] = .ok printsThenLoads ∧
      disassemble [0x47, 0x00, 0x82] = [⟨0, .instruction .prn [0x00]⟩, ⟨2, .data 0x82⟩] ∧
      printsThenLoads.StepsAs .unlimited [0x47, 0x00, 0x82] ⟨0, .instruction .prn [0x00]⟩ ∧
      Straight (Holds · [0x47, 0x00, 0x82]) printsThenLoads
        [⟨.prn, 0, some 0x00, some 0x82⟩] (printsThenLoads.step .unlimited).machine ∧
      (printsThenLoads.step .unlimited).machine.pc = rowStart [0x47, 0x00, 0x82] 1 ∧
      (printsThenLoads.step .unlimited).machine.StepsAs .unlimited [0x47, 0x00, 0x82]
        ⟨2, .data 0x82⟩ := by
  obtain ⟨hholds, hsteps, hwalks⟩ := disassembly_agrees_with_steps [0x47, 0x00, 0x82]
  have hload : (fresh .default).load [0x47, 0x00, 0x82] = .ok printsThenLoads := by
    obtain ⟨memory, hmemory⟩ : ∃ memory, (fresh .default).memory.load [0x47, 0x00, 0x82] =
        .ok memory := ⟨_, rfl⟩
    have hput : memory = printsThenLoads.memory := by
      refine Memory.ext_peek fun a => ?_
      rw [Memory.peek_load hmemory]
      match a with
      | 0 => rfl
      | 1 => rfl
      | 2 => rfl
      | a + 3 =>
          have hbehind : ¬a + 3 < ([0x47, 0x00, 0x82] : List UInt8).length :=
            Nat.not_lt.2 (Nat.le_add_left 3 a)
          rw [if_neg hbehind]
          simp [printsThenLoads, Memory.peek_put, fresh]
    rw [load, hmemory, hput]
    rfl
  have hrows : disassemble [0x47, 0x00, 0x82] =
      [⟨0, .instruction .prn [0x00]⟩, ⟨2, .data 0x82⟩] := by cbv
  have hm := hholds _ _ hload
  have hm' : (printsThenLoads.step .unlimited).machine.Holds [0x47, 0x00, 0x82] := hm
  have hline : Straight (Holds · [0x47, 0x00, 0x82]) printsThenLoads
      [⟨.prn, 0, some 0x00, some 0x82⟩] (printsThenLoads.step .unlimited).machine :=
    .step .refl hm rfl (by unfold Transfers; decide) rfl
  have hwhole : ∀ row ∈ (disassemble [0x47, 0x00, 0x82]).take 1, ¬row.content.CutOff := by
    rw [hrows]
    rintro row hrow ⟨b, op, hdata, -⟩
    obtain rfl := List.mem_singleton.1 hrow
    cases hdata
  obtain ⟨-, hend⟩ := hwalks _ _ _ hline rfl (.inr hwhole)
  obtain ⟨hfirst, -⟩ := hsteps 0 _ printsThenLoads .unlimited (by rw [hrows]; rfl) hm rfl
    (traces_of_unlimited rfl)
  obtain ⟨hsecond, -⟩ := hsteps 1 _ (printsThenLoads.step .unlimited).machine .unlimited
    (by rw [hrows]; rfl) hm' rfl (traces_of_unlimited rfl)
  exact ⟨hload, hrows, hfirst, hline, hend (by rw [hrows]; decide), hsecond⟩

end Machine

end ByteMachine
