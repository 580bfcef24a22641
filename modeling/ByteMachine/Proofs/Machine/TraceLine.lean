/-
**Trace lines are lossless.**

A trace line shows the program counter in as many digits as it needs, and the flags, three bytes and
eight registers behind it in columns of two characters.  A column says nothing of where it begins,
but all that stands behind the program counter has the same length in every line: a byte that is
missing takes the room of one that is there.  So the program counter is what is left between the
heading of a line and its last 42 characters, and everything else is found by counting.

Main definitions:

* `ByteMachine.Trace.columns` — several columns in a row;
* `ByteMachine.Trace.behindPc` — what a line shows behind the program counter.

Main results:

* `ByteMachine.Trace.column_injective`, `columns_injective` — columns show what they stand for;
* `ByteMachine.Trace.length_behindPc` — what is behind the program counter has one length;
* `ByteMachine.Trace.text_injective` — **what a line was written for is found in the line**;
* `ByteMachine.Machine.trace_line_determines_state` — so a line of a machine shows its state.
-/

import ByteMachine.Machine.Trace
import ByteMachine.Proofs.Numeral

set_option relaxedAutoImplicit false
set_option autoImplicit false

namespace ByteMachine

namespace Trace

/-! ### Columns -/

/-- Two dashes stand for no byte. -/
theorem column_some_ne (b : UInt8) : column (some b) ≠ column none := by
  intro h
  have hdash : '-' ∈ (column (some b)).toList := by
    rw [h]
    decide
  rw [column, String.toList_append, List.mem_append] at hdash
  rcases hdash with hdash | hdash
  · exact absurd hdash (by decide)
  · exact absurd (Numeral.isAlphanum_of_mem_hexByte hdash) (by decide)

/-- **A column shows the byte that it stands for.** -/
theorem column_injective {b b' : Option UInt8} (h : column b = column b') : b = b' := by
  cases b with
  | none =>
      cases b' with
      | none => rfl
      | some b' => exact absurd h.symm (column_some_ne b')
  | some b =>
      cases b' with
      | none => exact absurd h (column_some_ne b)
      | some b' =>
          have hhex := (String.append_right_inj " ").1 h
          rw [UInt8.toNat_inj.1 (Numeral.hexByte_injective hhex)]

theorem length_column (b : Option UInt8) : (column b).toList.length = 3 := by
  cases b with
  | none => rfl
  | some b =>
      rw [column, String.toList_append, List.length_append, Numeral.length_hexByte]
      rfl

/-- Columns in a row. -/
def columns (bs : List (Option UInt8)) : List Char := bs.flatMap fun b => (column b).toList

theorem length_columns (bs : List (Option UInt8)) : (columns bs).length = 3 * bs.length := by
  induction bs with
  | nil => rfl
  | cons b bs ih =>
      rw [columns, List.flatMap_cons, List.length_append, length_column, ← columns, ih,
        List.length_cons]
      omega

/-- **Columns in a row show what they stand for.** -/
theorem columns_injective {bs bs' : List (Option UInt8)} (hlen : bs.length = bs'.length)
    (h : columns bs = columns bs') : bs = bs' := by
  -- induction on the columns: the first one has a length of its own
  induction bs generalizing bs' with
  | nil => exact (List.eq_nil_of_length_eq_zero hlen.symm).symm
  | cons b bs ih =>
      cases bs' with
      | nil => cases hlen
      | cons b' bs' =>
          rw [columns, columns, List.flatMap_cons, List.flatMap_cons] at h
          obtain ⟨hfirst, hrest⟩ := List.append_inj h (by rw [length_column, length_column])
          rw [column_injective (String.toList_inj.1 hfirst), ih (Nat.succ.inj hlen) hrest]

/-! ### Lines -/

/-- **What a line shows behind the program counter.** -/
def behindPc (t : Trace) : List Char :=
  " | ".toList ++ ((Numeral.hexByte t.flags.toNat).toList ++ (" |".toList ++
    (columns t.bytes.toList ++ (" |".toList ++ columns (t.registers.toList.map some)))))

theorem toList_text (t : Trace) :
    t.text.toList = "TRACE: ".toList ++ ((Numeral.hexByte t.pc).toList ++ t.behindPc) := by
  simp only [text, behindPc, columns, String.toList_append, String.toList_join,
    List.flatMap_map, List.append_assoc]

example : (⟨0xFE, 1, #v[some 0x47, some 0, none], #v[8, 0, 0, 0, 0, 0, 0, 0xF4]⟩ : Trace).text =
    "TRACE: FE | 01 | 47 00 -- | 08 00 00 00 00 00 00 F4" := by
  decide

/-- What stands behind the program counter has the same length in every line. -/
theorem length_behindPc (t : Trace) : t.behindPc.length = 42 := by
  simp [behindPc, length_columns, Numeral.length_hexByte]

/-- It shows all that is not the program counter. -/
theorem eq_of_behindPc {t t' : Trace} (hpc : t.pc = t'.pc) (h : t.behindPc = t'.behindPc) :
    t = t' := by
  obtain ⟨hflags, h⟩ := List.append_inj (List.append_cancel_left h)
    (by rw [Numeral.length_hexByte, Numeral.length_hexByte])
  obtain ⟨hbytes, h⟩ := List.append_inj (List.append_cancel_left h)
    (by simp only [length_columns, Vector.length_toList])
  have hflags := UInt8.toNat_inj.1 (Numeral.hexByte_injective (String.toList_inj.1 hflags))
  have hbytes := columns_injective (by simp only [Vector.length_toList]) hbytes
  have hregisters := columns_injective (by simp only [List.length_map, Vector.length_toList])
    (List.append_cancel_left h)
  have hregisters := (List.map_inj_right fun _ _ => Option.some.inj).1 hregisters
  cases t
  cases t'
  rw [Trace.mk.injEq]
  exact ⟨hpc, hflags, Vector.toList_inj.1 hbytes, Vector.toList_inj.1 hregisters⟩

/-- **What a line was written for is found in the line.** -/
theorem text_injective {t t' : Trace} (h : t.text = t'.text) : t = t' := by
  rw [← String.toList_inj, toList_text, toList_text] at h
  obtain ⟨hpc, hbehind⟩ := List.append_inj' (List.append_cancel_left h)
    (by rw [length_behindPc, length_behindPc])
  exact eq_of_behindPc (Numeral.hexByte_injective (String.toList_inj.1 hpc)) hbehind

end Trace

namespace Machine

theorem bytes_trace (m : Machine) (k : Fin 3) :
    m.trace.bytes[k] = m.memory.peek (m.pc + k) := by
  match k with
  | 0 => rfl
  | 1 => rfl
  | 2 => rfl

/-- The lines of two machines are the same exactly if the machines agree in what is shown. -/
theorem text_trace_eq_iff {m m' : Machine} :
    m.trace.text = m'.trace.text ↔
      m.pc = m'.pc ∧ m.flags = m'.flags ∧ m.registers = m'.registers ∧
        ∀ k : Fin 3, m.memory.peek (m.pc + k) = m'.memory.peek (m'.pc + k) := by
  constructor
  · intro h
    have htrace := Trace.text_injective h
    refine ⟨congrArg Trace.pc htrace, congrArg (fun t => Flags.mk t.flags) htrace,
      congrArg (fun t => Registers.mk t.registers) htrace, fun k => ?_⟩
    rw [← bytes_trace, ← bytes_trace, htrace]
  · rintro ⟨hpc, hflags, hregisters, hbytes⟩
    have hzero : m.memory.peek m.pc = m'.memory.peek m'.pc := hbytes 0
    have hone : m.memory.peek (m.pc + 1) = m'.memory.peek (m'.pc + 1) := hbytes 1
    have htwo : m.memory.peek (m.pc + 2) = m'.memory.peek (m'.pc + 2) := hbytes 2
    rw [trace, trace, hzero, hone, htwo, hpc, hflags, hregisters]

/-- Dashes stand for what is behind memory. -/
theorem column_bytes_trace_eq_iff (m : Machine) (k : Fin 3) :
    Trace.column m.trace.bytes[k] = " --" ↔ 256 ≤ m.pc + k := by
  rw [bytes_trace, ← Memory.peek_eq_none_iff]
  constructor
  · intro h
    have hdash : Trace.column none = " --" := rfl
    exact Trace.column_injective (h.trans hdash.symm)
  · intro h
    rw [h]
    rfl

/-- **A trace line determines what it was written for.**  Two lines are the same exactly if the same
is shown: the program counter, whatever its size, the flags, the three bytes, of which each may be
missing, and the registers.  So the line of a machine determines its program counter, its flags, its
registers and the bytes from the program counter on; and dashes stand exactly for the bytes that lie
behind memory. -/
theorem trace_line_determines_state :
    (∀ t t' : Trace, t.text = t'.text ↔ t = t') ∧
    (∀ m m' : Machine, m.trace.text = m'.trace.text ↔
      m.pc = m'.pc ∧ m.flags = m'.flags ∧ m.registers = m'.registers ∧
        ∀ k : Fin 3, m.memory.peek (m.pc + k) = m'.memory.peek (m'.pc + k)) ∧
    ∀ (m : Machine) (k : Fin 3), Trace.column m.trace.bytes[k] = " --" ↔ 256 ≤ m.pc + k :=
  ⟨fun _ _ => ⟨Trace.text_injective, congrArg Trace.text⟩, fun _ _ => text_trace_eq_iff,
    column_bytes_trace_eq_iff⟩

end Machine

end ByteMachine
