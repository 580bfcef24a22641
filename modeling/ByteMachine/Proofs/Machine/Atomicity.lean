/-
**Calls that fail.**

A call that fails does not leave half of its work behind.  Writing memory from outside fails before
anything is written.  A step that fails leaves everything as it was but the number of instructions,
which counts an instruction from the moment it has been fetched.  A run that a step has stopped is
therefore found where that step began, with the program counter at the instruction that failed.

Main definitions:

* `ByteMachine.Machine.Counts`, `Machine.KeptBy` — when a step gets as far as an instruction, and
  the machine that a failing step leaves.

Main results:

* `ByteMachine.Machine.keptBy_of_step` — what a step that fails leaves behind;
* `ByteMachine.Machine.failed_calls_are_atomic` — **calls that fail are atomic**.
-/

import ByteMachine.Proofs.Machine.InPlace
import ByteMachine.Proofs.Machine.Reachable

set_option relaxedAutoImplicit false
set_option autoImplicit false

namespace ByteMachine

namespace Machine

variable {m : Machine} {s : Sinks} {e : Fault}

/-! ### Writing memory from outside -/

theorem load_eq_error_iff {image : List UInt8} :
    m.load image = .error e ↔ 256 < image.length ∧ e = .programTooLarge image.length 256 := by
  unfold load Memory.load
  rcases Nat.lt_or_ge 256 image.length with h | h
  · simp [Memory.size, Nat.not_le.2 h, h, eq_comm]
  · simp [Memory.size, h, Nat.not_lt.2 h]

theorem poke_eq_error_iff {a : Nat} {v : UInt8} :
    m.poke a v = .error e ↔ 256 ≤ a ∧ e = .memoryOutOfBounds a := by
  unfold poke
  rcases Nat.lt_or_ge a 256 with h | h
  · rw [Memory.write, dif_pos h]
    simp [Nat.not_le.2 h]
  · rw [Memory.write_of_le h]
    simp [h, eq_comm]

/-! ### Steps -/

/-- The step gets as far as an instruction: its trace line is taken, and the byte at the program
counter is the byte of an instruction. -/
def Counts (m : Machine) (s : Sinks) : Prop :=
  m.Traces s ∧ ∃ op : Opcode, m.memory.peek m.pc = some op.encode

theorem counts_of_fetch {i : Instruction} {t : Sinks} (ht : m.writeTrace s = (.ok (), t))
    (hi : m.fetch = .ok i) : m.Counts s := by
  obtain ⟨hb, -, -, -⟩ := fetch_eq_ok_iff.1 hi
  exact ⟨by rw [Traces, ht], i.opcode, hb⟩

/-- The machine `m'` is `m`, with one more instruction counted exactly if a step that writes into
`s` gets as far as an instruction. -/
def KeptBy (m : Machine) (s : Sinks) (m' : Machine) : Prop :=
  m.Counts s ∧ m' = { m with cycles := m.cycles + 1 } ∨ ¬m.Counts s ∧ m' = m

theorem KeptBy.pc_eq {m' : Machine} (h : m.KeptBy s m') : m'.pc = m.pc := by
  rcases h with ⟨-, rfl⟩ | ⟨-, rfl⟩
  · rfl
  · rfl

/-- **A step that fails changes at most the number of instructions**, and that exactly if it got as
far as an instruction. -/
theorem keptBy_of_step (h : (m.step s).result = .error e) : m.KeptBy s (m.step s).machine := by
  have hstep := m.steps_step s
  generalize m.step s = o at h hstep
  cases hstep with
  | untraced ht =>
      right
      refine ⟨fun hc => ?_, rfl⟩
      have htraced := hc.1
      rw [Traces, ht] at htraced
      cases htraced
  | unfetched ht hi =>
      right
      refine ⟨fun hc => ?_, rfl⟩
      obtain ⟨op, hop⟩ := hc.2
      rcases fetch_eq_error_iff.1 hi with ⟨hge, -⟩ | ⟨b, hb, hnone, -⟩
      · rw [Memory.peek_eq_none_iff.2 hge] at hop
        cases hop
      · rw [hop] at hb
        obtain rfl := Option.some.inj hb
        rw [Opcode.decode?_encode] at hnone
        cases hnone
  | failed ht hi he => exact .inl ⟨counts_of_fetch ht hi, rfl⟩
  | unprinted ht hi hf hp => exact .inl ⟨counts_of_fetch ht hi, rfl⟩
  | done => cases h

/-! ### All calls -/

/-- **Calls that fail are atomic.**  Writing memory from outside fails exactly for an image longer
than memory and for an address outside it, and then leaves the machine as it was; it and a step end
in the same machine when they are carried out in place, where whatever is written stays written.  A
step that fails leaves the machine as it was but for the number of instructions, which goes up by
one exactly if the step got as far as an instruction.  A run that fails has come to a step that
fails, and the machine is as that step leaves it, with the program counter at its instruction; or it
has ended without a failure and its output cannot be flushed. -/
theorem failed_calls_are_atomic (m : Machine) :
    (∀ image, ((∃ e, m.load image = .error e) ↔ 256 < image.length) ∧
      (256 < image.length → m.after (.load image) = some m) ∧
      InPlace.Settles (InPlace.load image) m (m.load image)) ∧
    (∀ p, ((∃ e, m.loadProgram p = .error e) ↔ 256 < p.bytes.length) ∧
      (256 < p.bytes.length → m.after (.loadProgram p) = some m)) ∧
    (∀ a v, ((∃ e, m.poke a v = .error e) ↔ 256 ≤ a) ∧
      (256 ≤ a → m.after (.poke a v) = some m) ∧
      InPlace.Settles (InPlace.poke a v) m (m.poke a v)) ∧
    (∀ s, InPlace.step.run m s = m.step s) ∧
    (∀ s e, (m.step s).result = .error e → m.KeptBy s (m.step s).machine) ∧
    ∀ s o e, m.run s = some o → o.result = .error e →
      (∃ n m₀ s₀, Advances n m s m₀ s₀ ∧ m₀.exhausted = false ∧
        (m₀.step s₀).result = .error e ∧ m₀.KeptBy s₀ o.machine ∧ o.machine.pc = m₀.pc) ∨
      ∃ o₀ reason x, runFor m.budget m s = .ended o₀ ∧ o₀.result = .ok reason ∧ e = x.fault ∧
        o₀.sinks.out.flush = .error x := by
  have hload : ∀ image, 256 < image.length → m.after (.load image) = some m := by
    intro image hlong
    rw [after, load_eq_error_iff.2 ⟨hlong, rfl⟩, orKeep]
  refine ⟨fun image => ⟨?_, hload image, InPlace.settles_load image⟩,
    fun p => ⟨?_, hload p.bytes⟩, fun a v => ⟨?_, ?_, InPlace.settles_poke a v⟩,
    InPlace.run_step m, fun s e => keptBy_of_step, ?_⟩
  · simp [load_eq_error_iff]
  · simp [loadProgram, load_eq_error_iff]
  · simp [poke_eq_error_iff]
  · intro hge
    rw [after, poke_eq_error_iff.2 ⟨hge, rfl⟩, orKeep]
  · intro s o e hrun he
    rcases error_of_run hrun he with ⟨n, m₀, s₀, hadv, hex, hstep, hm⟩ | hflush
    · have hkept := keptBy_of_step hstep
      rw [← hm] at hkept
      exact .inl ⟨n, m₀, s₀, hadv, hex, hstep, hkept, hkept.pc_eq⟩
    · exact .inr hflush

end Machine

end ByteMachine
