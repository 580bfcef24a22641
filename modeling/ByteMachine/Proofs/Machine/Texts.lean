/-
**The texts of a step.**

A step writes at most twice: the trace line before it does anything else, and the line of a printed
value when everything else is done.  Both lines are seen from the machine in front of the step.  The
sinks decide only whether they are taken: a trace line that is refused ends the step before it has
begun, a printed line that is refused lets it be given up, and if nothing is refused the step comes
to the same in front of all sinks.  So the steps whose lines are taken are those of the machine in
front of sinks without a limit, and the texts behind them are the lines of these steps in order.

Main definitions:

* `ByteMachine.Machine.traceLine`, `printLine` — the two lines of a step;
* `ByteMachine.Machine.action` — what a step comes to if its lines are taken;
* `ByteMachine.Machine.stateAfter` — the machine behind steps of which nothing is refused;
* `ByteMachine.Machine.textOf` — the lines of these steps, one after the other.

Main results:

* `ByteMachine.Machine.printed?_eq_some_iff` — which steps print;
* `ByteMachine.Machine.step_of_untraced`, `step_of_unprinted`, `step_of_fits` — **the three ways in
  which the sinks take the lines of a step**;
* `ByteMachine.Machine.stepped_of_fits` — **steps whose lines are taken are the same in front of all
  sinks**.
-/

import ByteMachine.Proofs.Machine.Iteration
import ByteMachine.Proofs.Sink

set_option relaxedAutoImplicit false
set_option autoImplicit false

namespace ByteMachine

theorem Opcode.encode_injective {op op' : Opcode} (h : op.encode = op'.encode) : op = op' := by
  have hdecode := congrArg Opcode.decode? h
  rw [decode?_encode, decode?_encode] at hdecode
  exact Option.some.inj hdecode

/-- The sinks behind a printed text and a traced text. -/
def Sinks.wrote (s : Sinks) (printed traced : String) : Sinks :=
  ⟨s.out.wrote printed, s.trace.wrote traced⟩

theorem Sinks.wrote_wrote (s : Sinks) (t t' u u' : String) :
    (s.wrote t u).wrote t' u' = s.wrote (t ++ t') (u ++ u') := by
  simp only [wrote, Sink.wrote_append]

namespace Machine

variable {m : Machine} {s : Sinks} {i : Instruction} {f : Effect} {e : Fault} {k : Nat}

/-! ### The lines of a step -/

/-- **What a step writes to the trace:** what is shown of the machine, if the configuration asks for
it. -/
def traceLine (m : Machine) : String :=
  if m.config.trace then m.trace.text ++ "\n" else ""

/-- The value that is printed at the program counter: if a print stands there, the content of the
register that it names. -/
def printed? (m : Machine) : Option UInt8 :=
  if m.memory.peek m.pc = some Opcode.prn.encode then
    (m.memory.peek (m.pc + 1)).bind fun r => m.registers.values[r.toNat]?
  else none

/-- A value as a decimal line. -/
def valueLine : Option UInt8 → String
  | some v => v.toNat.repr ++ "\n"
  | none => ""

/-- **What a step prints.** -/
def printLine (m : Machine) : String := valueLine m.printed?

theorem printed?_of_fetch (hi : m.fetch = .ok i) :
    m.printed? =
      if i.opcode = .prn then i.first?.bind fun r => m.registers.values[r.toNat]? else none := by
  obtain ⟨hbyte, -, hfirst, -⟩ := fetch_eq_ok_iff.1 hi
  unfold printed?
  rw [hbyte, ← hfirst]
  by_cases hop : i.opcode = .prn
  · rw [if_pos hop, if_pos (by rw [hop])]
  · rw [if_neg hop, if_neg fun h => hop (Opcode.encode_injective (Option.some.inj h))]

/-- Where nothing is fetched, nothing is printed. -/
theorem printed?_of_fetch_eq_error (hi : m.fetch = .error e) : m.printed? = none := by
  unfold printed?
  refine if_neg fun hbyte => ?_
  rcases fetch_eq_error_iff.1 hi with ⟨hge, -⟩ | ⟨b, hb, hnone, -⟩
  · rw [Memory.peek_eq_none_iff.2 hge] at hbyte
    cases hbyte
  · rw [hbyte] at hb
    obtain rfl := Option.some.inj hb
    rw [Opcode.decode?_encode] at hnone
    cases hnone

/-- An instruction that takes effect prints what the program counter shows. -/
theorem printed?_of_executes (hi : m.fetch = .ok i) (hf : m.Executes i f) :
    m.printed? = f.printed := by
  rw [printed?_of_fetch hi]
  cases hf with
  | prn hop hr hget =>
      have hlt := Registers.lt_of_get hget
      rw [Registers.get_of_lt hlt] at hget
      rw [if_pos hop, hr, Option.bind_some, Vector.getElem?_eq_getElem hlt]
      exact congrArg some (Except.ok.inj hget)
  | call hop | arith hop | jump hop | pass hop =>
      refine if_neg fun hprn => ?_
      rw [hprn] at hop
      cases hop
  | hlt hop | ldi hop | cmp hop | push hop | pop hop | ret hop => exact if_neg (by simp [hop])

/-- An instruction that fails prints nothing. -/
theorem printed?_of_faults (hi : m.fetch = .ok i) (he : m.Faults i e) : m.printed? = none := by
  rw [printed?_of_fetch hi]
  by_cases hprn : i.opcode = .prn
  · rw [if_pos hprn]
    cases he with
    | first _ hr => rw [hr, Option.bind_none]
    | register _ hr _ hge =>
        rw [hr, Option.bind_some]
        exact Vector.getElem?_eq_none hge
    | second hop | secondRegister hop | returnAddress hop | arithmetic hop =>
        rw [hprn] at hop
        cases hop
    | overflow hop | underflow hop =>
        rcases hop with hop | ⟨hop, -⟩
        · rw [hprn] at hop
          cases hop
        · rw [hprn] at hop
          cases hop
  · rw [if_neg hprn]

/-- **The steps that print are the prints of a register that is there.** -/
theorem printed?_eq_some_iff {v : UInt8} :
    m.printed? = some v ↔
      ∃ i r, m.fetch = .ok i ∧ i.opcode = .prn ∧ i.first? = some r ∧
        m.registers.get r = .ok v := by
  constructor
  · intro h
    cases hi : m.fetch with
    | error e =>
        rw [printed?_of_fetch_eq_error hi] at h
        cases h
    | ok i =>
        have hprinted := printed?_of_fetch hi
        rw [h] at hprinted
        split at hprinted
        · rename_i hop
          obtain ⟨r, hr, hvalue⟩ := Option.bind_eq_some_iff.1 hprinted.symm
          obtain ⟨hlt, hget⟩ := Vector.getElem?_eq_some_iff.1 hvalue
          refine ⟨i, r, rfl, hop, hr, ?_⟩
          rw [Registers.get_of_lt hlt, hget]
        · cases hprinted
  · rintro ⟨i, r, hi, hop, hr, hget⟩
    rw [printed?_of_executes hi (.prn hop hr hget)]

/-! ### The sinks of a step -/

theorem writeTrace_eq (m : Machine) (s : Sinks) :
    m.writeTrace s =
      (if s.trace.Fits m.traceLine then .ok () else .error .closed,
        { s with trace := s.trace.wrote m.traceLine }) := by
  unfold writeTrace traceLine
  cases m.config.trace with
  | true => simp only [if_true, Sink.write_eq]
  | false => simp [Sink.fits_empty]

theorem writeValue_eq (s : Sinks) (v : Option UInt8) :
    writeValue s v =
      (if s.out.Fits (valueLine v) then .ok () else .error .closed,
        { s with out := s.out.wrote (valueLine v) }) := by
  cases v with
  | some v =>
      have hwrite := s.out.write_eq (v.toNat.repr ++ "\n")
      simp only [writeValue, hwrite]
      rfl
  | none => simp [writeValue, valueLine, Sink.fits_empty]

/-- **What a step comes to if its lines are taken:** its result, and the machine behind it. -/
def action (m : Machine) : Except Fault Progress × Machine :=
  match m.fetch with
  | .error e => (.error e, m)
  | .ok i =>
    match m.execute i with
    | .error e => (.error e, m.tick)
    | .ok f => (.ok (if f.halts then .halted else .running), f.machine.tick)

/-- **A step whose trace line is refused** has not begun. -/
theorem step_of_untraced (ht : ¬s.trace.Fits m.traceLine) :
    m.step s = ⟨.error Sink.Error.closed.fault, m, s.wrote "" m.traceLine⟩ := by
  unfold step
  rw [writeTrace_eq, if_neg ht]
  simp [Sinks.wrote]

/-- **A step whose printed line is refused** is given up, but its instruction is counted. -/
theorem step_of_unprinted (ht : s.trace.Fits m.traceLine) (hp : ¬s.out.Fits m.printLine) :
    m.step s = ⟨.error Sink.Error.closed.fault, m.tick, s.wrote m.printLine m.traceLine⟩ := by
  -- an empty line is never refused, so there is a value
  obtain ⟨v, hv⟩ : ∃ v, m.printed? = some v := by
    refine Option.ne_none_iff_exists'.1 fun hnone => hp ?_
    rw [printLine, hnone]
    exact s.out.fits_empty
  obtain ⟨i, r, hi, hop, hr, hget⟩ := printed?_eq_some_iff.1 hv
  have hf := Executes.prn hop hr hget
  have hline : valueLine (some v) = m.printLine := by
    rw [printLine, hv]
  unfold step
  rw [writeTrace_eq, if_pos ht]
  simp only [hi, execute_of_executes hf, writeValue_eq, hline, if_neg hp]
  rfl

/-- **A step whose lines are taken** comes to its action. -/
theorem step_of_fits (ht : s.trace.Fits m.traceLine) (hp : s.out.Fits m.printLine) :
    m.step s = ⟨m.action.1, m.action.2, s.wrote m.printLine m.traceLine⟩ := by
  unfold step action
  rw [writeTrace_eq, if_pos ht]
  cases hi : m.fetch with
  | error e => simp [printLine, printed?_of_fetch_eq_error hi, valueLine, Sinks.wrote]
  | ok i =>
      cases hexec : m.execute i with
      | error e =>
          have hnone := printed?_of_faults hi (execute_eq_error_iff.1 hexec)
          simp [hexec, printLine, hnone, valueLine, Sinks.wrote]
      | ok f =>
          have hline : valueLine f.printed = m.printLine := by
            rw [printLine, printed?_of_executes hi (execute_eq_ok_iff.1 hexec)]
          simp only [hexec, writeValue_eq, hline, if_pos hp]
          rfl

/-! ### The texts of several steps -/

/-- **The machine behind `k` steps of which nothing is refused.** -/
def stateAfter (m : Machine) (k : Nat) : Machine := (m.stepped .unlimited k).machine

/-- **The lines of `k` steps** of which nothing is refused, in their order. -/
def textOf (m : Machine) (line : Machine → String) (k : Nat) : String :=
  String.join ((List.range k).map fun j => line (m.stateAfter j))

@[simp] theorem stateAfter_zero (m : Machine) : m.stateAfter 0 = m := rfl

@[simp] theorem textOf_zero (m : Machine) (line : Machine → String) : m.textOf line 0 = "" := rfl

theorem textOf_succ (m : Machine) (line : Machine → String) (k : Nat) :
    m.textOf line (k + 1) = m.textOf line k ++ line (m.stateAfter k) := by
  simp [textOf, List.range_succ]

/-- The lines of fewer steps are the beginning of the lines of more. -/
theorem exists_textOf_eq_append (m : Machine) (line : Machine → String) {j n : Nat} (h : j ≤ n) :
    ∃ more, m.textOf line n = m.textOf line j ++ more := by
  induction n, h using Nat.le_induction with
  | base => exact ⟨"", by simp⟩
  | succ n _ ih =>
      obtain ⟨more, hmore⟩ := ih
      refine ⟨more ++ line (m.stateAfter n), ?_⟩
      rw [textOf_succ, hmore, String.append_assoc]

/-- Behind any texts, sinks without a limit take the lines of a step. -/
theorem step_unlimited (m : Machine) (t u : String) :
    m.step (Sinks.unlimited.wrote t u) =
      ⟨m.action.1, m.action.2,
        Sinks.unlimited.wrote (t ++ m.printLine) (u ++ m.traceLine)⟩ := by
  have hout : (Sinks.unlimited.wrote t u).out.room = none := Sink.room_wrote_of_unlimited rfl t
  have htrace : (Sinks.unlimited.wrote t u).trace.room = none := Sink.room_wrote_of_unlimited rfl u
  rw [step_of_fits (Sink.fits_of_unlimited htrace _) (Sink.fits_of_unlimited hout _),
    Sinks.wrote_wrote]

/-- Sinks without a limit hold what the steps print and trace. -/
theorem sinks_stepped_unlimited (m : Machine) (k : Nat) :
    (m.stepped .unlimited k).sinks =
      Sinks.unlimited.wrote (m.textOf printLine k) (m.textOf traceLine k) := by
  induction k with
  | zero => simp [stepped, Sinks.wrote]
  | succ k ih =>
      rw [stepped, ih, step_unlimited, textOf_succ, textOf_succ]
      rfl

theorem taken_stepped_unlimited (m : Machine) (k : Nat) :
    (m.stepped .unlimited k).sinks.out.taken = (m.textOf printLine k).toUTF8 ∧
      (m.stepped .unlimited k).sinks.trace.taken = (m.textOf traceLine k).toUTF8 := by
  rw [sinks_stepped_unlimited]
  constructor
  · exact (Sink.taken_wrote_of_fits (Sink.fits_of_unlimited rfl _)).trans ByteArray.empty_append
  · exact (Sink.taken_wrote_of_fits (Sink.fits_of_unlimited rfl _)).trans ByteArray.empty_append

/-- **Sinks without a limit show the lines of the steps.** -/
theorem text_stepped_unlimited (m : Machine) (k : Nat) :
    (m.stepped .unlimited k).sinks.out.text = m.textOf printLine k ∧
      (m.stepped .unlimited k).sinks.trace.text = m.textOf traceLine k := by
  obtain ⟨hout, htrace⟩ := m.taken_stepped_unlimited k
  exact ⟨Sink.text_of_taken hout, Sink.text_of_taken htrace⟩

/-- A step behind steps of which nothing is refused. -/
theorem stepped_unlimited_succ (m : Machine) (k : Nat) :
    m.stepped .unlimited (k + 1) =
      ⟨(m.stateAfter k).action.1, (m.stateAfter k).action.2,
        Sinks.unlimited.wrote (m.textOf printLine (k + 1)) (m.textOf traceLine (k + 1))⟩ := by
  rw [stepped, sinks_stepped_unlimited, textOf_succ, textOf_succ]
  exact step_unlimited _ _ _

theorem stateAfter_succ (m : Machine) (k : Nat) :
    m.stateAfter (k + 1) = (m.stateAfter k).action.2 :=
  congrArg Outcome.machine (m.stepped_unlimited_succ k)

/-- **Steps whose lines are taken are the same in front of all sinks.** -/
theorem stepped_of_fits (hout : s.out.Fits (m.textOf printLine k))
    (htrace : s.trace.Fits (m.textOf traceLine k)) :
    m.stepped s k =
      ⟨(m.stepped .unlimited k).result, m.stateAfter k,
        s.wrote (m.textOf printLine k) (m.textOf traceLine k)⟩ := by
  induction k with
  | zero => simp [stepped, Sinks.wrote]
  | succ k ih =>
      rw [textOf_succ, Sink.fits_append_iff] at hout
      rw [textOf_succ, Sink.fits_append_iff] at htrace
      have hstep := step_of_fits (m := m.stateAfter k) (s := s.wrote _ _) htrace.2 hout.2
      rw [Sinks.wrote_wrote, ← textOf_succ, ← textOf_succ] at hstep
      rw [stepped, ih hout.1 htrace.1, stateAfter_succ, stepped_unlimited_succ]
      exact hstep

end Machine

end ByteMachine
