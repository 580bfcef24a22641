/-
**Steps and runs.**

A step goes through up to four stages, each of which can end it: the trace line is written, the
instruction is fetched, it is executed, and what it prints is written.  The rules of a step say for
each stage what a step that ends there leaves behind.  A run is a number of steps that go on,
followed by one of three endings; every fact about runs comes from this decomposition.

Main definitions:

* `ByteMachine.Machine.Steps` — the rules of a step;
* `ByteMachine.Machine.Advances` — a number of consecutive steps that go on;
* `ByteMachine.Machine.Ends` — the endings of a run.

Main results:

* `ByteMachine.Machine.steps_step` — **a step follows the rules**;
* `ByteMachine.Machine.exists_executes_of_step` — what is known of a step that succeeds;
* `ByteMachine.Machine.config_step`, `cycles_step_of_ok`, `flush_step`, `halt_of_step` — what a step
  does beside its instruction;
* `ByteMachine.Machine.exists_advances_of_run` — **a run advances and then ends**;
* `ByteMachine.Machine.run_induction` — what every step keeps, every run keeps.
-/

import ByteMachine.Machine.Run
import ByteMachine.Proofs.Machine.Rules

set_option relaxedAutoImplicit false
set_option autoImplicit false

namespace ByteMachine

/-! ### Fetching -/

theorem Opcode.decode_eq_ok_iff {b : UInt8} {pc : Nat} {op : Opcode} :
    decode b pc = .ok op ↔ decode? b = some op := by
  unfold decode
  cases decode? b with
  | some op' => simp
  | none =>
      simp only [reduceCtorEq, iff_false]
      split <;> simp

theorem Opcode.decode_eq_error_iff {b : UInt8} {pc : Nat} {e : Fault} :
    decode b pc = .error e ↔
      decode? b = none ∧
        e = if Shape.isAlu b then .unsupportedAluOperation b pc else .illegalInstruction b pc := by
  unfold decode
  cases decode? b with
  | some op' => simp
  | none =>
      simp only [true_and]
      split <;> simp [eq_comm]

theorem Memory.read_eq_error_iff {m : Memory} {a : Nat} {e : Fault} :
    m.read a = .error e ↔ 256 ≤ a ∧ e = .memoryOutOfBounds a := by
  rw [← peek_eq_none_iff, read]
  cases m.peek a <;> simp [eq_comm]

namespace Machine

variable {m m' : Machine} {s s' : Sinks} {i : Instruction} {f : Effect} {e : Fault}

/-- An instruction is fetched exactly where the byte of one stands. -/
theorem fetch_eq_ok_iff :
    m.fetch = .ok i ↔
      m.memory.peek m.pc = some i.opcode.encode ∧ i.address = m.pc ∧
        i.first? = m.memory.peek (m.pc + 1) ∧ i.second? = m.memory.peek (m.pc + 2) := by
  simp only [fetch, bind_eq_ok_iff, pure_eq_ok_iff, Memory.read_eq_ok_iff, Opcode.decode_eq_ok_iff,
    Opcode.decode?_eq_some_iff]
  constructor
  · rintro ⟨_, hb, op, rfl, rfl⟩
    exact ⟨hb, rfl, rfl, rfl⟩
  · obtain ⟨op, address, first?, second?⟩ := i
    rintro ⟨hb, rfl, rfl, rfl⟩
    exact ⟨_, hb, op, rfl, rfl⟩

/-- Nothing is fetched outside memory, nor where the byte of no instruction stands. -/
theorem fetch_eq_error_iff :
    m.fetch = .error e ↔
      256 ≤ m.pc ∧ e = .memoryOutOfBounds m.pc ∨
        ∃ b, m.memory.peek m.pc = some b ∧ Opcode.decode? b = none ∧
          e = if Shape.isAlu b then .unsupportedAluOperation b m.pc
            else .illegalInstruction b m.pc := by
  simp only [fetch, bind_eq_error_iff, Memory.read_eq_error_iff, Memory.read_eq_ok_iff,
    Opcode.decode_eq_error_iff, pure_ne_error, and_false, exists_false, or_false]

/-! ### The rules of a step -/

/-- **The rules of a step:** a step of `m` into the sinks `s` has this outcome. -/
inductive Steps (m : Machine) (s : Sinks) : Outcome Progress → Prop
  | untraced {x : Sink.Error} {t : Sinks} (ht : m.writeTrace s = (.error x, t)) :
      Steps m s ⟨.error x.fault, m, t⟩
  | unfetched {e : Fault} {t : Sinks} (ht : m.writeTrace s = (.ok (), t))
      (hi : m.fetch = .error e) : Steps m s ⟨.error e, m, t⟩
  | failed {e : Fault} {t : Sinks} {i : Instruction} (ht : m.writeTrace s = (.ok (), t))
      (hi : m.fetch = .ok i) (he : m.Faults i e) : Steps m s ⟨.error e, m.tick, t⟩
  -- the instruction has taken effect, but the machine afterwards is given up
  | unprinted {x : Sink.Error} {t u : Sinks} {i : Instruction} {f : Effect}
      (ht : m.writeTrace s = (.ok (), t)) (hi : m.fetch = .ok i) (hf : m.Executes i f)
      (hp : writeValue t f.printed = (.error x, u)) : Steps m s ⟨.error x.fault, m.tick, u⟩
  | done {t u : Sinks} {i : Instruction} {f : Effect} (ht : m.writeTrace s = (.ok (), t))
      (hi : m.fetch = .ok i) (hf : m.Executes i f)
      (hp : writeValue t f.printed = (.ok (), u)) :
      Steps m s ⟨.ok (if f.halts then .halted else .running), f.machine.tick, u⟩

/-- **A step follows the rules.** -/
theorem steps_step (m : Machine) (s : Sinks) : m.Steps s (m.step s) := by
  unfold step
  split
  · rename_i x t ht
    exact .untraced ht
  · rename_i t ht
    split
    · rename_i e hi
      exact .unfetched ht hi
    · rename_i i hi
      split
      · rename_i e he
        exact .failed ht hi (faults_of_execute_eq_error he)
      · rename_i f hf
        have hf := execute_eq_ok_iff.1 hf
        split
        · rename_i x u hp
          exact .unprinted ht hi hf hp
        · rename_i u hp
          exact .done ht hi hf hp

/-- The trace line of the next step, if there is one, is taken. -/
def Traces (m : Machine) (s : Sinks) : Prop := (m.writeTrace s).1 = .ok ()

/-- A sink without a limit takes every trace line. -/
theorem traces_of_unlimited (h : s.trace.room = none) : m.Traces s := by
  unfold Traces writeTrace
  split
  · simp [Sink.write, h]
  · rfl

/-- Without a trace nothing is written before an instruction. -/
theorem writeTrace_of_trace_eq_false (h : m.config.trace = false) (s : Sinks) :
    m.writeTrace s = (.ok (), s) := by
  rw [writeTrace, h]
  rfl

theorem step_of_fetch_eq_error (ht : m.Traces s) (hi : m.fetch = .error e) :
    m.step s = ⟨.error e, m, (m.writeTrace s).2⟩ := by
  unfold step
  rw [show m.writeTrace s = (.ok (), (m.writeTrace s).2) from Prod.ext ht rfl]
  simp only [hi]

theorem step_of_execute_eq_error (ht : m.Traces s) (hi : m.fetch = .ok i)
    (he : m.execute i = .error e) : m.step s = ⟨.error e, m.tick, (m.writeTrace s).2⟩ := by
  unfold step
  rw [show m.writeTrace s = (.ok (), (m.writeTrace s).2) from Prod.ext ht rfl]
  simp only [hi, he]

theorem step_of_executes {f : Effect} (ht : m.Traces s) (hi : m.fetch = .ok i)
    (hf : m.Executes i f) (hp : f.printed = none) :
    m.step s =
      ⟨.ok (if f.halts then .halted else .running), f.machine.tick, (m.writeTrace s).2⟩ := by
  unfold step
  rw [show m.writeTrace s = (.ok (), (m.writeTrace s).2) from Prod.ext ht rfl]
  simp only [hi, execute_of_executes hf, hp, writeValue]

/-- What is known of a step that succeeds. -/
theorem exists_executes_of_step {p : Progress} (h : (m.step s).result = .ok p) :
    ∃ i f, m.fetch = .ok i ∧ m.Executes i f ∧ (m.step s).machine = f.machine.tick ∧
      p = if f.halts then .halted else .running := by
  have hstep := m.steps_step s
  generalize m.step s = o at h hstep
  cases hstep with
  | done ht hi hf hp =>
      cases h
      exact ⟨_, _, hi, hf, rfl, rfl⟩
  | _ => cases h

/-- A step that fails leaves the machine alone or counts the instruction. -/
theorem machine_step_of_error (h : (m.step s).result = .error e) :
    (m.step s).machine = m ∨ (m.step s).machine = m.tick := by
  have hstep := m.steps_step s
  generalize m.step s = o at h hstep
  cases hstep with
  | untraced | unfetched => exact .inl rfl
  | failed | unprinted => exact .inr rfl
  | done => cases h

/-! ### What one step does beside its instruction -/

theorem config_executes (h : m.Executes i f) : f.machine.config = m.config := by
  cases h with
  | _ => rfl

theorem cycles_executes (h : m.Executes i f) : f.machine.cycles = m.cycles := by
  cases h with
  | _ => rfl

/-- No step changes the configuration. -/
theorem config_step (m : Machine) (s : Sinks) : (m.step s).machine.config = m.config := by
  have hstep := m.steps_step s
  generalize m.step s = o at hstep
  cases hstep with
  | done _ _ hf => exact config_executes hf
  | _ => rfl

/-- A step that succeeds has counted its instruction. -/
theorem cycles_step_of_ok {p : Progress} (h : (m.step s).result = .ok p) :
    (m.step s).machine.cycles = m.cycles + 1 := by
  obtain ⟨i, f, -, hf, hm, -⟩ := exists_executes_of_step h
  rw [hm, ← cycles_executes hf]
  rfl

theorem cycles_step_le (m : Machine) (s : Sinks) :
    (m.step s).machine.cycles ≤ m.cycles + 1 := by
  cases h : (m.step s).result with
  | ok p => exact Nat.le_of_eq (cycles_step_of_ok h)
  | error e =>
      rcases machine_step_of_error h with hm | hm
      · rw [hm]
        exact Nat.le_succ m.cycles
      · rw [hm]
        exact Nat.le_refl (m.cycles + 1)

theorem out_writeTrace (m : Machine) (s : Sinks) : (m.writeTrace s).2.out = s.out := by
  unfold writeTrace
  split <;> rfl

theorem flush_writeValue (s : Sinks) (v : Option UInt8) :
    (writeValue s v).2.out.flush = s.out.flush := by
  cases v with
  | none => rfl
  | some v => simp [writeValue, Sink.flush]

/-- A step does not change whether the output can be flushed. -/
theorem flush_step (m : Machine) (s : Sinks) :
    (m.step s).sinks.out.flush = s.out.flush := by
  have hout := m.out_writeTrace s
  have hstep := m.steps_step s
  generalize m.step s = o at hstep
  cases hstep with
  | untraced ht | unfetched ht | failed ht =>
      rw [ht] at hout
      exact congrArg Sink.flush hout
  | @unprinted _ t _ _ f ht _ _ hp | @done t _ _ f ht _ _ hp =>
      have hprint := flush_writeValue t f.printed
      rw [hp] at hprint
      rw [ht] at hout
      exact hprint.trans (congrArg Sink.flush hout)

/-- A step that halts stands at a halt instruction, and changes nothing but the count. -/
theorem halt_of_step (h : (m.step s).result = .ok .halted) :
    (m.step s).machine = m.tick ∧ m.memory.peek m.pc = some Opcode.hlt.encode := by
  obtain ⟨i, f, hi, hf, hm, hp⟩ := exists_executes_of_step h
  obtain ⟨hbyte, -⟩ := fetch_eq_ok_iff.1 hi
  cases hf with
  | hlt hop => exact ⟨hm, hop ▸ hbyte⟩
  | _ => cases hp

/-! ### Consecutive steps -/

/-- **A number of consecutive steps that go on.** -/
inductive Advances : Nat → Machine → Sinks → Machine → Sinks → Prop
  | refl (m : Machine) (s : Sinks) : Advances 0 m s m s
  | step {n : Nat} {m m₁ m' : Machine} {s s₁ s' : Sinks} (h : m.step s = ⟨.ok .running, m₁, s₁⟩)
      (hn : Advances n m₁ s₁ m' s') : Advances (n + 1) m s m' s'

/-- **The endings of a run.** -/
inductive Ends (m : Machine) (s : Sinks) : Outcome HaltReason → Prop
  | cycleLimit (h : m.exhausted = true) : Ends m s ⟨.ok .cycleLimit, m, s⟩
  | halted {m' : Machine} {s' : Sinks} (h : m.exhausted = false)
      (hs : m.step s = ⟨.ok .halted, m', s'⟩) : Ends m s ⟨.ok .halted, m', s'⟩
  | failed {e : Fault} {m' : Machine} {s' : Sinks} (h : m.exhausted = false)
      (hs : m.step s = ⟨.error e, m', s'⟩) : Ends m s ⟨.error e, m', s'⟩

theorem exists_advances_of_runFor {fuel : Nat} {m : Machine} {s : Sinks}
    {o : Outcome HaltReason} (h : runFor fuel m s = .ended o) :
    ∃ n m₀ s₀, Advances n m s m₀ s₀ ∧ m₀.Ends s₀ o := by
  -- induction on the steps that the run is followed for
  induction fuel generalizing m s with
  | zero =>
      unfold runFor at h
      split at h
      · rename_i hex
        cases h
        exact ⟨0, m, s, .refl m s, .cycleLimit hex⟩
      · cases h
  | succ fuel ih =>
      unfold runFor at h
      split at h
      · rename_i hex
        cases h
        exact ⟨0, m, s, .refl m s, .cycleLimit hex⟩
      · rename_i hex
        have hex : m.exhausted = false := by simpa using hex
        simp only at h
        split at h
        · rename_i m₁ s₁ hs
          obtain ⟨n, m₀, s₀, hadv, hend⟩ := ih h
          exact ⟨n + 1, m₀, s₀, .step hs hadv, hend⟩
        · rename_i m₁ s₁ hs
          cases h
          exact ⟨0, m, s, .refl m s, .halted hex hs⟩
        · rename_i x m₁ s₁ hs
          cases h
          exact ⟨0, m, s, .refl m s, .failed hex hs⟩

/-- **A run advances and then ends.** -/
theorem exists_advances_of_run {o : Outcome Halt} (h : m.run s = some o) :
    ∃ n m₀ s₀ o₀, Advances n m s m₀ s₀ ∧ m₀.Ends s₀ o₀ ∧ o = conclude o₀ := by
  unfold run at h
  split at h
  · rename_i o₀ hrun
    obtain rfl := Option.some.inj h
    obtain ⟨n, m₀, s₀, hadv, hend⟩ := exists_advances_of_runFor hrun
    exact ⟨n, m₀, s₀, o₀, hadv, hend, rfl⟩
  · cases h

@[simp] theorem machine_conclude (o : Outcome HaltReason) : (conclude o).machine = o.machine := by
  unfold conclude
  split
  · split <;> rfl
  · rfl

/-- **A run fails with the fault of its last step**, or at the end of a run that did not fail
because the output cannot be flushed. -/
theorem error_of_run {o : Outcome Halt} (h : m.run s = some o) (he : o.result = .error e) :
    (∃ n m₀ s₀, Advances n m s m₀ s₀ ∧ m₀.exhausted = false ∧ (m₀.step s₀).result = .error e ∧
        o.machine = (m₀.step s₀).machine) ∨
      ∃ o₀ reason x, runFor m.budget m s = .ended o₀ ∧ o₀.result = .ok reason ∧ e = x.fault ∧
        o₀.sinks.out.flush = .error x := by
  unfold run at h
  split at h
  · rename_i o₀ hrun
    obtain rfl := Option.some.inj h
    obtain ⟨n, m₀, s₀, hadv, hend⟩ := exists_advances_of_runFor hrun
    obtain ⟨result, m₁, s₁⟩ := o₀
    cases result with
    | error x =>
        cases he
        cases hend with
        | failed hex hs => exact .inl ⟨n, m₀, s₀, hadv, hex, by rw [hs], by rw [hs]; rfl⟩
    | ok reason =>
        right
        simp only [conclude] at he
        split at he
        · cases he
        · rename_i x hx
          cases he
          exact ⟨_, reason, x, hrun, rfl, rfl, hx⟩
  · cases h

/-! ### What steps keep -/

section Induction

variable {P : Machine → Prop} (hstep : ∀ m s, P m → P (m.step s).machine)
include hstep

/-- What every step keeps, steps that go on keep. -/
theorem Advances.induction {n : Nat} (h : Advances n m s m' s') (hm : P m) : P m' := by
  induction h with
  | refl => exact hm
  | @step _ m m₁ _ s s₁ _ h _ ih =>
      have hnext := hstep m s hm
      rw [h] at hnext
      exact ih hnext

/-- What every step keeps, every run keeps. -/
theorem run_induction {o : Outcome Halt} (h : m.run s = some o) (hm : P m) : P o.machine := by
  obtain ⟨n, m₀, s₀, o₀, hadv, hend, rfl⟩ := exists_advances_of_run h
  have h₀ : P m₀ := hadv.induction hstep hm
  rw [machine_conclude]
  cases hend with
  | cycleLimit => exact h₀
  | halted _ hs | failed _ hs =>
      have hlast := hstep m₀ s₀ h₀
      rwa [hs] at hlast

end Induction

end Machine

end ByteMachine
