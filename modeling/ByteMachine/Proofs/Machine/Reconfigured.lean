/-
**One machine under two configurations.**

A machine asks its configuration in few places: for the cycle limit between two steps, for the trace
before an instruction, for the stack limit when something is pushed, for the overflow policy when a
result is computed, for the jump mode when a jump is taken.  So two machines that differ in their
configuration only do the same for as long as none of them asks for a setting in which they differ.
What they do is then not merely alike: changing the configuration and making the step can be done in
either order.

Main definitions:

* `ByteMachine.Machine.reconfigured`, `ByteMachine.Outcome.reconfigured` — a machine, and what a
  call leaves behind, with a change made to the configuration;
* `ByteMachine.Machine.Computes` — an instruction of the arithmetic unit with its two values;
* `ByteMachine.Machine.AgreesAt` — an instruction that does not ask for what is changed.

Main results:

* `ByteMachine.Machine.execute_reconfigured` — **such an instruction does the same**;
* `ByteMachine.Machine.step_reconfigured`, `stepped_reconfigured`, `run_reconfigured` — **so do a
  step, any number of steps, and a run** made of such instructions.
-/

import ByteMachine.Proofs.Machine.Iteration

set_option relaxedAutoImplicit false
set_option autoImplicit false

namespace ByteMachine

/-- **The machine with a change made to its configuration.** -/
def Machine.reconfigured (m : Machine) (g : Config → Config) : Machine :=
  { m with config := g m.config }

/-- The effect on the machine with a change made to its configuration. -/
def Effect.reconfigured (f : Effect) (g : Config → Config) : Effect :=
  { f with machine := f.machine.reconfigured g }

/-- **What a call leaves behind, with a change made to the configuration.**  Result and sinks are
the same. -/
def Outcome.reconfigured {α : Type} (o : Outcome α) (g : Config → Config) : Outcome α :=
  { o with machine := o.machine.reconfigured g }

namespace Machine

variable {m : Machine} {g : Config → Config} {i : Instruction} {f : Effect} {e : Fault}
  {s : Sinks} {k : Nat}

/-! ### Instructions -/

/-- The instruction asks the arithmetic unit for an operation on these two values. -/
def Computes (m : Machine) (i : Instruction) (op : AluOp) (x y : UInt8) : Prop :=
  AluOp.ofOpcode? i.opcode = some op ∧ ∃ a b, i.first? = some a ∧ i.second? = some b ∧
    m.registers.get a = .ok x ∧ m.registers.get b = .ok y

/-- **The instruction does not ask for what is changed:** the stack limit is the same, the results
are the same that it computes, and the jump mode is the same if it is a jump that is taken. -/
structure AgreesAt (m : Machine) (g : Config → Config) (i : Instruction) : Prop where
  stackLimit : (g m.config).stackLimit = m.config.stackLimit
  overflow : ∀ op x y, m.Computes i op x y →
    op.apply x y (g m.config).overflow = op.apply x y m.config.overflow
  jumpMode : i.opcode.takes m.flags = true → (g m.config).jumpMode = m.config.jumpMode

theorem leavesReturn_reconfigured (h : m.AgreesAt g i) :
    (m.reconfigured g).leavesReturn i.opcode = m.leavesReturn i.opcode := by
  unfold leavesReturn
  cases htaken : i.opcode.takes m.flags with
  | false => simp [reconfigured, htaken]
  | true => simp [reconfigured, htaken, h.jumpMode htaken]

theorem executes_reconfigured (h : m.AgreesAt g i) (hf : m.Executes i f) :
    (m.reconfigured g).Executes i (f.reconfigured g) := by
  have hlimit : m.config.stackLimit < m.sp →
      (m.reconfigured g).config.stackLimit < (m.reconfigured g).sp :=
    fun hroom => h.stackLimit.symm ▸ hroom
  cases hf with
  | hlt hop => exact .hlt hop
  | ldi hop hr hv hlt => exact .ldi hop hr hv hlt
  | prn hop hr hget => exact .prn hop hr hget
  | arith hop ha hb hx hy hv =>
      exact .arith hop ha hb hx hy ((h.overflow _ _ _ ⟨hop, _, _, ha, hb, hx, hy⟩).trans hv)
  | cmp hop ha hb hx hy => exact .cmp hop ha hb hx hy
  | push hop hr hget hroom => exact .push hop hr hget (hlimit hroom)
  | pop hop hr hlt hfull => exact .pop hop hr hlt hfull
  | call hop hr hget hnext hroom =>
      exact .call ((leavesReturn_reconfigured h).trans hop) hr hget hnext (hlimit hroom)
  | ret hop hfull => exact .ret hop hfull
  | jump htaken hmode hr hget => exact .jump htaken ((h.jumpMode htaken).trans hmode) hr hget
  | pass hjump hnot hr hget => exact .pass hjump hnot hr hget

theorem faults_reconfigured (h : m.AgreesAt g i) (he : m.Faults i e) :
    (m.reconfigured g).Faults i e := by
  cases he with
  | first hop hr => exact .first hop hr
  | second hop hr hv => exact .second hop hr hv
  | register hop hr hv hge => exact .register hop hr hv hge
  | secondRegister hop ha hb hlt hge => exact .secondRegister hop ha hb hlt hge
  | returnAddress hop hr hlt hnext =>
      exact .returnAddress ((leavesReturn_reconfigured h).trans hop) hr hlt hnext
  | overflow hop hr hlt hsp =>
      rw [← leavesReturn_reconfigured h] at hop
      exact .overflow hop hr hlt (h.stackLimit.symm ▸ hsp)
  | underflow hop hsp => exact .underflow hop hsp
  | arithmetic hop ha hb hx hy hv =>
      exact .arithmetic hop ha hb hx hy ((h.overflow _ _ _ ⟨hop, _, _, ha, hb, hx, hy⟩).trans hv)

/-- **An instruction that does not ask for what is changed does the same.** -/
theorem execute_reconfigured (h : m.AgreesAt g i) :
    (m.reconfigured g).execute i = (m.execute i).map (·.reconfigured g) := by
  cases hexec : m.execute i with
  | ok f => exact execute_of_executes (executes_reconfigured h (execute_eq_ok_iff.1 hexec))
  | error e => exact execute_of_faults (faults_reconfigured h (execute_eq_error_iff.1 hexec))

/-! ### Steps -/

theorem writeTrace_reconfigured (h : (g m.config).trace = m.config.trace) (s : Sinks) :
    (m.reconfigured g).writeTrace s = m.writeTrace s := by
  unfold writeTrace
  rw [show (m.reconfigured g).config.trace = m.config.trace from h]
  rfl

theorem traces_reconfigured (h : (g m.config).trace = m.config.trace) (ht : m.Traces s) :
    (m.reconfigured g).Traces s := by
  rw [Traces, writeTrace_reconfigured h]
  exact ht

/-- **A step that does not ask for what is changed does the same.**  If its trace line is refused,
it asks for nothing more. -/
theorem step_reconfigured (htrace : (g m.config).trace = m.config.trace)
    (h : m.Traces s → ∀ i, m.fetch = .ok i → m.AgreesAt g i) :
    (m.reconfigured g).step s = (m.step s).reconfigured g := by
  unfold step
  rw [writeTrace_reconfigured htrace, show (m.reconfigured g).fetch = m.fetch from rfl]
  cases hwrite : m.writeTrace s with
  | mk result t =>
      cases result with
      | error x => rfl
      | ok u =>
          cases hi : m.fetch with
          | error e => rfl
          | ok i =>
              have hagrees := h (by rw [Traces, hwrite]) i hi
              simp only [execute_reconfigured hagrees]
              cases hexec : m.execute i with
              | error e => rfl
              | ok f =>
                  simp only [Except.map, Effect.reconfigured]
                  cases hprint : writeValue t f.printed with
                  | mk result v => cases result <;> rfl

/-- **Steps that each do the same do so together.** -/
theorem stepped_reconfigured
    (h : ∀ j < k, ((m.stepped s j).machine.reconfigured g).step (m.stepped s j).sinks =
      ((m.stepped s j).machine.step (m.stepped s j).sinks).reconfigured g) :
    (m.reconfigured g).stepped s k = (m.stepped s k).reconfigured g := by
  induction k with
  | zero => rfl
  | succ k ih =>
      have hbefore := ih fun j hj => h j (Nat.lt_succ_of_lt hj)
      rw [stepped, hbefore]
      exact h k (Nat.lt_succ_self k)

/-- The step behind steps that do the same. -/
theorem stepped_succ_reconfigured
    (h : (m.reconfigured g).stepped s k = (m.stepped s k).reconfigured g) :
    (m.reconfigured g).stepped s (k + 1) =
      ((m.stepped s k).machine.reconfigured g).step (m.stepped s k).sinks := by
  rw [stepped, h]
  rfl

/-! ### Runs -/

theorem conclude_reconfigured (o : Outcome HaltReason) (g : Config → Config) :
    conclude (o.reconfigured g) = (conclude o).reconfigured g := by
  obtain ⟨result, m, s⟩ := o
  cases result with
  | error e => rfl
  | ok reason =>
      simp only [conclude, Outcome.reconfigured]
      cases s.out.flush <;> rfl

section CycleLimit

variable (hmax : ∀ c, (g c).maxCycles = c.maxCycles)
include hmax

theorem exhausted_reconfigured : (m.reconfigured g).exhausted = m.exhausted := by
  unfold exhausted
  rw [show (m.reconfigured g).config.maxCycles = m.config.maxCycles from hmax m.config]
  rfl

theorem budget_reconfigured : (m.reconfigured g).budget = m.budget := by
  unfold budget
  rw [show (m.reconfigured g).config.maxCycles = m.config.maxCycles from hmax m.config]
  rfl

/-- There is a reason to stop behind the same steps. -/
theorem stops_reconfigured_iff
    (h : (m.reconfigured g).stepped s k = (m.stepped s k).reconfigured g) :
    (m.reconfigured g).Stops s k ↔ m.Stops s k := by
  unfold Stops
  rw [h]
  change ((m.stepped s k).machine.reconfigured g).exhausted = true ∨ _ ↔ _
  rw [exhausted_reconfigured hmax]
  rfl

/-- **A run whose steps do the same does so itself,** if the cycle limit is not changed. -/
theorem run_reconfigured {o : Outcome Halt} (hrun : m.run s = some o)
    (hk : IsLeast {k | m.Stops s k} k)
    (h : ∀ j < k, ((m.stepped s j).machine.reconfigured g).step (m.stepped s j).sinks =
      ((m.stepped s j).machine.step (m.stepped s j).sinks).reconfigured g) :
    (m.reconfigured g).run s = some (o.reconfigured g) := by
  obtain ⟨k', hk', hle, rfl⟩ := exists_isLeast_of_run hrun
  obtain rfl : k = k' := Nat.le_antisymm (hk.2 hk'.1) (hk'.2 hk.1)
  have hsteps : ∀ j ≤ k, (m.reconfigured g).stepped s j = (m.stepped s j).reconfigured g :=
    fun j hj => stepped_reconfigured fun i hi => h i (Nat.lt_of_lt_of_le hi hj)
  have hleast : IsLeast {k | (m.reconfigured g).Stops s k} k := by
    refine ⟨(stops_reconfigured_iff hmax (hsteps k (Nat.le_refl k))).2 hk.1, fun j hj => ?_⟩
    by_contra hlt
    have hlt := Nat.lt_of_not_le hlt
    have hstops := (stops_reconfigured_iff hmax (hsteps j (Nat.le_of_lt hlt))).1 hj
    exact Nat.not_le.2 hlt (hk.2 hstops)
  rw [run_of_isLeast hleast (by rwa [budget_reconfigured hmax]),
    hsteps k (Nat.le_refl k), ← conclude_reconfigured]
  rfl

end CycleLimit

end Machine

end ByteMachine
