/-
**What the flags remember, and what they decide.**

Of all instructions only a comparison writes the flags, and only the two conditional jumps look at
them.  So the flags are a memory of one entry: they tell how the two values of the last comparison
that succeeded are ordered, whatever has been executed, has failed or has been written into memory
since.  And a machine whose flags are changed goes on as before, with its own flags, until it comes
to a conditional jump that takes the change for an answer, or to a comparison, which makes it forget
the change.

Main definitions:

* `ByteMachine.Machine.comparison?` — the values that a step compares;
* `ByteMachine.Move`, `Machine.behind` — steps, with memory changed from outside between them;
* `ByteMachine.Machine.comparisons` — all the values that are compared on the way;
* `ByteMachine.Flags.Tell` — flags that tell of a comparison, or of none;
* `ByteMachine.Machine.withFlags` — the machine with other flags.

Main results:

* `ByteMachine.Machine.flags_step` — **a step leaves the flags alone, or compares**;
* `ByteMachine.Machine.tell_behind` — moves keep what the flags tell up to date;
* `ByteMachine.Machine.step_withFlags` — **a step does not look at flags** that decide no jump;
* `ByteMachine.Machine.flags_tell_last_comparison` — both for machines from their beginning on.
-/

import ByteMachine.Proofs.Machine.Footprint
import ByteMachine.Proofs.Machine.Frame
import ByteMachine.Proofs.Machine.Reconfigured

set_option relaxedAutoImplicit false
set_option autoImplicit false

namespace ByteMachine

/-- **The flags tell how two values are ordered,** as one bit, or that none have been compared. -/
def Flags.Tell (f : Flags) : Option (UInt8 × UInt8) → Prop
  | .none => f.bits = 0
  | .some (x, y) => f.bits = 0b001 ∧ x = y ∨ f.bits = 0b010 ∧ y < x ∨ f.bits = 0b100 ∧ x < y

theorem Flags.tell_compare (x y : UInt8) : (Flags.compare x y).Tell (some (x, y)) := by
  unfold compare
  split
  · rename_i hlt
    exact .inr (.inr ⟨rfl, hlt⟩)
  · rename_i hge
    split
    · rename_i heq
      exact .inl ⟨rfl, heq⟩
    · rename_i hne
      refine .inr (.inl ⟨rfl, ?_⟩)
      rw [UInt8.not_lt] at hge
      exact UInt8.lt_of_le_of_ne hge (Ne.symm hne)

/-- **A move of a machine:** a step, or its memory is changed from outside. -/
inductive Move where
  | step (sinks : Sinks)
  | memory (memory : Memory)

namespace Machine

variable {m m' : Machine} {i : Instruction} {f : Flags} {r : Effect} {e : Fault} {s : Sinks}
  {x y : UInt8}

/-! ### Comparisons -/

/-- The values in the registers that the operands name. -/
def operandValues? (m : Machine) (i : Instruction) : Option (UInt8 × UInt8) := do
  let x ← (m.registers.get (← i.first?)).toOption
  let y ← (m.registers.get (← i.second?)).toOption
  return (x, y)

/-- **The values that a step compares,** if a comparison stands at the program counter and the step
succeeds. -/
def comparison? (m : Machine) (s : Sinks) : Option (UInt8 × UInt8) :=
  match (m.step s).result, m.fetch with
  | .ok _, .ok i => if i.opcode = .cmp then m.operandValues? i else none
  | _, _ => none

/-- **The machine behind a move.** -/
def moved (m : Machine) : Move → Machine
  | .step s => (m.step s).machine
  | .memory memory => m.withMemory memory

/-- **The machine behind moves** that are made one after the other. -/
def behind (m : Machine) : List Move → Machine
  | [] => m
  | k :: ks => (m.moved k).behind ks

/-- **The values that the moves compare,** in this order. -/
def comparisons (m : Machine) : List Move → List (UInt8 × UInt8)
  | [] => []
  | .step s :: ks => (m.comparison? s).toList ++ (m.step s).machine.comparisons ks
  | .memory memory :: ks => (m.withMemory memory).comparisons ks

theorem operandValues?_of_computes {op : AluOp} (h : m.Computes i op x y) :
    m.operandValues? i = some (x, y) := by
  obtain ⟨-, a, b, ha, hb, hx, hy⟩ := h
  simp [operandValues?, ha, hb, hx, hy, Except.toOption]

/-! ### Writing the flags -/

/-- **An instruction leaves the flags alone, or compares.** -/
theorem flags_executes (hf : m.Executes i r) :
    i.opcode ≠ .cmp ∧ r.machine.flags = m.flags ∨
      ∃ x y, m.Computes i .cmp x y ∧ r = ((m.compared x y).goto i.next).proceed := by
  cases hf with
  | @arith op a b x y v hop ha hb hx hy hv =>
      left
      refine ⟨fun hcmp => ?_, rfl⟩
      rw [hcmp] at hop
      cases hop
      cases hv
  | cmp hop ha hb hx hy =>
      right
      refine ⟨_, _, ⟨?_, _, _, ha, hb, hx, hy⟩, rfl⟩
      rw [hop]
      rfl
  | hlt hop | ldi hop | prn hop | push hop | pop hop | ret hop =>
      exact .inl ⟨by rw [hop]; decide, rfl⟩
  | call hop | jump hop | pass hop =>
      refine .inl ⟨fun hcmp => ?_, rfl⟩
      rw [hcmp] at hop
      cases hop

theorem executes_of_computes (h : m.Computes i .cmp x y) :
    m.Executes i ((m.compared x y).goto i.next).proceed := by
  obtain ⟨hop, a, b, ha, hb, hx, hy⟩ := h
  exact .cmp (AluOp.eq_cmp_of_ofOpcode? hop) ha hb hx hy

/-- **A step compares** if it succeeds and its instruction asks for a comparison. -/
theorem comparison?_eq_some_iff :
    m.comparison? s = some (x, y) ↔
      (∃ p, (m.step s).result = .ok p) ∧ ∃ i, m.fetch = .ok i ∧ m.Computes i .cmp x y := by
  constructor
  · intro h
    unfold comparison? at h
    split at h
    · rename_i p i hresult hi
      obtain ⟨hop, hvalues⟩ := Option.ite_none_right_eq_some.1 h
      obtain ⟨_, r, hi', hf, -⟩ := exists_executes_of_step hresult
      obtain rfl := Except.ok.inj (hi.symm.trans hi')
      rcases flags_executes hf with ⟨hne, -⟩ | ⟨x', y', hxy, -⟩
      · exact absurd hop hne
      · rw [operandValues?_of_computes hxy] at hvalues
        cases hvalues
        exact ⟨⟨p, hresult⟩, i, hi, hxy⟩
    · cases h
  · rintro ⟨⟨p, hresult⟩, i, hi, hxy⟩
    unfold comparison?
    rw [hresult, hi]
    dsimp only
    rw [if_pos (AluOp.eq_cmp_of_ofOpcode? hxy.1), operandValues?_of_computes hxy]

/-- **A step leaves the flags alone, or compares.** -/
theorem flags_step (m : Machine) (s : Sinks) :
    m.comparison? s = none ∧ (m.step s).machine.flags = m.flags ∨
      ∃ x y, m.comparison? s = some (x, y) ∧ (m.step s).machine.flags = .compare x y := by
  cases h : (m.step s).result with
  | error e =>
      refine .inl ⟨by rw [comparison?, h], ?_⟩
      rcases machine_step_of_error h with hm | hm
      · rw [hm]
      · rw [hm]
        rfl
  | ok p =>
      obtain ⟨i, r, hi, hf, hm, -⟩ := exists_executes_of_step h
      rw [hm]
      rcases flags_executes hf with ⟨hop, hflags⟩ | ⟨x, y, hxy, rfl⟩
      · refine .inl ⟨?_, hflags⟩
        rw [comparison?, h, hi]
        exact if_neg hop
      · exact .inr ⟨x, y, comparison?_eq_some_iff.2 ⟨⟨p, h⟩, i, hi, hxy⟩, rfl⟩

/-- **Moves keep what the flags tell up to date.** -/
theorem tell_behind {last : Option (UInt8 × UInt8)} (h : m.flags.Tell last) (ks : List Move) :
    (m.behind ks).flags.Tell ((m.comparisons ks).getLast?.or last) := by
  -- induction on the moves; what the first one compares is last if no other one compares
  induction ks generalizing m last with
  | nil => exact h
  | cons k ks ih =>
      cases k with
      | memory memory => exact ih (m := m.withMemory memory) h
      | step s =>
          rw [comparisons]
          rcases m.flags_step s with ⟨hnone, hflags⟩ | ⟨x, y, hsome, hflags⟩
          · rw [hnone, Option.toList_none, List.nil_append]
            exact ih (hflags ▸ h)
          · rw [hsome, Option.toList_some, List.getLast?_append, Option.or_assoc]
            exact ih (hflags ▸ Flags.tell_compare x y)

/-- **The moves that a call makes.**  A run makes steps up to the first reason to stop; a call that
writes memory from outside does so, or fails and leaves it as it is. -/
inductive Makes (m : Machine) : Call → List Move → Prop
  | load (image : List UInt8) : Makes m (.load image) [.memory (m.orKeep (m.load image)).memory]
  | loadProgram (program : Program) :
      Makes m (.loadProgram program) [.memory (m.orKeep (m.loadProgram program)).memory]
  | poke (address : Nat) (value : UInt8) :
      Makes m (.poke address value) [.memory (m.orKeep (m.poke address value)).memory]
  | step (s : Sinks) : Makes m (.step s) [.step s]
  | run {s : Sinks} {k : Nat} (hk : IsLeast {k | m.Stops s k} k) :
      Makes m (.run s) ((m.sinksBefore s k).map .step)

theorem behind_map_step (m : Machine) (ss : List Sinks) :
    m.behind (ss.map .step) = m.afterSteps ss := by
  induction ss generalizing m with
  | nil => rfl
  | cons s ss ih => exact ih (m.step s).machine

theorem orKeep_load (m : Machine) (image : List UInt8) :
    m.orKeep (m.load image) = m.withMemory (m.orKeep (m.load image)).memory := by
  unfold load
  cases m.memory.load image <;> rfl

theorem orKeep_poke (m : Machine) (a : Nat) (v : UInt8) :
    m.orKeep (m.poke a v) = m.withMemory (m.orKeep (m.poke a v)).memory := by
  unfold poke
  cases m.memory.write a v <;> rfl

/-- **A call makes moves,** and nothing else. -/
theorem exists_makes_of_after {c : Call} (h : m.after c = some m') :
    ∃ ks, m.Makes c ks ∧ m' = m.behind ks := by
  cases c with
  | load image =>
      cases h
      exact ⟨_, .load image, m.orKeep_load image⟩
  | loadProgram program =>
      cases h
      exact ⟨_, .loadProgram program, m.orKeep_load program.bytes⟩
  | poke a v =>
      cases h
      exact ⟨_, .poke a v, m.orKeep_poke a v⟩
  | step s =>
      cases h
      exact ⟨_, .step s, rfl⟩
  | run s =>
      obtain ⟨o, hrun, rfl⟩ := Option.map_eq_some_iff.1 h
      obtain ⟨k, hk, -, rfl⟩ := exists_isLeast_of_run hrun
      refine ⟨_, .run hk, ?_⟩
      rw [machine_conclude, behind_map_step, afterSteps_sinksBefore]
      rfl

/-! ### Reading the flags -/

/-- The machine with other flags. -/
def withFlags (m : Machine) (f : Flags) : Machine := { m with flags := f }

theorem takes_of_ne {op : Opcode}
    (h : op = .jeq ∨ op = .jne → f.equal = m.flags.equal) : op.takes f = op.takes m.flags := by
  cases op with
  | jeq => exact h (.inl rfl)
  | jne => exact congrArg not (h (.inr rfl))
  | _ => rfl

section Branches

variable (hjump : i.opcode = .jeq ∨ i.opcode = .jne → f.equal = m.flags.equal)
include hjump

theorem leavesReturn_withFlags :
    (m.withFlags f).leavesReturn i.opcode = m.leavesReturn i.opcode := by
  unfold leavesReturn
  rw [show (m.withFlags f).flags = f from rfl, takes_of_ne hjump]
  rfl

/-- With other flags an instruction fails in the same way. -/
theorem faults_withFlags (he : m.Faults i e) : (m.withFlags f).Faults i e := by
  cases he with
  | first hop hr => exact .first hop hr
  | second hop hr hv => exact .second hop hr hv
  | register hop hr hv hge => exact .register hop hr hv hge
  | secondRegister hop ha hb hlt hge => exact .secondRegister hop ha hb hlt hge
  | returnAddress hop hr hlt hnext =>
      exact .returnAddress ((leavesReturn_withFlags hjump).trans hop) hr hlt hnext
  | overflow hop hr hlt hsp =>
      rw [← leavesReturn_withFlags hjump] at hop
      exact .overflow hop hr hlt hsp
  | underflow hop hsp => exact .underflow hop hsp
  | arithmetic hop ha hb hx hy hv => exact .arithmetic hop ha hb hx hy hv

/-- It takes the same effect, on the machine with these flags, if it is no comparison. -/
theorem executes_withFlags (hop : i.opcode ≠ .cmp) (hf : m.Executes i r) :
    (m.withFlags f).Executes i { r with machine := r.machine.withFlags f } := by
  cases hf with
  | hlt hop => exact .hlt hop
  | ldi hop hr hv hlt => exact .ldi hop hr hv hlt
  | prn hop hr hget => exact .prn hop hr hget
  | arith hop ha hb hx hy hv => exact .arith hop ha hb hx hy hv
  | cmp hcmp => exact absurd hcmp hop
  | push hop hr hget hroom => exact .push hop hr hget hroom
  | pop hop hr hlt hfull => exact .pop hop hr hlt hfull
  | call hop hr hget hnext hroom =>
      exact .call ((leavesReturn_withFlags hjump).trans hop) hr hget hnext hroom
  | ret hop hfull => exact .ret hop hfull
  | jump htaken hmode hr hget => exact .jump ((takes_of_ne hjump).trans htaken) hmode hr hget
  | pass hop hnot hr hget => exact .pass hop ((takes_of_ne hjump).trans hnot) hr hget

end Branches

/-- A step that compares, without a trace. -/
theorem step_of_computes (htrace : m.config.trace = false) (hi : m.fetch = .ok i)
    (h : m.Computes i .cmp x y) (s : Sinks) :
    m.step s = ⟨.ok .running, ((m.compared x y).goto i.next).tick, s⟩ := by
  have hwrite := writeTrace_of_trace_eq_false htrace s
  have hstep := step_of_executes (congrArg Prod.fst hwrite) hi (executes_of_computes h) rfl
  rw [hstep, hwrite]
  rfl

/-- A step of the machine with other flags, if its instruction takes the same effect. -/
theorem step_withFlags_of_execute (htrace : m.config.trace = false)
    (h : ∀ i, m.fetch = .ok i → (m.withFlags f).execute i =
      (m.execute i).map fun r => { r with machine := r.machine.withFlags f }) :
    (m.withFlags f).step s = { m.step s with machine := (m.step s).machine.withFlags f } := by
  have hwrite := writeTrace_of_trace_eq_false htrace s
  have htrace' : (m.withFlags f).config.trace = false := htrace
  have hwrite' := writeTrace_of_trace_eq_false htrace' s
  have hfetch : (m.withFlags f).fetch = m.fetch := rfl
  cases hi : m.fetch with
  | error e => simp only [step, hwrite, hwrite', hfetch, hi]
  | ok i =>
      simp only [step, hwrite, hwrite', hfetch, hi, h i hi]
      cases m.execute i with
      | error e => rfl
      | ok r =>
          simp only [Except.map]
          cases writeValue s r.printed with
          | mk result t => cases result <;> rfl

/-- **A step does not look at flags that decide no jump.**  If it compares, it forgets them. -/
theorem step_withFlags (htrace : m.config.trace = false)
    (hjump : ∀ i, m.fetch = .ok i → i.opcode = .jeq ∨ i.opcode = .jne → f.equal = m.flags.equal)
    (s : Sinks) :
    m.comparison? s = none ∧ (m.withFlags f).step s =
        { m.step s with machine := (m.step s).machine.withFlags f } ∨
      (m.comparison? s).isSome = true ∧ (m.withFlags f).step s = m.step s := by
  by_cases hcompares : ∃ i x y, m.fetch = .ok i ∧ m.Computes i .cmp x y
  · obtain ⟨i, x, y, hi, hxy⟩ := hcompares
    have hstep := step_of_computes htrace hi hxy s
    have hstep' : (m.withFlags f).step s = _ :=
      step_of_computes (m := m.withFlags f) htrace hi hxy s
    refine .inr ⟨?_, hstep'.trans hstep.symm⟩
    rw [comparison?_eq_some_iff.2 ⟨⟨_, congrArg Outcome.result hstep⟩, i, hi, hxy⟩]
    rfl
  · refine .inl ⟨?_, step_withFlags_of_execute htrace fun i hi => ?_⟩
    · refine Option.eq_none_iff_forall_ne_some.2 fun (x, y) hsome => hcompares ?_
      obtain ⟨-, i, hi, hxy⟩ := comparison?_eq_some_iff.1 hsome
      exact ⟨i, x, y, hi, hxy⟩
    · cases hf : m.execute i with
      | error e =>
          exact execute_of_faults (faults_withFlags (hjump i hi) (faults_of_execute_eq_error hf))
      | ok r =>
          have hr := execute_eq_ok_iff.1 hf
          rcases flags_executes hr with ⟨hop, -⟩ | ⟨x, y, hxy, -⟩
          · exact execute_of_executes (executes_withFlags (hjump i hi) hop hr)
          · exact absurd ⟨i, x, y, hi, hxy⟩ hcompares

/-- **The flags tell of the last comparison, and only jumps look at them.**  From a new machine on,
however many moves are made, and whether its steps succeed or fail, the flags hold nothing if no
comparison has succeeded, and otherwise the one bit that tells how the two values of the last one
are ordered.  Calls make such moves and nothing else.

Where there is no trace, let a machine be given other flags, which only have to give the same answer
to a conditional jump if one comes next.  Then its step has the same result and writes the same to
its sinks.  If it does not compare, the machine behind it is the same but for the flags, and these
are in both machines what they were; if it does, the machine behind it is the same, and the flags
tell of this comparison. -/
theorem flags_tell_last_comparison :
    (∀ (c : Config) (ks : List Move),
      ((fresh c).behind ks).flags.Tell ((fresh c).comparisons ks).getLast?) ∧
    (∀ (m m' : Machine) (c : Call), m.after c = some m' → ∃ ks, m.Makes c ks ∧ m' = m.behind ks) ∧
    ∀ (m : Machine) (f : Flags) (s : Sinks), m.config.trace = false →
      (∀ i, m.fetch = .ok i → i.opcode = .jeq ∨ i.opcode = .jne → f.equal = m.flags.equal) →
      (m.comparison? s = none →
        (m.withFlags f).step s = { m.step s with machine := (m.step s).machine.withFlags f } ∧
          (m.step s).machine.flags = m.flags) ∧
      ∀ x y, m.comparison? s = some (x, y) →
        (m.withFlags f).step s = m.step s ∧ (m.step s).machine.flags.Tell (some (x, y)) := by
  refine ⟨fun c ks => ?_, fun m m' c => exists_makes_of_after, fun m f s htrace hjump =>
    ⟨fun hnone => ?_, fun x y hsome => ?_⟩⟩
  · have hnew : (fresh c).flags.Tell none := rfl
    have htell := tell_behind hnew ks
    rwa [Option.or_none] at htell
  · rcases step_withFlags htrace hjump s with ⟨-, hstep⟩ | ⟨hcompares, -⟩
    · rcases m.flags_step s with ⟨-, hflags⟩ | ⟨x, y, hsome, -⟩
      · exact ⟨hstep, hflags⟩
      · rw [hsome] at hnone
        cases hnone
    · rw [hnone] at hcompares
      cases hcompares
  · rcases step_withFlags htrace hjump s with ⟨hnone, -⟩ | ⟨-, hstep⟩
    · rw [hsome] at hnone
      cases hnone
    · rcases m.flags_step s with ⟨hnone, -⟩ | ⟨x', y', hsome', hflags⟩
      · rw [hsome] at hnone
        cases hnone
      · cases hsome.symm.trans hsome'
        exact ⟨hstep, hflags ▸ Flags.tell_compare x y⟩

/-- A machine that compares a register with its stack pointer, and then comes to a byte that is no
opcode. -/
def comparesAndFails : Machine :=
  (fresh .default).withMemory (((Memory.empty.put 0 0xA7).put 2 7).put 3 0xFF)

/-- Its memory is written, it compares and fails, and its memory is gone. -/
def movesToFailure : List Move :=
  [.memory comparesAndFails.memory, .step .unlimited, .step .unlimited, .memory .empty]

/-- The flags tell of the comparison behind all this, whatever they were before it; at the failure
they stay what they are. -/
theorem less_behind_failure :
    (fresh .default).comparisons movesToFailure = [(0, 0xF4)] ∧
    ((fresh .default).behind movesToFailure).flags.Tell (some (0, 0xF4)) ∧
    (∃ ks, (fresh .default).Makes (.step .unlimited) ks ∧
      ((fresh .default).step .unlimited).machine = (fresh .default).behind ks) ∧
    (∀ f, (comparesAndFails.withFlags f).step .unlimited = comparesAndFails.step .unlimited) ∧
    ∀ f, ((comparesAndFails.goto 3).withFlags f).step .unlimited =
      { (comparesAndFails.goto 3).step .unlimited with
        machine := (comparesAndFails.goto 3).withFlags f } := by
  obtain ⟨htell, hmakes, hstep⟩ := flags_tell_last_comparison
  have hcmp : ∀ (f : Flags) i, comparesAndFails.fetch = .ok i →
      i.opcode = .jeq ∨ i.opcode = .jne → f.equal = comparesAndFails.flags.equal := by
    rintro f i hi (hop | hop) <;> cases hi <;> cases hop
  have hnothing : ∀ (f : Flags) i, (comparesAndFails.goto 3).fetch = .ok i →
      i.opcode = .jeq ∨ i.opcode = .jne → f.equal = (comparesAndFails.goto 3).flags.equal := by
    rintro f i hi -
    cases hi
  exact ⟨rfl, htell .default movesToFailure, hmakes _ _ (.step .unlimited) rfl,
    fun f => ((hstep _ f .unlimited rfl (hcmp f)).2 0 0xF4 rfl).1,
    fun f => ((hstep _ f .unlimited rfl (hnothing f)).1 rfl).1⟩

end Machine

end ByteMachine
