/-
**What a step reads of memory.**

The machine looks at three bytes from its program counter on, whatever the instruction is, and its
memory holds much more.  But a step asks only for a few of these bytes: the opcode, the operands that
the opcode asks for, and the byte on top of the stack if the instruction takes it off.  Whatever the
other bytes are, the step is the same: it ends in the same way, prints the same, and leaves the same
machine behind, but for the memory.  That is changed by the same byte at the same address, or not at
all.

Main definitions:

* `ByteMachine.Machine.Reads` — the addresses that the next step reads;
* `ByteMachine.Machine.withMemory` — the machine with another memory;
* `ByteMachine.Memory.storing` — memory with one byte stored, or none;
* `ByteMachine.Instruction.Alike` — instructions with the same opcode and operands.

Main results:

* `ByteMachine.Machine.execute_of_alike` — an instruction reads only its operands;
* `ByteMachine.Machine.exists_executes_withMemory` — of memory it reads the top of the stack;
* `ByteMachine.Machine.steps_read_their_footprint` — **a step reads only these bytes**, and steps
  read only what one of them reads.
-/

import ByteMachine.Proofs.Machine.Iteration

set_option relaxedAutoImplicit false
set_option autoImplicit false

namespace ByteMachine

/-- **Memory with one byte stored,** or with none: `w` is an address and the byte. -/
def Memory.storing (m : Memory) (w : Option (UInt8 × UInt8)) : Memory :=
  match w with
  | some (a, v) => m.put a v
  | none => m

/-- What is stored does not tell memories apart that agree. -/
theorem Memory.peek_storing_congr {m n : Memory} {a : Nat} (h : n.peek a = m.peek a)
    (w : Option (UInt8 × UInt8)) : (n.storing w).peek a = (m.storing w).peek a := by
  cases w with
  | none => exact h
  | some w =>
      simp only [storing, peek_put]
      split
      · rfl
      · exact h

/-- **The instruction has the same opcode and address as another one,** and the same operands as far
as the opcode asks for them. -/
structure Instruction.Alike (i j : Instruction) : Prop where
  opcode : j.opcode = i.opcode
  address : j.address = i.address
  first? : 1 ≤ i.opcode.operandCount → j.first? = i.first?
  second? : i.opcode.operandCount = 2 → j.second? = i.second?

namespace Machine

/-- The machine with another memory. -/
def withMemory (m : Machine) (memory : Memory) : Machine := { m with memory }

@[simp] theorem memory_withMemory (m : Machine) (memory : Memory) :
    (m.withMemory memory).memory = memory := rfl

@[simp] theorem pc_withMemory (m : Machine) (memory : Memory) :
    (m.withMemory memory).pc = m.pc := rfl

/-- **The addresses that the next step reads:** of its opcode, of the operands that the opcode asks
for, and of the top of the stack if the instruction takes a byte off. -/
inductive Reads (m : Machine) : Nat → Prop
  | opcode : Reads m m.pc
  | operand {op : Opcode} {k : Nat} (hop : m.memory.peek m.pc = some op.encode)
      (hk : k ≤ op.operandCount) : Reads m (m.pc + k)
  | top {op : Opcode} (hop : m.memory.peek m.pc = some op.encode) (hpops : op = .pop ∨ op = .ret) :
      Reads m m.sp.toNat

variable {m : Machine} {memory : Memory} {i j : Instruction} {f : Effect} {e : Fault} {s : Sinks}
  {k : Nat}

/-! ### Instructions -/

theorem first_of_alike (h : i.Alike j) (hop : 1 ≤ i.opcode.operandCount) : j.first = i.first := by
  simp only [Instruction.first, h.first? hop, h.address]

theorem second_of_alike (h : i.Alike j) (hop : i.opcode.operandCount = 2) :
    j.second = i.second := by
  simp only [Instruction.second, h.second? hop, h.address]

/-- **An instruction reads only the operands that it asks for.** -/
theorem execute_of_alike (m : Machine) (h : i.Alike j) : m.execute j = m.execute i := by
  have hnext : j.next = i.next := by simp only [Instruction.next, h.opcode, h.address]
  have hfirst := first_of_alike h
  have hsecond := second_of_alike h
  cases hop : i.opcode with
  | hlt | ret =>
      have hop' := h.opcode.trans hop
      simp only [execute, hop, hop']
  | ldi | add | mul | cmp =>
      have hop' := h.opcode.trans hop
      have htwo : i.opcode.operandCount = 2 := congrArg Opcode.operandCount hop
      simp only [execute, arithmetic, hop, hop', hfirst (by omega), hsecond htwo, hnext]
  | prn | push | pop | call =>
      have hop' := h.opcode.trans hop
      have hone : i.opcode.operandCount = 1 := congrArg Opcode.operandCount hop
      simp only [execute, pushReturn, hop, hop', hfirst (by omega), hnext]
  | jmp | jeq | jne =>
      have hop' := h.opcode.trans hop
      have hone : i.opcode.operandCount = 1 := congrArg Opcode.operandCount hop
      simp only [execute, branch, pushReturn, hop, hop', hfirst (by omega), hnext]

/-- An instruction fails in the same way with another memory. -/
theorem faults_withMemory (he : m.Faults i e) (memory : Memory) :
    (m.withMemory memory).Faults i e := by
  cases he with
  | first hop hr => exact .first hop hr
  | second hop hr hv => exact .second hop hr hv
  | register hop hr hv hge => exact .register hop hr hv hge
  | secondRegister hop ha hb hlt hge => exact .secondRegister hop ha hb hlt hge
  | returnAddress hop hr hlt hnext => exact .returnAddress hop hr hlt hnext
  | overflow hop hr hlt hsp => exact .overflow hop hr hlt hsp
  | underflow hop hsp => exact .underflow hop hsp
  | arithmetic hop ha hb hx hy hv => exact .arithmetic hop ha hb hx hy hv

/-- It takes the same effect, if the byte that it takes off the stack is the same. -/
theorem exists_executes_withMemory (hf : m.Executes i f)
    (htop : i.opcode = .pop ∨ i.opcode = .ret → memory.byteAt m.sp = m.memory.byteAt m.sp) :
    ∃ w, f.machine.memory = m.memory.storing w ∧
      (m.withMemory memory).Executes i
        { f with machine := f.machine.withMemory (memory.storing w) } := by
  cases hf with
  | hlt hop => exact ⟨none, rfl, .hlt hop⟩
  | ldi hop hr hv hlt => exact ⟨none, rfl, .ldi hop hr hv hlt⟩
  | prn hop hr hget => exact ⟨none, rfl, .prn hop hr hget⟩
  | arith hop ha hb hx hy hv => exact ⟨none, rfl, .arith hop ha hb hx hy hv⟩
  | cmp hop ha hb hx hy => exact ⟨none, rfl, .cmp hop ha hb hx hy⟩
  | @push r v hop hr hget hroom => exact ⟨some (m.sp - 1, v), rfl, .push hop hr hget hroom⟩
  | pop hop hr hlt hfull =>
      refine ⟨none, rfl, ?_⟩
      rw [← htop (.inl hop)]
      exact .pop hop hr hlt hfull
  | call hop hr hget hnext hroom =>
      exact ⟨some (m.sp - 1, UInt8.ofNat i.next), rfl, .call hop hr hget hnext hroom⟩
  | ret hop hfull =>
      refine ⟨none, rfl, ?_⟩
      rw [← htop (.inr hop)]
      exact .ret hop hfull
  | jump hop hmode hr hget => exact ⟨none, rfl, .jump hop hmode hr hget⟩
  | pass hop hnot hr hget => exact ⟨none, rfl, .pass hop hnot hr hget⟩

/-! ### Fetching -/

/-- Where nothing is fetched, another memory with the same opcode byte makes no difference. -/
theorem fetch_withMemory_of_error (h : memory.peek m.pc = m.memory.peek m.pc)
    (hi : m.fetch = .error e) : (m.withMemory memory).fetch = .error e := by
  rw [fetch_eq_error_iff] at hi ⊢
  simp only [pc_withMemory, memory_withMemory, h]
  exact hi

/-- From another memory that agrees in what is read, an instruction is fetched that is alike. -/
theorem exists_fetch_withMemory (h : ∀ a, m.Reads a → memory.peek a = m.memory.peek a)
    (hi : m.fetch = .ok i) : ∃ j, (m.withMemory memory).fetch = .ok j ∧ i.Alike j := by
  obtain ⟨hbyte, haddress, hfirst, hsecond⟩ := fetch_eq_ok_iff.1 hi
  refine ⟨⟨i.opcode, m.pc, memory.peek (m.pc + 1), memory.peek (m.pc + 2)⟩,
    fetch_eq_ok_iff.2 ⟨(h _ .opcode).trans hbyte, rfl, rfl, rfl⟩, rfl, haddress.symm, ?_, ?_⟩
  · intro hop
    exact (h _ (.operand hbyte hop)).trans hfirst.symm
  · intro hop
    exact (h _ (.operand hbyte (Nat.le_of_eq hop.symm))).trans hsecond.symm

/-! ### Steps -/

/-- **Of memory a step reads its footprint:** with another memory that holds the same bytes there, it
is the same step. -/
theorem exists_step_withMemory (htrace : m.config.trace = false)
    (h : ∀ a, m.Reads a → memory.peek a = m.memory.peek a) :
    ∃ w, (m.step s).machine.memory = m.memory.storing w ∧
      (m.withMemory memory).step s =
        { m.step s with machine := (m.step s).machine.withMemory (memory.storing w) } := by
  have hwrite := writeTrace_of_trace_eq_false htrace s
  have htrace' : (m.withMemory memory).config.trace = false := htrace
  have hwrite' := writeTrace_of_trace_eq_false htrace' s
  cases hi : m.fetch with
  | error e =>
      have hi' := fetch_withMemory_of_error (h _ .opcode) hi
      simp only [step, hwrite, hwrite', hi, hi']
      exact ⟨none, rfl, rfl⟩
  | ok i =>
      obtain ⟨j, hj, hsame⟩ := exists_fetch_withMemory h hi
      have hexec := execute_of_alike (m.withMemory memory) hsame
      cases hf : m.execute i with
      | error e =>
          have hf' := execute_of_faults (faults_withMemory (faults_of_execute_eq_error hf) memory)
          simp only [step, hwrite, hwrite', hi, hj, hexec, hf, hf']
          exact ⟨none, rfl, rfl⟩
      | ok f =>
          obtain ⟨hbyte, -⟩ := fetch_eq_ok_iff.1 hi
          have htop : i.opcode = .pop ∨ i.opcode = .ret →
              memory.byteAt m.sp = m.memory.byteAt m.sp := by
            intro hpops
            have hpeek := h _ (.top hbyte hpops)
            rw [Memory.peek_toNat, Memory.peek_toNat] at hpeek
            exact Option.some.inj hpeek
          obtain ⟨w, hw, hf'⟩ := exists_executes_withMemory (execute_eq_ok_iff.1 hf) htop
          have hf' := execute_of_executes hf'
          simp only [step, hwrite, hwrite', hi, hj, hexec, hf, hf']
          cases hprint : writeValue s f.printed with
          | mk result t =>
              cases result with
              | error x => exact ⟨none, rfl, rfl⟩
              | ok u => exact ⟨w, hw, rfl⟩

/-- **Steps read only what one of them reads.**  With another memory that holds the same bytes in a
region where each of the steps reads, the machine goes on in the same way, and the memories keep
the same bytes there. -/
theorem exists_stepped_withMemory {region : Nat → Prop} (htrace : m.config.trace = false)
    (hreads : ∀ l < k, ∀ a, (m.stepped s l).machine.Reads a → region a)
    (h : ∀ a, region a → memory.peek a = m.memory.peek a) :
    ∃ memory', (m.withMemory memory).stepped s k =
        { m.stepped s k with machine := (m.stepped s k).machine.withMemory memory' } ∧
      ∀ a, region a → memory'.peek a = (m.stepped s k).machine.memory.peek a := by
  -- induction on the steps; what each of them stores, it stores into both memories
  induction k with
  | zero => exact ⟨memory, rfl, h⟩
  | succ k ih =>
      obtain ⟨memory', hstepped, hagrees⟩ := ih fun l hl => hreads l (Nat.lt_succ_of_lt hl)
      have htrace' : (m.stepped s k).machine.config.trace = false := by
        rw [config_stepped]
        exact htrace
      obtain ⟨w, hw, hstep⟩ := exists_step_withMemory (s := (m.stepped s k).sinks) htrace'
        fun a ha => hagrees a (hreads k (Nat.lt_succ_self k) a ha)
      refine ⟨memory'.storing w, ?_, fun a ha => ?_⟩
      · rw [stepped, hstepped]
        exact hstep
      · rw [stepped, hw]
        exact Memory.peek_storing_congr (hagrees a ha) w

/-- **A step reads only its instruction and the top of the stack.**  There is no trace.  Let another
memory hold the same bytes where the next step reads: the opcode, the operands that this asks for as
far as they lie in memory, and the top of the stack if the instruction takes a byte off.  Then the
step with the other memory has the same result, or fails with the same fault, and writes the same to
its sinks; the machine behind it has the same registers, flags, stack base, program counter and
count.  Of memory both steps change the same byte to the same value, or none.  So any number of
steps are the same with another memory that holds the same bytes where one of them reads. -/
theorem steps_read_their_footprint (m : Machine) (htrace : m.config.trace = false) :
    (∀ (memory : Memory) (s : Sinks), (∀ a, m.Reads a → memory.peek a = m.memory.peek a) →
      ∃ w, (m.step s).machine.memory = m.memory.storing w ∧
        (m.withMemory memory).step s =
          { m.step s with machine := (m.step s).machine.withMemory (memory.storing w) }) ∧
    ∀ (memory : Memory) (s : Sinks) (k : Nat),
      (∀ a, (∃ l < k, (m.stepped s l).machine.Reads a) → memory.peek a = m.memory.peek a) →
      ∃ memory', (m.withMemory memory).stepped s k =
        { m.stepped s k with machine := (m.stepped s k).machine.withMemory memory' } := by
  refine ⟨fun memory s h => exists_step_withMemory htrace h, fun memory s k h => ?_⟩
  obtain ⟨memory', hstepped, -⟩ :=
    exists_stepped_withMemory htrace (fun l hl a ha => ⟨l, hl, ha⟩) h
  exact ⟨memory', hstepped⟩

/-- A machine that pushes its stack pointer. -/
def pushesStackPointer : Machine :=
  { fresh .default with memory := (Memory.empty.put 0 0x45).put 1 7 }

/-- The byte behind the push is looked at and not read: any other one may stand there. -/
theorem push_does_not_read_on :
    pushesStackPointer.config.trace = false ∧
      (∀ a, pushesStackPointer.Reads a →
        (pushesStackPointer.memory.put 2 0xFF).peek a = pushesStackPointer.memory.peek a) ∧
      ∃ w, (pushesStackPointer.step .unlimited).machine.memory =
          pushesStackPointer.memory.storing w ∧
        (pushesStackPointer.withMemory (pushesStackPointer.memory.put 2 0xFF)).step .unlimited =
          { pushesStackPointer.step .unlimited with
            machine := (pushesStackPointer.step .unlimited).machine.withMemory
              ((pushesStackPointer.memory.put 2 0xFF).storing w) } := by
  have hagrees : ∀ a, pushesStackPointer.Reads a →
      (pushesStackPointer.memory.put 2 0xFF).peek a = pushesStackPointer.memory.peek a := by
    intro a ha
    rw [Memory.peek_put]
    refine if_neg ?_
    have hpush : ∀ op : Opcode, pushesStackPointer.memory.peek 0 = some op.encode → op = .push := by
      intro op hop
      cases op <;> first | rfl | exact absurd hop (by decide)
    cases ha with
    | opcode => decide
    | operand hop hk =>
        obtain rfl := hpush _ hop
        have hone : Opcode.push.operandCount = 1 := rfl
        have hpc : pushesStackPointer.pc = 0 := rfl
        have htwo : (2 : UInt8).toNat = 2 := rfl
        omega
    | top => decide
  obtain ⟨hstep, -⟩ := steps_read_their_footprint pushesStackPointer rfl
  exact ⟨rfl, hagrees, hstep _ .unlimited hagrees⟩

end Machine

end ByteMachine
