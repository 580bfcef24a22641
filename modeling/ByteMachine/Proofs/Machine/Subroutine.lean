/-
**Subroutines.**

A call leaves the address behind it on the stack, and a return goes there.  What the program does in
between is arbitrary: it may push and pop, call further subroutines, and write into the same memory
through the same stack pointer.  As long as it does not write the stack pointer as a register, and
does not take the return address itself off the stack, it cannot touch it: a push writes below the
stack pointer, and the stack pointer stays below the address of the return address.

Main definitions:

* `ByteMachine.Instruction.WritesSp` — the instructions that move the stack;
* `ByteMachine.Machine.Inside` — steps inside a subroutine.

Main results:

* `ByteMachine.Machine.peek_executes` — an instruction writes no memory at or above the stack
  pointer;
* `ByteMachine.Machine.Inside.frame` — so a subroutine keeps everything above its own stack;
* `ByteMachine.Machine.subroutine_returns` — **a return ends the call**.
-/

import ByteMachine.Proofs.Machine.Stack

set_option relaxedAutoImplicit false
set_option autoImplicit false

namespace ByteMachine

/-- The instruction writes the stack pointer as a register, and moves the stack with it. -/
def Instruction.WritesSp (i : Instruction) : Prop :=
  i.first? = some Registers.spIndex ∧ i.opcode ∈ [.ldi, .add, .mul, .pop]

instance (i : Instruction) : Decidable i.WritesSp :=
  inferInstanceAs (Decidable (_ ∧ _))

namespace Machine

variable {m m' : Machine} {i : Instruction} {f : Effect} {s : Sinks} {q : UInt8}

/-! ### What an instruction leaves alone -/

/-- **No instruction writes memory at or above the stack pointer.** -/
theorem peek_executes (h : m.Executes i f) {a : Nat} (ha : m.sp.toNat ≤ a) :
    f.machine.memory.peek a = m.memory.peek a := by
  cases h with
  | push _ _ _ hroom | call _ _ _ _ hroom =>
      have hone := toNat_sub_one hroom
      refine (m.peek_pushed _ a).trans (if_neg ?_)
      omega
  | _ => rfl

/-- The stack base moves only if the stack pointer is written as a register. -/
theorem stackBase_executes (h : m.Executes i f) (hw : ¬i.WritesSp) :
    f.machine.stackBase = m.stackBase := by
  have hne : ∀ {r : UInt8}, i.first? = some r → i.opcode ∈ [.ldi, .add, .mul, .pop] →
      r ≠ Registers.spIndex := by
    rintro r hr hop rfl
    exact hw ⟨hr, hop⟩
  cases h with
  | ldi hop hr => exact m.stackBase_assigned_of_ne (hne hr (by simp [hop])) _
  | @arith op _ _ _ _ _ hop ha _ _ _ hv =>
      refine m.stackBase_assigned_of_ne (hne ha ?_) _
      cases ho : i.opcode <;> rw [ho] at hop <;> cases hop
      · decide
      · decide
      · cases hv
  | pop hop hr => exact m.popped.stackBase_assigned_of_ne (hne hr (by simp [hop])) _
  | _ => rfl

/-! ### Inside a subroutine -/

/-- **Steps that go on inside a subroutine:** none of them writes the stack pointer as a register,
and the stack pointer is below `q` behind each. -/
inductive Inside (q : UInt8) : Machine → Machine → Prop
  | refl (m : Machine) : Inside q m m
  | step {m m' : Machine} {i : Instruction} {s : Sinks} (hi : m.fetch = .ok i)
      (hw : ¬i.WritesSp) (hs : (m.step s).result = .ok .running)
      (hsp : (m.step s).machine.sp < q) (h : Inside q (m.step s).machine m') : Inside q m m'

/-- **What a subroutine keeps:** the stack base, and memory from the byte below `q` on. -/
theorem Inside.frame (h : Inside q m m') (hsp : m.sp < q) :
    m'.sp < q ∧ m'.stackBase = m.stackBase ∧
      ∀ a, q.toNat ≤ a + 1 → m'.memory.peek a = m.memory.peek a := by
  -- induction on the steps; the stack pointer below `q` keeps every push away from the frame
  induction h with
  | refl m => exact ⟨hsp, rfl, fun a _ => rfl⟩
  | @step m m' i s hi hw hs hsp' _ ih =>
      obtain ⟨i', f, hi', hf, hm, -⟩ := exists_executes_of_step hs
      obtain rfl := Except.ok.inj (hi.symm.trans hi')
      rw [hm] at ih hsp'
      obtain ⟨hlt, hbase, hpeek⟩ := ih hsp'
      have hbelow := UInt8.lt_iff_toNat_lt.1 hsp
      refine ⟨hlt, hbase.trans (stackBase_executes hf hw), fun a ha => ?_⟩
      exact (hpeek a ha).trans (peek_executes hf (by omega))

/-! ### Calls and returns -/

/-- A call that goes through pushes the address behind it. -/
theorem exists_pushed_of_call (hcall : i.opcode = .call) (h : m.Executes i f) :
    i.next < 256 ∧ m.config.stackLimit < m.sp ∧
      ∃ t : UInt8, f = ((m.pushed (UInt8.ofNat i.next)).goto t.toNat).proceed := by
  have hexec := execute_of_executes h
  simp only [execute, hcall, bind_eq_ok_iff, pure_eq_ok_iff, pushReturn_eq_ok_iff] at hexec
  obtain ⟨r, -, t, -, _, ⟨hnext, hroom, rfl⟩, rfl⟩ := hexec
  exact ⟨hnext, hroom, t, rfl⟩

/-- While a subroutine runs, the return address stands right below where the stack pointer was
before the call, the stack base does not move, and the stack of the caller is kept. -/
theorem frame_of_call (hi : m.fetch = .ok i) (hcall : i.opcode = .call)
    (hs : (m.step s).result = .ok .running) (hin : Inside m.sp (m.step s).machine m') :
    m.sp - 1 < m.sp ∧ (m'.memory.byteAt (m.sp - 1)).toNat = m.pc + 2 ∧
      m'.stackBase = m.stackBase ∧
      ∀ a, m.sp.toNat ≤ a → m'.memory.peek a = m.memory.peek a := by
  obtain ⟨i', f, hi', hf, hm, -⟩ := exists_executes_of_step hs
  obtain rfl := Except.ok.inj (hi.symm.trans hi')
  obtain ⟨hnext, hroom, t, rfl⟩ := exists_pushed_of_call hcall hf
  rw [hm] at hin
  have hone := toNat_sub_one hroom
  have hlt : m.sp - 1 < m.sp := UInt8.lt_iff_toNat_lt.2 (by omega)
  have hsp : (m.pushed (UInt8.ofNat i.next)).sp < m.sp := by
    rw [sp_pushed]
    exact hlt
  obtain ⟨-, hbase, hpeek⟩ := hin.frame hsp
  have hpushed := m.peek_pushed (UInt8.ofNat i.next)
  refine ⟨hlt, ?_, hbase, fun a ha => ?_⟩
  · have hsaved := (hpeek _ (by omega)).trans ((hpushed (m.sp - 1).toNat).trans (if_pos rfl))
    rw [Memory.peek_toNat] at hsaved
    rw [Option.some.inj hsaved, UInt8.toNat_ofNat_of_lt' hnext, next_of_fetch hi, hcall]
    rfl
  · exact (hpeek a (by omega)).trans ((hpushed a).trans (if_neg (by omega)))

/-- **A return ends the call.**  From a call on, while its subroutine runs, the return address
stands right below where the stack pointer was, and the stack base does not move.  A return with
the stack pointer at the return address succeeds, goes on behind the call, and leaves the stack as
it was before the call. -/
theorem subroutine_returns {c : Config} (h : Reachable c m) (hi : m.fetch = .ok i)
    (hcall : i.opcode = .call) (hs : (m.step s).result = .ok .running)
    (hin : Inside m.sp (m.step s).machine m') :
    (m'.memory.byteAt (m.sp - 1)).toNat = m.pc + 2 ∧ m'.stackBase = m.stackBase ∧
    ∀ j t, m'.sp = m.sp - 1 → m'.fetch = .ok j → j.opcode = .ret → m'.Traces t →
      (m'.step t).result = .ok .running ∧ (m'.step t).machine.pc = m.pc + 2 ∧
        (m'.step t).machine.sp = m.sp ∧ (m'.step t).machine.stack = m.stack := by
  obtain ⟨hlt, hsaved, hbase, hpeek⟩ := frame_of_call hi hcall hs hin
  refine ⟨hsaved, hbase, fun j t hsp hj hret ht => ?_⟩
  have hfull : m'.sp < m'.stackBase := by
    rw [hsp, hbase]
    exact UInt8.lt_of_lt_of_le hlt h.invariant.stack.sp_le
  have hback : m'.popped.sp = m.sp := by
    rw [sp_popped, hsp]
    exact UInt8.sub_add_cancel m.sp 1
  have hstack : m'.popped.stack = m.stack := by
    rw [stack, hback, stackBase_popped, hbase]
    exact Memory.slice_congr fun a hge _ => hpeek a hge
  rw [step_of_executes ht hj (.ret hret hfull) rfl]
  refine ⟨rfl, ?_, hback, hstack⟩
  rw [← hsaved, ← hsp]
  rfl

/-- A subroutine that pushes and pops a register, and returns. -/
theorem returns_behind_push_and_pop :
    ∃ m m' : Machine, Reachable Config.default m ∧ m.pc = 3 ∧ m.sp = 0xF4 ∧ m'.pc = 12 ∧
      (m'.memory.byteAt (m.sp - 1)).toNat = m.pc + 2 ∧ m'.stackBase = m.stackBase ∧
      (m'.step .unlimited).result = .ok .running ∧ (m'.step .unlimited).machine.pc = m.pc + 2 ∧
      (m'.step .unlimited).machine.sp = m.sp ∧ (m'.step .unlimited).machine.stack = m.stack := by
  have h : Reachable Config.default _ := .afterAll (.start rfl) [.poke 0 0x82, .poke 2 8,
    .poke 3 0x50, .poke 8 0x45, .poke 10 0x46, .poke 11 1, .poke 12 0x11, .step .unlimited] rfl
  obtain ⟨hsaved, hbase, hret⟩ := subroutine_returns (s := .unlimited) h rfl rfl rfl
    (.step (s := .unlimited) rfl (by decide) rfl (by decide)
      (.step (s := .unlimited) rfl (by decide) rfl (by decide) (.refl _)))
  exact ⟨_, _, h, rfl, rfl, rfl, hsaved, hbase, hret _ _ rfl rfl rfl (traces_of_unlimited rfl)⟩

end Machine

end ByteMachine
