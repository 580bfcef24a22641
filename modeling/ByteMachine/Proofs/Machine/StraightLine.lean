/-
**Steps in a straight line.**

Calls, returns and taken jumps set the program counter; behind every other instruction the machine
goes on with the one that follows it in memory.  A straight line is a number of consecutive steps
that go on and of which none takes such a transfer.

Main definitions:

* `ByteMachine.Machine.Transfers` — the instructions that set the program counter;
* `ByteMachine.Machine.Straight` — consecutive steps in a straight line.

Main results:

* `ByteMachine.Machine.pc_step_of_not_transfers` — **a step in a straight line goes to the next
  instruction**.
-/

import ByteMachine.Proofs.Machine.Steps

set_option relaxedAutoImplicit false
set_option autoImplicit false

namespace ByteMachine

namespace Machine

variable {m : Machine} {s : Sinks} {i : Instruction} {f : Effect}

/-- The instruction sets the program counter: it is a call, a return, or a jump that is taken. -/
def Transfers (m : Machine) (op : Opcode) : Prop :=
  op = .call ∨ op = .ret ∨ op.takes m.flags = true

theorem transfers_of_leavesReturn {op : Opcode} (h : m.leavesReturn op = true) :
    m.Transfers op := by
  rcases leavesReturn_iff.1 h with hcall | ⟨htaken, -⟩
  · exact .inl hcall
  · exact .inr (.inr htaken)

/-- Behind an instruction that neither halts nor transfers, the machine goes to the next one. -/
theorem pc_executes (h : m.Executes i f) (hstay : ¬m.Transfers i.opcode)
    (hgo : f.halts = false) : f.machine.pc = i.next := by
  cases h with
  | hlt => cases hgo
  | call hop => exact absurd (transfers_of_leavesReturn hop) hstay
  | ret hop => exact absurd (.inr (.inl hop)) hstay
  | jump hop => exact absurd (.inr (.inr hop)) hstay
  | _ => rfl

/-- **A step in a straight line goes to the next instruction.** -/
theorem pc_step_of_not_transfers (hi : m.fetch = .ok i) (hstay : ¬m.Transfers i.opcode)
    (hs : (m.step s).result = .ok .running) :
    (m.step s).machine.pc = m.pc + i.opcode.encodedLength := by
  obtain ⟨i', f, hi', hf, hm, hp⟩ := exists_executes_of_step hs
  obtain rfl := Except.ok.inj (hi.symm.trans hi')
  obtain ⟨-, haddress, -, -⟩ := fetch_eq_ok_iff.1 hi
  have hgo : f.halts = false := by
    cases hh : f.halts with
    | false => rfl
    | true => rw [hh] at hp; cases hp
  rw [hm, ← haddress]
  exact pc_executes hf hstay hgo

/-- **Consecutive steps in a straight line,** each made by a machine with a property: the
instructions that they execute, and the machine behind them. -/
inductive Straight (P : Machine → Prop) (m : Machine) : List Instruction → Machine → Prop
  | refl : Straight P m [] m
  | step {is : List Instruction} {m' : Machine} {i : Instruction} {s : Sinks}
      (h : Straight P m is m') (hm : P m') (hi : m'.fetch = .ok i)
      (hstay : ¬m'.Transfers i.opcode) (hs : (m'.step s).result = .ok .running) :
      Straight P m (is ++ [i]) (m'.step s).machine

end Machine

end ByteMachine
