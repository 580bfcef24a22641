/-
**Straight lines end.**

Behind an instruction that is no call, no return and no taken jump, a machine goes on further up in
memory, and an operand that it goes past it has read.  So the program counter is a measure of a
straight line: it grows with every step, and it never gets beyond the address right behind memory.
Which instructions are executed does not matter, and they may change on the way, for a push can
write over instructions that are still ahead.

Main definitions:

* `ByteMachine.Machine.walked` — the machine behind the first steps into given sinks;
* `ByteMachine.Machine.StaysInLine` — the next step goes on in a straight line.

Main results:

* `ByteMachine.Machine.pc_lt_of_staysInLine` — **a step in a straight line goes up in memory**, and
  not beyond its end;
* `ByteMachine.Machine.pc_add_le_walked` — so do all steps of a straight line;
* `ByteMachine.Machine.straight_lines_end` — **a straight line ends before memory does**.
-/

import ByteMachine.Proofs.Machine.Iteration
import ByteMachine.Proofs.Machine.Reachable
import ByteMachine.Proofs.Machine.StraightLine

set_option relaxedAutoImplicit false
set_option autoImplicit false

namespace ByteMachine

namespace Machine

variable {m : Machine} {s : Sinks} {k : Nat}

/-! ### Single steps -/

/-- **The next step goes on in a straight line:** it succeeds, the machine does not halt, and its
instruction is no call, no return and no jump that is taken. -/
def StaysInLine (m : Machine) (s : Sinks) : Prop :=
  (m.step s).result = .ok .running ∧ ∀ i, m.fetch = .ok i → ¬m.Transfers i.opcode

/-- Otherwise the machine halts or fails, or its instruction transfers. -/
theorem not_staysInLine_iff :
    ¬m.StaysInLine s ↔ (m.step s).result = .ok .halted ∨ (∃ e, (m.step s).result = .error e) ∨
      ∃ i, m.fetch = .ok i ∧ m.Transfers i.opcode := by
  constructor
  · intro hleaves
    cases hs : (m.step s).result with
    | error e => exact .inr (.inl ⟨e, rfl⟩)
    | ok p =>
        cases p with
        | halted => exact .inl rfl
        | running =>
            obtain ⟨i, -, hi, -⟩ := exists_executes_of_step hs
            refine .inr (.inr ⟨i, hi, ?_⟩)
            by_contra hstay
            refine hleaves ⟨hs, fun j hj => ?_⟩
            obtain rfl := Except.ok.inj (hi.symm.trans hj)
            exact hstay
  · rintro (hhalt | ⟨e, he⟩ | ⟨i, hi, htransfers⟩) ⟨hgo, hstay⟩
    · rw [hgo] at hhalt
      cases hhalt
    · rw [hgo] at he
      cases he
    · exact hstay i hi htransfers

/-- **A step in a straight line goes up in memory,** and at most to the address right behind it. -/
theorem pc_lt_of_staysInLine (h : m.StaysInLine s) :
    m.pc < (m.step s).machine.pc ∧ (m.step s).machine.pc ≤ 256 := by
  obtain ⟨hgo, hstay⟩ := h
  obtain ⟨i, f, hi, hf, hm, -⟩ := exists_executes_of_step hgo
  have hnext := pc_step_of_not_transfers hi (hstay i hi) hgo
  constructor
  · rw [hnext, Opcode.encodedLength]
    omega
  · rw [hm]
    exact pc_executes_le hi hf

/-! ### Consecutive steps -/

/-- **The machine behind the first `k` steps** of any number of them, into these sinks. -/
def walked (m : Machine) (sinks : Nat → Sinks) (k : Nat) : Machine :=
  m.afterSteps ((List.range k).map sinks)

variable {sinks : Nat → Sinks}

theorem walked_succ (m : Machine) (sinks : Nat → Sinks) (k : Nat) :
    m.walked sinks (k + 1) = ((m.walked sinks k).step (sinks k)).machine := by
  rw [walked, List.range_succ, List.map_append, afterSteps_append]
  rfl

/-- Every step of a straight line adds to the program counter. -/
theorem pc_add_le_walked (h : ∀ j < k, (m.walked sinks j).StaysInLine (sinks j)) :
    m.pc + k ≤ (m.walked sinks k).pc := by
  induction k with
  | zero => exact Nat.le_refl m.pc
  | succ k ih =>
      have hfront := ih fun j hj => h j (Nat.lt_succ_of_lt hj)
      obtain ⟨hlt, -⟩ := pc_lt_of_staysInLine (h k (Nat.lt_succ_self k))
      rw [walked_succ]
      omega

/-- **A straight line has at most as many steps as there are bytes of memory ahead of it.** -/
theorem le_of_staysInLine (h : ∀ j < k, (m.walked sinks j).StaysInLine (sinks j)) :
    k ≤ 256 - m.pc := by
  cases k with
  | zero => exact Nat.zero_le _
  | succ k =>
      have hfar := pc_add_le_walked h
      obtain ⟨-, hend⟩ := pc_lt_of_staysInLine (h k (Nat.lt_succ_self k))
      rw [walked_succ] at hfar
      omega

/-- Some step leaves the line. -/
theorem exists_leaves (m : Machine) (sinks : Nat → Sinks) :
    ∃ k ≤ 256 - m.pc, (∀ j < k, (m.walked sinks j).StaysInLine (sinks j)) ∧
      ¬(m.walked sinks k).StaysInLine (sinks k) := by
  have hleaves : ∃ k, ¬(m.walked sinks k).StaysInLine (sinks k) := by
    by_contra hnone
    rw [not_exists_not] at hnone
    have hle := le_of_staysInLine (k := 256 - m.pc + 1) fun j _ => hnone j
    omega
  classical
  have hfront : ∀ j < Nat.find hleaves, (m.walked sinks j).StaysInLine (sinks j) := fun j hj =>
    not_not.1 (Nat.find_min hleaves hj)
  exact ⟨Nat.find hleaves, le_of_staysInLine hfront, hfront, Nat.find_spec hleaves⟩

/-- **Straight lines end.**  As long as the steps of a machine go on and none of them takes a call,
a return or a jump, the program counter grows with each, and there are at most as many of them as
bytes of memory from the program counter on; then there is a step that halts, fails, or takes one.
This holds of every machine and all sinks, whatever the program writes into memory on the way.  So
among more than 256 steps that go on there is one that takes a call, a return or a jump. -/
theorem straight_lines_end (m : Machine) (sinks : Nat → Sinks) :
    (∀ k, (∀ j < k, (m.walked sinks j).StaysInLine (sinks j)) →
      (∀ j < k, (m.walked sinks j).pc < (m.walked sinks (j + 1)).pc) ∧ k ≤ 256 - m.pc) ∧
    (∃ k ≤ 256 - m.pc, (∀ j < k, (m.walked sinks j).StaysInLine (sinks j)) ∧
      (((m.walked sinks k).step (sinks k)).result = .ok .halted ∨
        (∃ e, ((m.walked sinks k).step (sinks k)).result = .error e) ∨
        ∃ i, (m.walked sinks k).fetch = .ok i ∧ (m.walked sinks k).Transfers i.opcode)) ∧
    ∀ n, 256 < n → (∀ j < n, ((m.walked sinks j).step (sinks j)).result = .ok .running) →
      ∃ j < n, ∃ i, (m.walked sinks j).fetch = .ok i ∧ (m.walked sinks j).Transfers i.opcode := by
  obtain ⟨k, hk, hfront, hleaves⟩ := exists_leaves m sinks
  rw [not_staysInLine_iff] at hleaves
  refine ⟨fun k h => ⟨fun j hj => ?_, le_of_staysInLine h⟩, ⟨k, hk, hfront, hleaves⟩,
    fun n hn hgo => ?_⟩
  · rw [walked_succ]
    exact (pc_lt_of_staysInLine (h j hj)).1
  have hkn : k < n := by omega
  rcases hleaves with hhalt | ⟨e, he⟩ | htransfers
  · rw [hgo k hkn] at hhalt
    cases hhalt
  · rw [hgo k hkn] at he
    cases he
  · exact ⟨k, hkn, htransfers⟩

/-- A machine that pushes register 1 and then prints a register, which memory names by the byte that
the push writes over: 9, where there is none. -/
def pushesAhead : Machine :=
  { fresh { Config.default with stackTop := 4 } with
    memory := ((((Memory.empty.put 0 0x45).put 1 1).put 2 0x47).put 3 9).put 4 0x01 }

/-- A machine that jumps to where it is. -/
def jumpsToItself : Machine := { fresh .default with memory := Memory.empty.put 0 0x54 }

/-- Steps of such a machine are only counted. -/
theorem walked_jumpsToItself (k : Nat) :
    jumpsToItself.walked (fun _ => .unlimited) k = { jumpsToItself with cycles := k } := by
  induction k with
  | zero => rfl
  | succ k ih =>
      rw [walked_succ, ih]
      rfl

/-- The print would fail, but for the push in front of it; the line that they make ends at a halt.
A machine that makes 257 steps and does not end jumps in one of them. -/
theorem line_goes_on_through_pushed_operand :
    (({ pushesAhead with pc := 2 } : Machine).step .unlimited).result =
      .error (.invalidRegister 9) ∧
    (∀ j < 2, (pushesAhead.walked (fun _ => .unlimited) j).StaysInLine .unlimited) ∧
    (∀ j < 2, (pushesAhead.walked (fun _ => .unlimited) j).pc <
      (pushesAhead.walked (fun _ => .unlimited) (j + 1)).pc) ∧
    2 ≤ 256 - pushesAhead.pc ∧
    ((pushesAhead.walked (fun _ => .unlimited) 2).step .unlimited).result = .ok .halted ∧
    (∀ j < 257, ((jumpsToItself.walked (fun _ => .unlimited) j).step .unlimited).result =
      .ok .running) ∧
    ∃ j < 257, ∃ i, (jumpsToItself.walked (fun _ => .unlimited) j).fetch = .ok i ∧
      (jumpsToItself.walked (fun _ => .unlimited) j).Transfers i.opcode := by
  have hline : ∀ j < 2, (pushesAhead.walked (fun _ => .unlimited) j).StaysInLine .unlimited := by
    intro j hj
    match j with
    | 0 =>
        refine ⟨rfl, fun i hi => ?_⟩
        cases hi
        unfold Transfers
        decide
    | 1 =>
        refine ⟨rfl, fun i hi => ?_⟩
        cases hi
        unfold Transfers
        decide
  have hgo : ∀ j < 257, ((jumpsToItself.walked (fun _ => .unlimited) j).step .unlimited).result =
      .ok .running := by
    intro j _
    rw [walked_jumpsToItself]
    rfl
  obtain ⟨hbounds, -, -⟩ := straight_lines_end pushesAhead fun _ => .unlimited
  obtain ⟨hpc, hle⟩ := hbounds 2 hline
  obtain ⟨-, -, hlong⟩ := straight_lines_end jumpsToItself fun _ => .unlimited
  exact ⟨rfl, hline, hpc, hle, rfl, hgo, hlong 257 (by decide) hgo⟩

end Machine

end ByteMachine
