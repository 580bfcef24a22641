/-
**What execution writes into memory.**

Code and stack lie in one memory, and a program can move its stack anywhere.  Still, an instruction
can write only through the stack pointer: a push, a call and a taken jump that leaves a return
address store one byte right below it, and refuse to do so with the stack pointer at the stack limit
or below.  So whatever a program does, and wherever it moves its stack on the way, the bytes it
changes lie at or above the stack limit, and below the highest place at which its stack pointer has
been.  Code below the stack limit cannot be changed by execution at all.

Main definitions:

* `ByteMachine.Machine.Stores` — a step that stores a byte;
* `ByteMachine.Machine.highestSp` — the highest stack pointer before any of a number of steps.

Main results:

* `ByteMachine.Machine.memory_step` — **a step leaves memory alone, or stores one byte**;
* `ByteMachine.Machine.writes_lie_inside_stack` — **steps change memory between the stack limit and
  the highest stack pointer only**.
-/

import ByteMachine.Proofs.Machine.Iteration
import ByteMachine.Proofs.Machine.Reachable

set_option relaxedAutoImplicit false
set_option autoImplicit false

namespace ByteMachine

namespace Machine

variable {m m' : Machine} {i : Instruction} {f : Effect} {s : Sinks}

/-! ### One step -/

/-- **The instruction stores a byte** on the way from `m` to `m'`: it is a push or leaves a return
address, and the byte is written right below the stack pointer, which goes there. -/
structure Stores (m : Machine) (i : Instruction) (m' : Machine) : Prop where
  opcode : i.opcode = .push ∨ m.leavesReturn i.opcode = true
  room : m.config.stackLimit < m.sp
  sp : m'.sp = m.sp - 1
  memory : ∃ v, m'.memory = m.memory.put (m.sp - 1) v

/-- An instruction leaves memory alone, or stores a byte. -/
theorem memory_executes (h : m.Executes i f) :
    f.machine.memory = m.memory ∨ f.halts = false ∧ m.Stores i f.machine.tick := by
  cases h with
  | @push _ v hop _ _ hroom => exact .inr ⟨rfl, .inl hop, hroom, m.sp_pushed v, v, rfl⟩
  | call hop _ _ _ hroom =>
      exact .inr ⟨rfl, .inr hop, hroom, m.sp_pushed (UInt8.ofNat i.next), _, rfl⟩
  | _ => exact .inl rfl

/-- **A step leaves memory alone, or stores a byte.**  A step that fails or halts stores none. -/
theorem memory_step (m : Machine) (s : Sinks) :
    (m.step s).machine.memory = m.memory ∨
      (m.step s).result = .ok .running ∧
        ∃ i, m.fetch = .ok i ∧ m.Stores i (m.step s).machine := by
  cases h : (m.step s).result with
  | error e =>
      left
      rcases machine_step_of_error h with hm | hm
      · rw [hm]
      · rw [hm]
        rfl
  | ok p =>
      obtain ⟨i, f, hi, hf, hm, hp⟩ := exists_executes_of_step h
      rw [hm]
      rcases memory_executes hf with hsame | ⟨hgo, hstores⟩
      · exact .inl hsame
      · rw [hgo] at hp
        exact .inr ⟨congrArg Except.ok hp, i, hi, hstores⟩

/-- The one address at which memory may differ behind a step that stores is the stack pointer. -/
theorem Stores.eq_sp (h : m.Stores i m') {a : Nat}
    (ha : m'.memory.peek a ≠ m.memory.peek a) : a = m'.sp.toNat := by
  obtain ⟨v, hv⟩ := h.memory
  by_contra hne
  rw [h.sp] at hne
  rw [hv, Memory.peek_put, if_neg hne] at ha
  exact ha rfl

/-- That address lies at or above the stack limit, and below where the stack pointer was. -/
theorem Stores.bounds (h : m.Stores i m') :
    m.config.stackLimit.toNat ≤ m'.sp.toNat ∧ m'.sp.toNat < m.sp.toNat := by
  have hroom := UInt8.lt_iff_toNat_lt.1 h.room
  have hone := toNat_sub_one h.room
  rw [h.sp]
  omega

/-- **Where a step changes memory:** at the new stack pointer, by an instruction that stores. -/
theorem exists_stores_of_peek_ne {a : Nat}
    (ha : (m.step s).machine.memory.peek a ≠ m.memory.peek a) :
    (m.step s).result = .ok .running ∧ a = (m.step s).machine.sp.toNat ∧
      ∃ i, m.fetch = .ok i ∧ m.Stores i (m.step s).machine := by
  rcases m.memory_step s with hsame | ⟨hgo, i, hi, hstores⟩
  · rw [hsame] at ha
    exact absurd rfl ha
  · exact ⟨hgo, hstores.eq_sp ha, i, hi, hstores⟩

/-! ### Any number of steps -/

/-- **The highest stack pointer before any of the steps**, zero if there are none. -/
def highestSp (m : Machine) : List Sinks → Nat
  | [] => 0
  | s :: more => max m.sp.toNat ((m.step s).machine.highestSp more)

/-- **Steps change memory between the stack limit and the highest stack pointer only.** -/
theorem bounds_of_peek_ne {ss : List Sinks} {a : Nat}
    (ha : (m.afterSteps ss).memory.peek a ≠ m.memory.peek a) :
    m.config.stackLimit.toNat ≤ a ∧ a < m.highestSp ss := by
  -- induction on the steps: an address that differs at the end differs behind the first step, or
  -- comes to differ behind the others
  induction ss generalizing m with
  | nil => exact absurd rfl ha
  | cons s ss ih =>
      rw [highestSp]
      by_cases hfirst : (m.step s).machine.memory.peek a = m.memory.peek a
      · rw [← hfirst] at ha
        obtain ⟨hlimit, hlt⟩ := ih ha
        rw [config_step] at hlimit
        exact ⟨hlimit, by omega⟩
      · obtain ⟨-, heq, i, -, hstores⟩ := exists_stores_of_peek_ne hfirst
        obtain ⟨hlimit, hlt⟩ := hstores.bounds
        rw [← heq] at hlimit hlt
        exact ⟨hlimit, by omega⟩

/-! ### Runs -/

/-- **What execution writes lies inside the stack.**  A step changes memory at one address at most:
if it does, it goes on, it is a push, a call or a taken jump that leaves a return address, and the
address is the new stack pointer.  However many steps are made, whether they succeed or fail, memory
changes only at addresses from the stack limit on that are below the highest stack pointer before
any of the steps; so no byte below the stack limit ever changes.  A run makes such steps, up to the
first reason to stop. -/
theorem writes_lie_inside_stack (m : Machine) :
    (∀ s a, (m.step s).machine.memory.peek a ≠ m.memory.peek a →
      (m.step s).result = .ok .running ∧ a = (m.step s).machine.sp.toNat ∧
        ∃ i, m.fetch = .ok i ∧ (i.opcode = .push ∨ m.leavesReturn i.opcode = true)) ∧
    (∀ ss a, (m.afterSteps ss).memory.peek a ≠ m.memory.peek a →
      m.config.stackLimit.toNat ≤ a ∧ a < m.highestSp ss) ∧
    (∀ ss a, a < m.config.stackLimit.toNat →
      (m.afterSteps ss).memory.peek a = m.memory.peek a) ∧
    ∀ s o, m.run s = some o → ∃ k, IsLeast {k | m.Stops s k} k ∧
      o.machine = m.afterSteps (m.sinksBefore s k) ∧
      ∀ a, o.machine.memory.peek a ≠ m.memory.peek a →
        m.config.stackLimit.toNat ≤ a ∧ a < m.highestSp (m.sinksBefore s k) := by
  refine ⟨fun s a ha => ?_, fun ss a => bounds_of_peek_ne, fun ss a hlt => ?_, ?_⟩
  · obtain ⟨hgo, heq, i, hi, hstores⟩ := exists_stores_of_peek_ne ha
    exact ⟨hgo, heq, i, hi, hstores.opcode⟩
  · by_contra hne
    exact absurd (bounds_of_peek_ne hne).1 (Nat.not_le.2 hlt)
  · intro s o hrun
    obtain ⟨k, hk, -, rfl⟩ := exists_isLeast_of_run hrun
    have hm : (conclude (m.stepped s k).ending).machine = m.afterSteps (m.sinksBefore s k) := by
      rw [machine_conclude, afterSteps_sinksBefore]
      rfl
    refine ⟨k, hk, hm, fun a ha => ?_⟩
    rw [hm] at ha
    exact bounds_of_peek_ne ha

/-- A machine that moves its stack right behind a push, which then comes to lie on itself. -/
def pushesOntoItself : Machine :=
  { fresh { Config.default with stackLimit := 3 } with
    memory := ((((Memory.empty.put 0 0x82).put 1 7).put 2 4).put 3 0x45).put 4 7 }

/-- The push changes its own byte, which lies at the stack limit, and no byte below. -/
theorem push_changes_itself :
    pushesOntoItself.memory.peek 3 = some 0x45 ∧
      (pushesOntoItself.afterSteps [.unlimited, .unlimited]).memory.peek 3 = some 4 ∧
      pushesOntoItself.config.stackLimit.toNat ≤ 3 ∧
      3 < pushesOntoItself.highestSp [.unlimited, .unlimited] ∧
      (pushesOntoItself.afterSteps [.unlimited, .unlimited]).memory.peek 2 =
        pushesOntoItself.memory.peek 2 := by
  obtain ⟨-, hbounds, hkept, -⟩ := writes_lie_inside_stack pushesOntoItself
  have hne : (pushesOntoItself.afterSteps [.unlimited, .unlimited]).memory.peek 3 ≠
      pushesOntoItself.memory.peek 3 := fun heq => by cases heq
  obtain ⟨hlimit, hhighest⟩ := hbounds [.unlimited, .unlimited] 3 hne
  exact ⟨rfl, rfl, hlimit, hhighest, hkept [.unlimited, .unlimited] 2 (by decide)⟩

end Machine

end ByteMachine
