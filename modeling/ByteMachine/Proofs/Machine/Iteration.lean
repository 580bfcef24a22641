/-
**A run is steps, one after another.**

Besides the loop of a run stands the plain iteration of steps, which knows of no limit and goes on
also behind a step that has failed.  A run makes the steps of the iteration up to the first place at
which there is a reason to stop: the cycle limit is reached, or the step just made has halted or
failed.  It makes no step less and no step more, so it can be cut anywhere into steps that are made
one by one and a run that makes the others.

Main definitions:

* `ByteMachine.Machine.afterSteps` — the machine behind a number of steps, each into its own sinks;
* `ByteMachine.Machine.stepped` — what a number of steps leave behind that write one behind the
  other;
* `ByteMachine.Machine.Stops` — there is a reason to stop behind a number of steps;
* `ByteMachine.Machine.EndsAfter` — how a run has ended that made so many steps.

Main results:

* `ByteMachine.Machine.runFor_add` — **a run can be cut behind steps that go on**;
* `ByteMachine.Machine.runFor_of_isLeast` — a run makes the steps up to the first reason to stop;
* `ByteMachine.Machine.run_iterates_steps` — **a run is the iteration of steps under the limit**.
-/

import Mathlib.Order.Nat
import ByteMachine.Proofs.Machine.Steps

set_option relaxedAutoImplicit false
set_option autoImplicit false

namespace ByteMachine

/-- The reason that a run gives if its last step has ended like this. -/
def Progress.reason : Progress → HaltReason
  | running => .cycleLimit
  | halted => .halted

/-- The end of a run that stops behind this step. -/
def Outcome.ending (o : Outcome Progress) : Outcome HaltReason :=
  ⟨o.result.map Progress.reason, o.machine, o.sinks⟩

namespace Machine

variable {m : Machine} {s : Sinks} {k : Nat}

/-! ### The iteration of steps -/

/-- **The machine behind steps** that are made one after the other, each into sinks of its own.  A
step is made where the one before it has left off, also if that one has halted or failed. -/
def afterSteps (m : Machine) : List Sinks → Machine
  | [] => m
  | s :: more => (m.step s).machine.afterSteps more

theorem afterSteps_append (m : Machine) (ss ts : List Sinks) :
    m.afterSteps (ss ++ ts) = (m.afterSteps ss).afterSteps ts := by
  induction ss generalizing m with
  | nil => rfl
  | cons s ss ih => exact ih (m.step s).machine

theorem config_afterSteps (m : Machine) (ss : List Sinks) :
    (m.afterSteps ss).config = m.config := by
  induction ss generalizing m with
  | nil => rfl
  | cons s ss ih => exact (ih (m.step s).machine).trans (config_step m s)

/-- **What `k` steps leave behind** that write one behind the other.  Each is made where the one
before it has left off, also if that one has halted or failed. -/
def stepped (m : Machine) (s : Sinks) : Nat → Outcome Progress
  | 0 => ⟨.ok .running, m, s⟩
  | k + 1 => (m.stepped s k).machine.step (m.stepped s k).sinks

/-- The sinks that are found before each of the first `k` steps. -/
def sinksBefore (m : Machine) (s : Sinks) (k : Nat) : List Sinks :=
  (List.range k).map fun j => (m.stepped s j).sinks

/-- The machine is that behind steps into the sinks that are found before each. -/
theorem afterSteps_sinksBefore (m : Machine) (s : Sinks) (k : Nat) :
    m.afterSteps (m.sinksBefore s k) = (m.stepped s k).machine := by
  induction k with
  | zero => rfl
  | succ k ih =>
      rw [sinksBefore, List.range_succ, List.map_append, afterSteps_append]
      change ((m.afterSteps (m.sinksBefore s k)).step (m.stepped s k).sinks).machine = _
      rw [ih]
      rfl

/-- **There is a reason to stop behind `k` steps:** the cycle limit is reached, or the last step has
halted or failed. -/
def Stops (m : Machine) (s : Sinks) (k : Nat) : Prop :=
  (m.stepped s k).machine.exhausted = true ∨ (m.stepped s k).result ≠ .ok .running

theorem not_stops_iff :
    ¬m.Stops s k ↔
      (m.stepped s k).machine.exhausted = false ∧ (m.stepped s k).result = .ok .running := by
  rw [Stops, not_or, not_not, Bool.not_eq_true]

theorem config_stepped (m : Machine) (s : Sinks) (k : Nat) :
    (m.stepped s k).machine.config = m.config := by
  rw [← afterSteps_sinksBefore, config_afterSteps]

theorem flush_stepped (m : Machine) (s : Sinks) (k : Nat) :
    (m.stepped s k).sinks.out.flush = s.out.flush := by
  induction k with
  | zero => rfl
  | succ k ih => exact (flush_step _ _).trans ih

/-- Steps that go on are all counted, and so is the step behind them if it succeeds. -/
theorem cycles_stepped {p : Progress} (hgo : ∀ j < k, ¬m.Stops s j)
    (hk : (m.stepped s k).result = .ok p) : (m.stepped s k).machine.cycles = m.cycles + k := by
  induction k generalizing p with
  | zero => rfl
  | succ k ih =>
      have hlast := (not_stops_iff.1 (hgo k (Nat.lt_succ_self k))).2
      have hcycles := ih (fun j hj => hgo j (Nat.lt_succ_of_lt hj)) hlast
      rw [stepped] at hk ⊢
      rw [cycles_step_of_ok hk, hcycles, Nat.add_assoc]

theorem cycles_stepped_le (m : Machine) (s : Sinks) (k : Nat) :
    (m.stepped s k).machine.cycles ≤ m.cycles + k := by
  induction k with
  | zero => exact Nat.le_refl m.cycles
  | succ k ih =>
      have hone := cycles_step_le (m.stepped s k).machine (m.stepped s k).sinks
      rw [stepped]
      omega

theorem exhausted_iff :
    m.exhausted = true ↔ ∃ limit, m.config.maxCycles = some limit ∧ limit.toNat ≤ m.cycles := by
  unfold exhausted
  cases m.config.maxCycles <;> simp

/-- As long as there is no reason to stop, the limit is ahead. -/
theorem cycles_lt_limit {limit : UInt64} (hlimit : m.config.maxCycles = some limit)
    (h : ¬m.Stops s k) : (m.stepped s k).machine.cycles < limit.toNat := by
  obtain ⟨hex, -⟩ := not_stops_iff.1 h
  refine Nat.lt_of_not_le fun hle => ?_
  have hreached := exhausted_iff.2 ⟨limit, by rwa [config_stepped], hle⟩
  rw [hex] at hreached
  cases hreached

/-- **Under a limit there is a reason to stop**, at the latest when it is reached. -/
theorem exists_isLeast_of_limit {limit : UInt64} (hlimit : m.config.maxCycles = some limit) :
    ∃ k, IsLeast {k | m.Stops s k} k ∧ k ≤ limit.toNat - m.cycles := by
  have hstop : ∃ k ≤ limit.toNat - m.cycles, m.Stops s k := by
    by_contra hnone
    have hgo : ∀ k ≤ limit.toNat - m.cycles, ¬m.Stops s k :=
      fun k hk h => hnone ⟨k, hk, h⟩
    have hlast := hgo _ (Nat.le_refl _)
    have hcycles := cycles_stepped (fun j hj => hgo j hj.le) (not_stops_iff.1 hlast).2
    have hlt := cycles_lt_limit hlimit hlast
    omega
  obtain ⟨j, hj, hs⟩ := hstop
  classical
  exact ⟨Nat.find ⟨j, hs⟩, Nat.isLeast_find _, (Nat.find_min' ⟨j, hs⟩ hs).trans hj⟩

/-! ### The loop of a run -/

theorem runFor_of_exhausted (h : m.exhausted = true) (n : Nat) :
    runFor n m s = .ended ⟨.ok .cycleLimit, m, s⟩ := by
  unfold runFor
  rw [if_pos h]

theorem runFor_zero (h : m.exhausted = false) : runFor 0 m s = .interrupted m s := by
  unfold runFor
  rw [if_neg (by simp [h])]

theorem runFor_succ_of_running (h : m.exhausted = false) (hs : (m.step s).result = .ok .running)
    (n : Nat) : runFor (n + 1) m s = runFor n (m.step s).machine (m.step s).sinks := by
  rw [runFor, if_neg (by simp [h])]
  generalize m.step s = o at hs
  obtain ⟨result, m₁, s₁⟩ := o
  cases hs
  rfl

theorem runFor_succ_of_ne (h : m.exhausted = false) (hs : (m.step s).result ≠ .ok .running)
    (n : Nat) : runFor (n + 1) m s = .ended (m.step s).ending := by
  rw [runFor, if_neg (by simp [h])]
  generalize m.step s = o at hs
  obtain ⟨result, m₁, s₁⟩ := o
  match result with
  | .ok .running => exact absurd rfl hs
  | .ok .halted => rfl
  | .error e => rfl

/-- **A run can be cut behind steps that go on:** it is the run that makes the other steps. -/
theorem runFor_add (hgo : ∀ j < k, ¬m.Stops s j) (hk : (m.stepped s k).result = .ok .running)
    (n : Nat) :
    runFor (k + n) m s = runFor n (m.stepped s k).machine (m.stepped s k).sinks := by
  -- induction on the steps that are cut off; each passes one unit of the budget on
  induction k generalizing n with
  | zero => rw [Nat.zero_add, stepped]
  | succ k ih =>
      obtain ⟨hex, hlast⟩ := not_stops_iff.1 (hgo k (Nat.lt_succ_self k))
      have hgo' : ∀ j < k, ¬m.Stops s j := fun j hj => hgo j (Nat.lt_succ_of_lt hj)
      calc runFor (k + 1 + n) m s = runFor (k + (n + 1)) m s := by
            rw [Nat.add_assoc, Nat.add_comm 1]
        _ = runFor (n + 1) (m.stepped s k).machine (m.stepped s k).sinks := ih hgo' hlast (n + 1)
        _ = runFor n (m.stepped s (k + 1)).machine (m.stepped s (k + 1)).sinks :=
          runFor_succ_of_running hex hk n

/-- A run that is followed for fewer steps than it makes is found behind these steps. -/
theorem runFor_of_not_stops (hgo : ∀ j ≤ k, ¬m.Stops s j) :
    runFor k m s = .interrupted (m.stepped s k).machine (m.stepped s k).sinks := by
  obtain ⟨hex, hlast⟩ := not_stops_iff.1 (hgo k (Nat.le_refl k))
  have hcut := runFor_add (fun j hj => hgo j hj.le) hlast 0
  rw [Nat.add_zero] at hcut
  rw [hcut, runFor_zero hex]

/-- **A run makes the steps up to the first reason to stop.** -/
theorem runFor_of_isLeast (hk : IsLeast {k | m.Stops s k} k) {n : Nat} (hn : k ≤ n) :
    runFor n m s = .ended (m.stepped s k).ending := by
  have hstop : m.Stops s k := hk.1
  have hgo : ∀ j < k, ¬m.Stops s j := fun j hj h => Nat.not_le.2 hj (hk.2 h)
  by_cases hlast : (m.stepped s k).result = .ok .running
  · -- the last step goes on, so the limit is reached
    have hex := hstop.resolve_right (not_not_intro hlast)
    obtain ⟨d, rfl⟩ := Nat.exists_eq_add_of_le hn
    rw [runFor_add hgo hlast, runFor_of_exhausted hex, Outcome.ending, hlast]
    rfl
  · cases k with
    | zero => exact absurd rfl hlast
    | succ k =>
        obtain ⟨hex, hbefore⟩ := not_stops_iff.1 (hgo k (Nat.lt_succ_self k))
        obtain ⟨d, rfl⟩ := Nat.exists_eq_add_of_le hn
        have hcut := runFor_add (fun j hj => hgo j (Nat.lt_succ_of_lt hj)) hbefore (d + 1)
        rw [Nat.add_assoc, Nat.add_comm 1 d, hcut]
        exact runFor_succ_of_ne hex hlast d

/-! ### The whole run -/

/-- The end of a run whose output can be flushed. -/
theorem conclude_ending {o : Outcome Progress} (h : o.sinks.out.flush = .ok ()) :
    conclude o.ending =
      ⟨o.result.map fun p => ⟨p.reason, o.machine.pc, o.machine.cycles⟩, o.machine, o.sinks⟩ := by
  obtain ⟨result, m, s⟩ := o
  cases result with
  | ok p =>
      simp only [Outcome.ending, Except.map, conclude]
      rw [h]
  | error e => rfl

/-- A run whose last step fails does so too. -/
theorem result_conclude_of_error {o : Outcome Progress} {e : Fault} (h : o.result = .error e) :
    (conclude o.ending).result = .error e := by
  obtain ⟨result, m, s⟩ := o
  cases h
  rfl

/-- The steps that a run is followed for leave room for those that it makes. -/
theorem le_budget (hk : IsLeast {k | m.Stops s k} k)
    (hrange : m.config.maxCycles = none → m.cycles + k < UInt64.size) : k ≤ m.budget := by
  unfold budget
  cases hlimit : m.config.maxCycles with
  | none =>
      have hlt := hrange hlimit
      change k ≤ UInt64.size - m.cycles
      omega
  | some limit =>
      obtain ⟨k', hk', hle⟩ := exists_isLeast_of_limit (m := m) (s := s) hlimit
      exact (hk.2 hk'.1).trans hle

theorem run_of_isLeast (hk : IsLeast {k | m.Stops s k} k) (hle : k ≤ m.budget) :
    m.run s = some (conclude (m.stepped s k).ending) := by
  rw [run, runFor_of_isLeast hk hle]

/-- **How a run has ended that made `k` steps.**  It is found behind the `k`-th step, and gives what
that step says: a step that goes on has reached the limit, a step that halts has stopped at the
halt instruction, and a fault is passed on. -/
def EndsAfter (m : Machine) (s : Sinks) (k : Nat) (o : Outcome Halt) : Prop :=
  o.machine = (m.stepped s k).machine ∧ o.sinks = (m.stepped s k).sinks ∧
    match (m.stepped s k).result with
    | .ok .running =>
        o.result = .ok ⟨.cycleLimit, o.machine.pc, m.cycles + k⟩ ∧
          ∃ limit, m.config.maxCycles = some limit ∧ k = limit.toNat - m.cycles
    | .ok .halted =>
        o.result = .ok ⟨.halted, o.machine.pc, m.cycles + k⟩ ∧
          o.machine.pc = (m.stepped s (k - 1)).machine.pc ∧
          o.machine.memory.peek o.machine.pc = some Opcode.hlt.encode
    | .error e => o.result = .error e

theorem exists_run_of_isLeast (hflush : s.out.flush = .ok ()) (hk : IsLeast {k | m.Stops s k} k)
    (hrange : m.config.maxCycles = none → m.cycles + k < UInt64.size) :
    ∃ o, m.run s = some o ∧ m.EndsAfter s k o := by
  have hgo : ∀ j < k, ¬m.Stops s j := fun j hj h => Nat.not_le.2 hj (hk.2 h)
  have hrun := run_of_isLeast hk (le_budget hk hrange)
  rw [conclude_ending ((flush_stepped m s k).trans hflush)] at hrun
  refine ⟨_, hrun, rfl, rfl, ?_⟩
  cases hlast : (m.stepped s k).result with
  | error e => rfl
  | ok p =>
      have hcycles := cycles_stepped hgo hlast
      simp only [Except.map, hcycles]
      cases p with
      | running =>
          have hex := Or.resolve_right hk.1 (not_not_intro hlast)
          obtain ⟨limit, hlimit, hle⟩ := exhausted_iff.1 hex
          rw [config_stepped] at hlimit
          obtain ⟨k', hk', hle'⟩ := exists_isLeast_of_limit (m := m) (s := s) hlimit
          have hkle := (hk.2 hk'.1).trans hle'
          exact ⟨rfl, limit, hlimit, by omega⟩
      | halted =>
          cases k with
          | zero => cases hlast
          | succ k =>
              obtain ⟨hm, hbyte⟩ := halt_of_step hlast
              rw [Nat.add_sub_cancel, stepped, hm]
              exact ⟨rfl, rfl, hbyte⟩

/-- The counter stays below the limit, or at it, and so fits 64 bits. -/
theorem cycles_lt_size (hc : m.cycles < UInt64.size) (hk : IsLeast {k | m.Stops s k} k)
    (hrange : m.config.maxCycles = none → m.cycles + k < UInt64.size) {j : Nat} (hj : j ≤ k) :
    (m.stepped s j).machine.cycles < UInt64.size := by
  cases hlimit : m.config.maxCycles with
  | none =>
      have hlt := hrange hlimit
      have hle := cycles_stepped_le m s j
      omega
  | some limit =>
      cases j with
      | zero => exact hc
      | succ j =>
          have hgo : ¬m.Stops s j := fun h => Nat.not_le.2 hj (hk.2 h)
          have hlt := cycles_lt_limit hlimit hgo
          have hone := cycles_step_le (m.stepped s j).machine (m.stepped s j).sinks
          have hsize : limit.toNat < UInt64.size := limit.toNat_lt_size
          rw [stepped]
          omega

theorem run_of_not_stops (hgo : ∀ k ≤ m.budget, ¬m.Stops s k) : m.run s = none := by
  rw [run, runFor_of_not_stops hgo]

/-- A run that never has a reason to stop does not end. -/
theorem run_eq_none (hgo : ∀ k, ¬m.Stops s k) : m.run s = none :=
  run_of_not_stops fun k _ => hgo k

/-- If there is a reason to stop among the steps that a run is followed for, there is a first
one. -/
theorem isLeast_or_not_stops (m : Machine) (s : Sinks) :
    (∃ k, IsLeast {k | m.Stops s k} k ∧ k ≤ m.budget) ∨ ∀ k ≤ m.budget, ¬m.Stops s k := by
  by_cases hstop : ∃ j ≤ m.budget, m.Stops s j
  · obtain ⟨j, hj, hs⟩ := hstop
    classical
    exact .inl ⟨Nat.find ⟨j, hs⟩, Nat.isLeast_find _, (Nat.find_min' ⟨j, hs⟩ hs).trans hj⟩
  · exact .inr fun j hj hs => hstop ⟨j, hj, hs⟩

/-- **A run that ends has made the steps up to the first reason to stop.** -/
theorem exists_isLeast_of_run {o : Outcome Halt} (h : m.run s = some o) :
    ∃ k, IsLeast {k | m.Stops s k} k ∧ k ≤ m.budget ∧ o = conclude (m.stepped s k).ending := by
  rcases m.isLeast_or_not_stops s with ⟨k, hk, hle⟩ | hgo
  · rw [run_of_isLeast hk hle] at h
    exact ⟨k, hk, hle, (Option.some.inj h).symm⟩
  · rw [run_of_not_stops hgo] at h
    cases h

/-- Only without a limit can steps go on beyond those that a run is followed for. -/
theorem maxCycles_eq_none {j : Nat} (hgo : ∀ i < j, ¬m.Stops s i) (hj : m.budget < j) :
    m.config.maxCycles = none := by
  cases hlimit : m.config.maxCycles with
  | none => rfl
  | some limit =>
      obtain ⟨k, hk, hle⟩ := exists_isLeast_of_limit (m := m) (s := s) hlimit
      have hbudget : m.budget = limit.toNat - m.cycles := by rw [budget, hlimit]
      exact absurd hk.1 (hgo k (by omega))

/-- **A run can be cut anywhere:** made behind steps that go on, it ends as the run that makes these
steps too. -/
theorem run_stepped {j : Nat} (hgo : ∀ i < j, ¬m.Stops s i)
    (hj : (m.stepped s j).result = .ok .running) :
    (m.stepped s j).machine.run (m.stepped s j).sinks = m.run s := by
  have hconfig := config_stepped m s j
  have hcycles := cycles_stepped hgo hj
  have hbudget : (m.stepped s j).machine.budget = m.budget - j := by
    rw [budget, budget, hconfig, hcycles, Nat.sub_sub]
  rcases Nat.lt_or_ge m.budget j with hlt | hle
  · -- neither run comes to an end
    have hnone := maxCycles_eq_none hgo hlt
    have hex : (m.stepped s j).machine.exhausted = false := by
      rw [exhausted, hconfig, hnone]
    rw [run, hbudget, Nat.sub_eq_zero_of_le hlt.le, runFor_zero hex, run,
      runFor_of_not_stops fun i hi => hgo i (Nat.lt_of_le_of_lt hi hlt)]
  · have hsum : m.budget = j + (m.stepped s j).machine.budget := by omega
    rw [run, run, hsum, runFor_add hgo hj]

/-- **A run is the iteration of steps under the cycle limit.**  If there is a reason to stop, the
run makes the steps up to the first one: followed for fewer it is still going on, and it ends as the
last one says.  Up to then every step has gone on, and the counter fits 64 bits.  Under a limit
there is a reason to stop no later than the limit is reached.  If there is none, nothing limits the
run, and it does not end.  Wherever steps have gone on so far, a run made from there is the rest of
the whole run: it has the same result, and leaves the same machine and the same texts behind. -/
theorem run_iterates_steps (hflush : s.out.flush = .ok ()) (hc : m.cycles < UInt64.size) :
    (∀ k, IsLeast {k | m.Stops s k} k →
      (m.config.maxCycles = none → m.cycles + k < UInt64.size) →
      (∃ o, m.run s = some o ∧ m.EndsAfter s k o) ∧
      (∀ j < k, (m.stepped s j).result = .ok .running ∧
        runFor j m s = .interrupted (m.stepped s j).machine (m.stepped s j).sinks) ∧
      ∀ j ≤ k, (m.stepped s j).machine.cycles < UInt64.size) ∧
    (∀ limit, m.config.maxCycles = some limit →
      ∃ k, IsLeast {k | m.Stops s k} k ∧ k ≤ limit.toNat - m.cycles) ∧
    ((∀ k, ¬m.Stops s k) → m.config.maxCycles = none ∧ m.run s = none) ∧
    ∀ j, (∀ i < j, ¬m.Stops s i) → (m.stepped s j).result = .ok .running →
      (m.stepped s j).machine.run (m.stepped s j).sinks = m.run s := by
  refine ⟨fun k hk hrange => ⟨exists_run_of_isLeast hflush hk hrange, ?_, ?_⟩,
    fun limit hlimit => exists_isLeast_of_limit hlimit, fun hgo => ⟨?_, run_eq_none hgo⟩,
    fun j => run_stepped⟩
  · intro j hj
    have hgo : ∀ i ≤ j, ¬m.Stops s i := fun i hi h =>
      Nat.not_le.2 (Nat.lt_of_le_of_lt hi hj) (hk.2 h)
    exact ⟨(not_stops_iff.1 (hgo j (Nat.le_refl j))).2, runFor_of_not_stops hgo⟩
  · intro j hj
    exact cycles_lt_size hc hk hrange hj
  · exact maxCycles_eq_none (fun i _ => hgo i) (Nat.lt_succ_self _)

/-- A machine that prints a register and halts, and has two cycles for it. -/
def printsAndHalts : Machine :=
  { fresh { Config.default with maxCycles := some 2 } with
    memory := (Memory.empty.put 0 0x47).put 2 0x01 }

/-- It halts with its last cycle, and then it has halted and not reached the limit. -/
theorem halts_with_last_cycle :
    printsAndHalts.config.maxCycles = some 2 ∧ printsAndHalts.cycles = 0 ∧
      IsLeast {k | printsAndHalts.Stops .unlimited k} 2 ∧
      (printsAndHalts.stepped .unlimited 2).machine.exhausted = true ∧
      (∃ o, printsAndHalts.run .unlimited = some o ∧ printsAndHalts.EndsAfter .unlimited 2 o ∧
        o.result = .ok ⟨.halted, 2, 2⟩) ∧
      (printsAndHalts.stepped .unlimited 1).machine.run
        (printsAndHalts.stepped .unlimited 1).sinks = printsAndHalts.run .unlimited := by
  have hgo : ∀ k < 2, ¬printsAndHalts.Stops .unlimited k := by
    intro k hk
    match k, hk with
    | 0, _ => exact not_stops_iff.2 ⟨rfl, rfl⟩
    | 1, _ => exact not_stops_iff.2 ⟨rfl, rfl⟩
  have hhalt : (printsAndHalts.stepped .unlimited 2).result = .ok .halted := rfl
  have hleast : IsLeast {k | printsAndHalts.Stops .unlimited k} 2 :=
    ⟨.inl rfl, fun k hk => Nat.not_lt.1 fun hlt => hgo k hlt hk⟩
  obtain ⟨hends, -, -, hcut⟩ :=
    run_iterates_steps (m := printsAndHalts) (s := .unlimited) rfl (by decide)
  obtain ⟨⟨o, hrun, hend⟩, -⟩ := hends 2 hleast nofun
  have hresult : o.result = .ok ⟨.halted, 2, 2⟩ := by
    obtain ⟨hm, -, hlast⟩ := hend
    rw [hhalt, hm] at hlast
    exact hlast.1
  exact ⟨rfl, rfl, hleast, rfl, ⟨o, hrun, hend, hresult⟩,
    hcut 1 (fun i hi => hgo i (Nat.lt_succ_of_lt hi)) rfl⟩

end Machine

end ByteMachine
