/-
**The cycle limit only cuts a run off.**

A machine asks for its cycle limit between two steps and nowhere else, and a step neither asks for
the limit nor for the number of cycles.  So two machines that differ in their limits make the same
steps, and the smaller limit decides only how many of them are made.  A run that ends by itself ends
the same under every larger limit, also if it does so with its last cycle.  A run that is cut off is
the beginning of the longer one: the machine is left in a state that the longer run comes through,
what is written is the beginning of what the longer run writes, and the rest can be made up for.

Main definitions:

* `ByteMachine.LimitLe` — the order of cycle limits, in which none is the largest;
* `ByteMachine.Machine.limited` — a machine under another cycle limit;
* `ByteMachine.Machine.PassesThrough` — the states that a run comes through.

Main results:

* `ByteMachine.Machine.stepped_limited` — **the steps do not depend on the limit**;
* `ByteMachine.Machine.stops_of_limitLe` — a larger limit gives no new reason to stop;
* `ByteMachine.Machine.larger_limit_extends_run` — **the cycle limit only cuts a run off**.
-/

import ByteMachine.Proofs.Machine.Reconfigured
import ByteMachine.Proofs.Machine.Written

set_option relaxedAutoImplicit false
set_option autoImplicit false

namespace ByteMachine

/-! ### Limits -/

/-- **The order of cycle limits.**  No limit is the largest one. -/
def LimitLe : Option UInt64 → Option UInt64 → Prop
  | _, none => True
  | none, some _ => False
  | some l, some l' => l ≤ l'

/-- The configuration with another cycle limit. -/
def Config.limited (limit : Option UInt64) (c : Config) : Config := { c with maxCycles := limit }

namespace Machine

variable {m : Machine} {s : Sinks} {k : Nat} {limit limit' : Option UInt64}

/-- **The machine under another cycle limit.** -/
def limited (m : Machine) (limit : Option UInt64) : Machine := m.reconfigured (.limited limit)

/-- **The steps do not depend on the limit.** -/
theorem stepped_limited (m : Machine) (limit : Option UInt64) (s : Sinks) (k : Nat) :
    (m.limited limit).stepped s k = (m.stepped s k).reconfigured (.limited limit) := by
  refine stepped_reconfigured fun j _ => step_reconfigured rfl fun _ i _ => ?_
  exact ⟨rfl, fun _ _ _ _ => rfl, fun _ => rfl⟩

theorem exhausted_of_limitLe (hle : LimitLe limit limit')
    (h : (m.limited limit').exhausted = true) : (m.limited limit).exhausted = true := by
  obtain ⟨l', rfl, hl'⟩ := exhausted_iff.1 h
  cases limit with
  | none => exact hle.elim
  | some l => exact exhausted_iff.2 ⟨l, rfl, (UInt64.le_iff_toNat_le.1 hle).trans hl'⟩

theorem budget_of_limitLe (m : Machine) (hle : LimitLe limit limit') :
    (m.limited limit).budget ≤ (m.limited limit').budget := by
  refine Nat.sub_le_sub_right ?_ m.cycles
  match limit, limit' with
  | none, none => exact Nat.le_refl _
  | some l, none => exact Nat.le_of_lt l.toNat_lt_size
  | none, some l' => exact hle.elim
  | some l, some l' => exact UInt64.le_iff_toNat_le.1 hle

/-- **A larger limit gives no new reason to stop.** -/
theorem stops_of_limitLe (hle : LimitLe limit limit') (h : (m.limited limit').Stops s k) :
    (m.limited limit).Stops s k := by
  unfold Stops at h ⊢
  rw [stepped_limited] at h ⊢
  exact h.imp_left (exhausted_of_limitLe hle)

/-! ### Runs -/

/-- **The run comes through this state:** steps that give no reason to stop lead there. -/
def PassesThrough (m : Machine) (s : Sinks) (m' : Machine) (s' : Sinks) : Prop :=
  ∃ k, (∀ j < k, ¬m.Stops s j) ∧ m.stepped s k = ⟨.ok .running, m', s'⟩

/-- A run that ends by itself ends the same under a larger limit. -/
theorem run_of_ends_itself (hle : LimitLe limit limit')
    (hk : IsLeast {k | (m.limited limit).Stops s k} k) (hbudget : k ≤ (m.limited limit).budget)
    (hend : (m.stepped s k).result ≠ .ok .running) :
    (m.limited limit').run s =
      some ((conclude ((m.limited limit).stepped s k).ending).reconfigured (.limited limit')) := by
  have hstop : (m.limited limit').Stops s k := by
    right
    rw [stepped_limited]
    exact hend
  have hleast : IsLeast {k | (m.limited limit').Stops s k} k :=
    ⟨hstop, fun j hj => hk.2 (stops_of_limitLe hle hj)⟩
  rw [run_of_isLeast hleast (hbudget.trans (m.budget_of_limitLe hle)),
    ← conclude_reconfigured, stepped_limited, stepped_limited]
  rfl

/-- A run that is cut off leaves the machine in a state that a longer run comes through. -/
theorem passesThrough_of_cut_off (hle : LimitLe limit limit')
    (hk : IsLeast {k | (m.limited limit).Stops s k} k)
    (hgo : (m.stepped s k).result = .ok .running) :
    (m.limited limit').PassesThrough s ((m.stepped s k).machine.limited limit')
      (m.stepped s k).sinks := by
  refine ⟨k, fun j hj hstop => Nat.not_le.2 hj (hk.2 (stops_of_limitLe hle hstop)), ?_⟩
  rw [stepped_limited, Outcome.reconfigured, hgo]
  rfl

/-- The rest of a run can be made up for from every state that it comes through. -/
theorem PassesThrough.run_eq {m' : Machine} {s' : Sinks} (h : m.PassesThrough s m' s') :
    m'.run s' = m.run s := by
  obtain ⟨k, hgo, hk⟩ := h
  have hcut := run_stepped hgo (by rw [hk])
  rwa [hk] at hcut

/-- **The cycle limit only cuts a run off.**  The machine is run under a limit, and under a larger
one or none.  If the first run halts or fails, the second one does the same: it has the same result
and leaves the same machine, but for the limit, and the same texts.  If the first run is cut off,
the second one comes through the state in which the machine is left, and begins to write what the
first one has written; made from there under the larger limit, the run ends as the second one. -/
theorem larger_limit_extends_run (m : Machine) (hflush : s.out.flush = .ok ())
    (hle : LimitLe limit limit') {o : Outcome Halt} (hrun : (m.limited limit).run s = some o) :
    ((∀ h, o.result = .ok h → h.reason = .halted) →
      (m.limited limit').run s = some (o.reconfigured (.limited limit'))) ∧
    ∀ h, o.result = .ok h → h.reason = .cycleLimit →
      (m.limited limit').PassesThrough s (o.machine.limited limit') o.sinks ∧
      (o.machine.limited limit').run o.sinks = (m.limited limit').run s ∧
      ∀ o', (m.limited limit').run s = some o' → o.sinks.Begins o'.sinks := by
  obtain ⟨k, hk, hbudget, rfl⟩ := exists_isLeast_of_run hrun
  have hresult : (conclude ((m.limited limit).stepped s k).ending).result =
      (m.stepped s k).result.map fun p =>
        ⟨p.reason, (m.stepped s k).machine.pc, (m.stepped s k).machine.cycles⟩ := by
    rw [conclude_ending ((flush_stepped _ s k).trans hflush), stepped_limited]
    rfl
  rw [hresult]
  constructor
  · intro hend
    refine run_of_ends_itself hle hk hbudget fun hgo => ?_
    rw [hgo] at hend
    cases hend _ rfl
  · intro h hok hreason
    have hgo : (m.stepped s k).result = .ok .running := by
      cases hlast : (m.stepped s k).result with
      | error e =>
          rw [hlast] at hok
          cases hok
      | ok p =>
          rw [hlast] at hok
          obtain rfl := Except.ok.inj hok
          cases p with
          | running => rfl
          | halted => cases hreason
    rw [machine_conclude, sinks_conclude, stepped_limited]
    have hpasses := passesThrough_of_cut_off hle hk hgo
    refine ⟨hpasses, hpasses.run_eq, fun o' hrun' => ?_⟩
    rw [← hpasses.run_eq] at hrun'
    exact begins_run hrun'

/-- A run that is cut off behind a print, and made up for up to the halt. -/
theorem extends_run_cut_off_behind_print :
    ∃ o o', (printsAndHalts.limited (some 1)).run .unlimited = some o ∧
      o.result = .ok ⟨.cycleLimit, 2, 1⟩ ∧
      (printsAndHalts.limited none).run .unlimited = some o' ∧ o'.result = .ok ⟨.halted, 2, 2⟩ ∧
      (o.machine.limited none).run o.sinks = some o' ∧ o.sinks.Begins o'.sinks := by
  have hle : ∀ l, LimitLe (some l) none := fun _ => trivial
  obtain ⟨hhalted, -⟩ := larger_limit_extends_run (s := .unlimited) printsAndHalts rfl (hle 2) rfl
  have hrun := hhalted fun h hok => by
    obtain rfl := Except.ok.inj hok
    rfl
  obtain ⟨-, hcut⟩ := larger_limit_extends_run (s := .unlimited) printsAndHalts rfl (hle 1) rfl
  obtain ⟨-, hrest, hbegins⟩ := hcut _ rfl rfl
  exact ⟨_, _, rfl, rfl, hrun, rfl, hrest.trans hrun, hbegins _ hrun⟩

end Machine

end ByteMachine
