/-
**Tracing only observes.**

A machine that keeps a trace writes one line in front of every step that it attempts, and does
nothing else about it: the line is made from the machine as it is, and no instruction asks whether
there is a trace.  So a machine that traces and one that does not give the same results, print the
same and come through the same states, whichever steps and runs are asked of them, as long as the
trace takes its lines.  What is in the trace is then known exactly.

Main definitions:

* `ByteMachine.Machine.tracing` — a machine with its trace turned on or off;
* `ByteMachine.Drive`, `Machine.session` — the calls that make steps, and a sequence of them;
* `ByteMachine.Machine.attempts`, `sessionAttempts` — the states in which steps are attempted;
* `ByteMachine.Machine.traceLines` — the lines of a trace of these states.

Main results:

* `ByteMachine.Machine.step_tracing`, `runFor_tracing`, `session_tracing` — **a step, a run and a
  sequence of calls** with the trace turned on;
* `ByteMachine.Machine.count_newline_traceLines` — there is one line for each state;
* `ByteMachine.Machine.tracing_only_observes` — **tracing only observes**.
-/

import ByteMachine.Proofs.Machine.Reconfigured
import ByteMachine.Proofs.Machine.Texts
import ByteMachine.Proofs.Machine.Written
import ByteMachine.Proofs.Numeral

set_option relaxedAutoImplicit false
set_option autoImplicit false

namespace ByteMachine

/-! ### Lines -/

namespace Trace

theorem newline_not_mem_column (b : Option UInt8) : '\n' ∉ (column b).toList := by
  cases b with
  | none => decide
  | some b => simp [column, Numeral.newline_not_mem_hexByte]

/-- What is shown of a machine is one line. -/
theorem newline_not_mem_text (t : Trace) : '\n' ∉ t.text.toList := by
  simp [text, String.toList_join, Numeral.newline_not_mem_hexByte, newline_not_mem_column]

end Trace

/-- The configuration with tracing turned on or off. -/
def Config.tracing (b : Bool) (c : Config) : Config := { c with trace := b }

/-- **The machine with its trace turned on or off.** -/
def Machine.tracing (m : Machine) (b : Bool) : Machine := m.reconfigured (.tracing b)

/-- **What a call leaves behind, with the trace turned on** and kept in this sink. -/
def Outcome.traced {α : Type} (o : Outcome α) (t : Sink) : Outcome α :=
  ⟨o.result, o.machine.tracing true, ⟨o.sinks.out, t⟩⟩

/-- A run that has been followed, with the trace turned on and kept in this sink. -/
def RunState.traced (r : RunState) (t : Sink) : RunState :=
  match r with
  | .ended o => .ended (o.traced t)
  | .interrupted m s => .interrupted (m.tracing true) ⟨s.out, t⟩

namespace Machine

variable {m : Machine} {s : Sinks} {out on off : Sink} {fuel : Nat}

/-- **The lines of a trace** of these states. -/
def traceLines (ms : List Machine) : String := String.join (ms.map fun m => m.trace.text ++ "\n")

@[simp] theorem traceLines_nil : traceLines [] = "" := rfl

theorem traceLines_append (ms ns : List Machine) :
    traceLines (ms ++ ns) = traceLines ms ++ traceLines ns := by
  simp [traceLines]

/-- **There is one line for each state.** -/
theorem count_newline_traceLines (ms : List Machine) :
    (traceLines ms).toList.count '\n' = ms.length := by
  induction ms with
  | nil => rfl
  | cons m ms ih =>
      have hline : m.trace.text.toList.count '\n' = 0 :=
        List.count_eq_zero_of_not_mem m.trace.newline_not_mem_text
      rw [← List.singleton_append, traceLines_append, String.toList_append, List.count_append, ih]
      simp [traceLines, hline, Nat.add_comm]

/-! ### Steps -/

theorem action_tracing (m : Machine) (b : Bool) :
    (m.tracing b).action = (m.action.1, m.action.2.tracing b) := by
  have hagrees : ∀ i, m.AgreesAt (.tracing b) i :=
    fun i => ⟨rfl, fun _ _ _ _ => rfl, fun _ => rfl⟩
  unfold action
  rw [show (m.tracing b).fetch = m.fetch from rfl]
  cases m.fetch with
  | error e => rfl
  | ok i =>
      simp only [show (m.tracing b).execute i = _ from execute_reconfigured (hagrees i)]
      cases m.execute i with
      | error e => rfl
      | ok f => rfl

theorem traceLine_traced (m : Machine) :
    (m.tracing true).traceLine = traceLines [m.tracing true] := by
  simp [traceLine, traceLines, tracing, reconfigured, Config.tracing]

theorem traceLine_of_untraced (hm : m.config.trace = false) : m.traceLine = "" := by
  simp [traceLine, hm]

/-- Without a trace, a step leaves the trace sink alone. -/
theorem trace_step_of_untraced (hm : m.config.trace = false) (s : Sinks) :
    (m.step s).sinks.trace = s.trace := by
  have hline := traceLine_of_untraced hm
  have ht : s.trace.Fits m.traceLine := hline ▸ s.trace.fits_empty
  by_cases hp : s.out.Fits m.printLine
  · rw [step_of_fits ht hp, hline]
    exact s.trace.wrote_empty
  · rw [step_of_unprinted ht hp, hline]
    exact s.trace.wrote_empty

/-- **A step with the trace turned on** writes its line, and does what it does without. -/
theorem step_tracing (out off : Sink) (hm : m.config.trace = false) (hroom : on.room = none) :
    (m.tracing true).step ⟨out, on⟩ =
      (m.step ⟨out, off⟩).traced (on.wrote (traceLines [m.tracing true])) := by
  have hoff : off.Fits m.traceLine := traceLine_of_untraced hm ▸ off.fits_empty
  have hon : on.Fits (m.tracing true).traceLine := Sink.fits_of_unlimited hroom _
  by_cases hp : out.Fits m.printLine
  · rw [step_of_fits hon hp, step_of_fits hoff hp, action_tracing, traceLine_traced]
    rfl
  · rw [step_of_unprinted hon hp, step_of_unprinted hoff hp, traceLine_traced]
    rfl

/-! ### Runs -/

/-- **The states in which a run attempts a step**, in order, if it is followed for so many steps:
where the cycle limit is reached it attempts none, and behind a step that has halted or failed no
other. -/
def attemptsFor : Nat → Machine → Sinks → List Machine
  | 0, _, _ => []
  | fuel + 1, m, s =>
    if m.exhausted then []
    else
      m :: match m.step s with
        | ⟨.ok .running, m, s⟩ => attemptsFor fuel m s
        | _ => []

theorem attemptsFor_of_exhausted (h : m.exhausted = true) (fuel : Nat) :
    attemptsFor fuel m s = [] := by
  cases fuel with
  | zero => rfl
  | succ fuel => rw [attemptsFor, if_pos h]

theorem attemptsFor_of_running (h : m.exhausted = false) (hs : (m.step s).result = .ok .running) :
    attemptsFor (fuel + 1) m s =
      m :: attemptsFor fuel (m.step s).machine (m.step s).sinks := by
  rw [attemptsFor, if_neg (by simp [h])]
  generalize m.step s = o at hs
  obtain ⟨result, m₁, s₁⟩ := o
  cases hs
  rfl

theorem attemptsFor_of_ne (h : m.exhausted = false) (hs : (m.step s).result ≠ .ok .running) :
    attemptsFor (fuel + 1) m s = [m] := by
  rw [attemptsFor, if_neg (by simp [h])]
  generalize m.step s = o at hs
  obtain ⟨result, m₁, s₁⟩ := o
  match result with
  | .ok .running => exact absurd rfl hs
  | .ok .halted => rfl
  | .error e => rfl

/-- Steps that go on are attempted one after the other. -/
theorem attemptsFor_add {k : Nat} (hgo : ∀ j < k, ¬m.Stops s j)
    (hk : (m.stepped s k).result = .ok .running) (n : Nat) :
    attemptsFor (k + n) m s =
      (List.range k).map (fun j => (m.stepped s j).machine) ++
        attemptsFor n (m.stepped s k).machine (m.stepped s k).sinks := by
  induction k generalizing n with
  | zero => simp [stepped]
  | succ k ih =>
      obtain ⟨hex, hlast⟩ := not_stops_iff.1 (hgo k (Nat.lt_succ_self k))
      have hgo' : ∀ j < k, ¬m.Stops s j := fun j hj => hgo j (Nat.lt_succ_of_lt hj)
      rw [Nat.add_assoc, Nat.add_comm 1, ih hgo' hlast (n + 1), attemptsFor_of_running hex hk]
      simp [List.range_succ, stepped]

/-- **A run attempts the steps up to the first reason to stop.** -/
theorem attemptsFor_of_isLeast {k : Nat} (hk : IsLeast {k | m.Stops s k} k) (hfuel : k ≤ fuel) :
    attemptsFor fuel m s = (List.range k).map fun j => (m.stepped s j).machine := by
  have hgo : ∀ j < k, ¬m.Stops s j := fun j hj h => Nat.not_le.2 hj (hk.2 h)
  obtain ⟨d, rfl⟩ := Nat.exists_eq_add_of_le hfuel
  by_cases hlast : (m.stepped s k).result = .ok .running
  · -- the last step goes on, so the limit is reached
    have hex := Or.resolve_right hk.1 (not_not_intro hlast)
    rw [attemptsFor_add hgo hlast, attemptsFor_of_exhausted hex, List.append_nil]
  · cases k with
    | zero => exact absurd rfl hlast
    | succ k =>
        obtain ⟨hex, hbefore⟩ := not_stops_iff.1 (hgo k (Nat.lt_succ_self k))
        have hcut := attemptsFor_add (fun j hj => hgo j (Nat.lt_succ_of_lt hj)) hbefore (d + 1)
        rw [Nat.add_assoc, Nat.add_comm 1 d, hcut, attemptsFor_of_ne hex hlast]
        simp [List.range_succ]

/-- **A run with the trace turned on** writes the lines of the states in which it attempts a step,
and does what it does without. -/
theorem runFor_tracing (out off : Sink) (hm : m.config.trace = false) (hroom : on.room = none) :
    runFor fuel (m.tracing true) ⟨out, on⟩ =
      (runFor fuel m ⟨out, off⟩).traced
        (on.wrote (traceLines (attemptsFor fuel (m.tracing true) ⟨out, on⟩))) := by
  -- induction on the steps that the run is followed for; each line stands in front of the others
  induction fuel generalizing m out on with
  | zero =>
      have hex : (m.tracing true).exhausted = m.exhausted := exhausted_reconfigured fun _ => rfl
      cases h : m.exhausted with
      | true =>
          rw [runFor_of_exhausted h, runFor_of_exhausted (hex.trans h)]
          simp [attemptsFor, RunState.traced, Outcome.traced]
      | false =>
          rw [runFor_zero h, runFor_zero (hex.trans h)]
          simp [attemptsFor, RunState.traced]
  | succ fuel ih =>
      have hex : (m.tracing true).exhausted = m.exhausted := exhausted_reconfigured fun _ => rfl
      cases h : m.exhausted with
      | true =>
          rw [runFor_of_exhausted h, runFor_of_exhausted (hex.trans h),
            attemptsFor_of_exhausted (hex.trans h)]
          simp [RunState.traced, Outcome.traced]
      | false =>
          have hstep := step_tracing out off hm hroom
          have hkept : (m.step ⟨out, off⟩).sinks.trace = off := trace_step_of_untraced hm _
          by_cases hs : (m.step ⟨out, off⟩).result = .ok .running
          · have hs' : ((m.tracing true).step ⟨out, on⟩).result = .ok .running := by
              rw [hstep]
              exact hs
            have hnext : (m.step ⟨out, off⟩).machine.config.trace = false := by
              rw [config_step]
              exact hm
            have hrest := ih (m.step ⟨out, off⟩).sinks.out hnext
              (Sink.room_wrote_of_unlimited hroom (traceLines [m.tracing true]))
            rw [← Sink.wrote_append, ← traceLines_append] at hrest
            rw [runFor_succ_of_running h hs, runFor_succ_of_running (hex.trans h) hs',
              attemptsFor_of_running (hex.trans h) hs', hstep]
            have hsinks : (m.step ⟨out, off⟩).sinks = ⟨(m.step ⟨out, off⟩).sinks.out, off⟩ :=
              congrArg (Sinks.mk _) hkept
            rw [hsinks]
            exact hrest
          · have hs' : ((m.tracing true).step ⟨out, on⟩).result ≠ .ok .running := by
              rw [hstep]
              exact hs
            rw [runFor_succ_of_ne h hs, runFor_succ_of_ne (hex.trans h) hs',
              attemptsFor_of_ne (hex.trans h) hs', hstep]
            rfl

theorem conclude_traced (o : Outcome HaltReason) (t : Sink) :
    conclude (o.traced t) = (conclude o).traced t := by
  obtain ⟨result, m, s⟩ := o
  cases result with
  | error e => rfl
  | ok reason =>
      simp only [conclude, Outcome.traced]
      cases s.out.flush <;> rfl

theorem trace_stepped_of_untraced (hm : m.config.trace = false) (s : Sinks) (k : Nat) :
    (m.stepped s k).sinks.trace = s.trace := by
  induction k with
  | zero => rfl
  | succ k ih =>
      have hk : (m.stepped s k).machine.config.trace = false := by
        rw [config_stepped]
        exact hm
      exact (trace_step_of_untraced hk _).trans ih

/-- Without a trace, a run leaves the trace sink alone. -/
theorem trace_run_of_untraced (hm : m.config.trace = false) {o : Outcome Halt}
    (h : m.run s = some o) : o.sinks.trace = s.trace := by
  obtain ⟨k, -, -, rfl⟩ := exists_isLeast_of_run h
  rw [sinks_conclude]
  exact trace_stepped_of_untraced hm s k

theorem run_tracing (out off : Sink) (hm : m.config.trace = false) (hroom : on.room = none) :
    (m.tracing true).run ⟨out, on⟩ =
      (m.run ⟨out, off⟩).map
        (·.traced (on.wrote
          (traceLines (attemptsFor (m.tracing true).budget (m.tracing true) ⟨out, on⟩)))) := by
  have hbudget : (m.tracing true).budget = m.budget := budget_reconfigured fun _ => rfl
  unfold run
  rw [runFor_tracing out off hm hroom, hbudget]
  cases runFor m.budget m ⟨out, off⟩ with
  | ended o => exact congrArg some (conclude_traced o _)
  | interrupted m' s' => rfl

end Machine

/-! ### Sequences of calls -/

/-- **A call that makes steps.** -/
inductive Drive where
  /-- A single step. -/
  | step
  /-- A whole run. -/
  | run
  deriving DecidableEq, Repr

/-- **What a sequence of calls leaves behind:** what each of them says, the machine and the
sinks. -/
structure Session where
  results : List (Except Fault (Progress ⊕ Halt))
  machine : Machine
  sinks : Sinks

/-- A sequence of calls, with the trace turned on and kept in this sink. -/
def Session.traced (c : Session) (t : Sink) : Session :=
  ⟨c.results, c.machine.tracing true, ⟨c.sinks.out, t⟩⟩

namespace Machine

variable {m : Machine} {s : Sinks} {out on off : Sink}

/-- What a call that makes steps leaves behind; nothing if it goes on for ever. -/
def drive (m : Machine) (s : Sinks) : Drive → Option (Outcome (Progress ⊕ Halt))
  | .step => some ⟨(m.step s).result.map .inl, (m.step s).machine, (m.step s).sinks⟩
  | .run => (m.run s).map fun o => ⟨o.result.map .inr, o.machine, o.sinks⟩

/-- **A sequence of calls,** each made where the one before it has left off. -/
def session (m : Machine) (s : Sinks) : List Drive → Option Session
  | [] => some ⟨[], m, s⟩
  | d :: ds =>
    match m.drive s d with
    | none => none
    | some o =>
      (o.machine.session o.sinks ds).map fun c => ⟨o.result :: c.results, c.machine, c.sinks⟩

/-- **The states in which a call attempts a step**, in order. -/
def attempts (m : Machine) (s : Sinks) : Drive → List Machine
  | .step => [m]
  | .run => attemptsFor m.budget m s

/-- **The states in which a sequence of calls attempts a step**, in order. -/
def sessionAttempts (m : Machine) (s : Sinks) : List Drive → List Machine
  | [] => []
  | d :: ds =>
    m.attempts s d ++
      match m.drive s d with
      | none => []
      | some o => o.machine.sessionAttempts o.sinks ds

theorem drive_tracing (out off : Sink) (hm : m.config.trace = false) (hroom : on.room = none)
    (d : Drive) :
    (m.tracing true).drive ⟨out, on⟩ d =
      (m.drive ⟨out, off⟩ d).map
        (·.traced (on.wrote (traceLines ((m.tracing true).attempts ⟨out, on⟩ d)))) := by
  cases d with
  | step =>
      simp only [drive, step_tracing out off hm hroom]
      rfl
  | run =>
      simp only [drive, run_tracing out off hm hroom, Option.map_map]
      rfl

/-- Without a trace, a call leaves the trace sink and the configuration alone. -/
theorem drive_of_untraced (hm : m.config.trace = false) {d : Drive}
    {o : Outcome (Progress ⊕ Halt)} (h : m.drive s d = some o) :
    o.sinks.trace = s.trace ∧ o.machine.config.trace = false := by
  cases d with
  | step =>
      obtain rfl := Option.some.inj h
      have hconfig : (m.step s).machine.config.trace = false := by
        rw [config_step]
        exact hm
      exact ⟨trace_step_of_untraced hm s, hconfig⟩
  | run =>
      obtain ⟨o', hrun, rfl⟩ := Option.map_eq_some_iff.1 h
      have hconfig : ∀ (m : Machine) (s : Sinks), m.config.trace = false →
          (m.step s).machine.config.trace = false := by
        intro m s hm
        rw [config_step]
        exact hm
      exact ⟨trace_run_of_untraced hm hrun, run_induction hconfig hrun hm⟩

/-- **A sequence of calls with the trace turned on** writes the lines of the states in which it
attempts a step, and does what it does without. -/
theorem session_tracing (out off : Sink) (hm : m.config.trace = false) (hroom : on.room = none)
    (ds : List Drive) :
    (m.tracing true).session ⟨out, on⟩ ds =
      (m.session ⟨out, off⟩ ds).map
        (·.traced (on.wrote (traceLines ((m.tracing true).sessionAttempts ⟨out, on⟩ ds)))) := by
  induction ds generalizing m out on with
  | nil => simp [session, sessionAttempts, Session.traced]
  | cons d ds ih =>
      have hdrive := drive_tracing out off hm hroom d
      unfold session sessionAttempts
      rw [hdrive]
      cases ho : m.drive ⟨out, off⟩ d with
      | none => rfl
      | some o =>
          obtain ⟨hkept, hnext⟩ := drive_of_untraced hm ho
          obtain ⟨result, m₁, out₁, t₁⟩ := o
          obtain rfl : t₁ = off := hkept
          have hrest := ih out₁ hnext (Sink.room_wrote_of_unlimited hroom
            (traceLines ((m.tracing true).attempts ⟨out, on⟩ d)))
          rw [← Sink.wrote_append, ← traceLines_append] at hrest
          simp only [Option.map_some, Outcome.traced, hrest, Option.map_map]
          rfl

/-- Without a trace, a sequence of calls leaves the trace sink and the configuration alone. -/
theorem session_of_untraced (hm : m.config.trace = false) {ds : List Drive} {c : Session}
    (h : m.session s ds = some c) : c.sinks.trace = s.trace ∧ c.machine.config.trace = false := by
  induction ds generalizing m s c with
  | nil =>
      obtain rfl := Option.some.inj h
      exact ⟨rfl, hm⟩
  | cons d ds ih =>
      unfold session at h
      split at h
      · cases h
      · rename_i o ho
        obtain ⟨hkept, hnext⟩ := drive_of_untraced hm ho
        obtain ⟨c', hc', rfl⟩ := Option.map_eq_some_iff.1 h
        obtain ⟨hsinks, hconfig⟩ := ih hnext hc'
        exact ⟨hsinks.trans hkept, hconfig⟩

/-- Turning the trace on and off again changes nothing. -/
theorem tracing_tracing_of_untraced (hm : m.config.trace = false) :
    (m.tracing true).tracing false = m := by
  obtain ⟨⟨top, limit, maxCycles, overflow, jumpMode, trace⟩, memory, registers, flags, pc, base,
    cycles⟩ := m
  cases hm
  rfl

/-- **Tracing only observes.**  A machine is asked for the same steps and runs with its trace turned
on and off, in front of the same output; the trace takes all that is written to it.  Either both
come to an end with all of them or neither does.  They give the same results, write the same to the
output, and are left in the same state, but for the trace being on.  Without the trace nothing is
written to the trace sink.  With it, what is written there are the lines of the states in which a
step is attempted, one for each of them and in their order, and each made of the machine in front of
that step.  A run attempts the steps up to the first reason to stop: that which halts or fails is
among them, and where the cycle limit is reached there is none. -/
theorem tracing_only_observes (m : Machine) (out off : Sink) {on : Sink} (hroom : on.room = none)
    (ds : List Drive) :
    ((m.tracing true).session ⟨out, on⟩ ds = none ↔
      (m.tracing false).session ⟨out, off⟩ ds = none) ∧
    (∀ c c', (m.tracing true).session ⟨out, on⟩ ds = some c →
      (m.tracing false).session ⟨out, off⟩ ds = some c' →
      c.results = c'.results ∧ c.sinks.out = c'.sinks.out ∧
      c.machine = c'.machine.tracing true ∧ c'.machine = c.machine.tracing false ∧
      c'.sinks.trace = off ∧
      c.sinks.trace.taken = on.taken ++
        (traceLines ((m.tracing true).sessionAttempts ⟨out, on⟩ ds)).toUTF8 ∧
      (traceLines ((m.tracing true).sessionAttempts ⟨out, on⟩ ds)).toList.count '\n' =
        ((m.tracing true).sessionAttempts ⟨out, on⟩ ds).length) ∧
    ∀ (m : Machine) s k, IsLeast {k | m.Stops s k} k → k ≤ m.budget →
      m.attempts s .run = (List.range k).map fun j => (m.stepped s j).machine := by
  have hm : (m.tracing false).config.trace = false := rfl
  have htraced := session_tracing out off hm hroom ds
  change (m.tracing true).session ⟨out, on⟩ ds = _ at htraced
  rw [htraced, Option.map_eq_none_iff]
  refine ⟨Iff.rfl, fun c c' hc hc' => ?_, fun m s k hk hle => attemptsFor_of_isLeast hk hle⟩
  rw [hc'] at hc
  obtain rfl := Option.some.inj hc
  obtain ⟨hoff, hconfig⟩ := session_of_untraced hm hc'
  exact ⟨rfl, rfl, rfl, (tracing_tracing_of_untraced hconfig).symm, hoff,
    Sink.taken_wrote_of_fits (Sink.fits_of_unlimited hroom _), count_newline_traceLines _⟩

/-- A print and a halt, traced with two lines; the run behind them has no cycle left, and writes
none. -/
theorem traces_print_and_halt :
    ∃ c c', (printsAndHalts.tracing true).session .unlimited [.run, .run] = some c ∧
      (printsAndHalts.tracing false).session .unlimited [.run, .run] = some c' ∧
      c.results = c'.results ∧
      c.results = [.ok (.inr ⟨.halted, 2, 2⟩), .ok (.inr ⟨.cycleLimit, 2, 2⟩)] ∧
      c'.sinks.trace.taken = .empty ∧
      c.sinks.trace.taken = ("TRACE: 00 | 00 | 47 00 01 | 00 00 00 00 00 00 00 F4\n" ++
        "TRACE: 02 | 00 | 01 00 00 | 00 00 00 00 00 00 00 F4\n").toUTF8 := by
  have hroom : Sink.unlimited.room = none := rfl
  obtain ⟨-, hall, -⟩ :=
    tracing_only_observes printsAndHalts .unlimited .unlimited hroom [.run, .run]
  obtain ⟨hresults, -, -, -, hoff, hlines, -⟩ := hall _ _ rfl rfl
  refine ⟨_, _, rfl, rfl, hresults, rfl, congrArg Sink.taken hoff, hlines.trans ?_⟩
  rw [show Sink.unlimited.taken = ByteArray.empty from rfl, ByteArray.empty_append]
  exact congrArg String.toUTF8 (by decide +kernel)

end Machine

end ByteMachine
