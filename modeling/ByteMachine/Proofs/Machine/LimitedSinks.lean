/-
**Output and trace that fill up.**

The sinks of a machine may fill up: each of them takes the bytes up to its limit and refuses the
rest.  A machine in front of such sinks makes the steps that it makes in front of sinks without a
limit, up to the first step that has a line refused.  That step fails, and the sink that has refused
the line holds the beginning of what it would hold without a limit, up to the last byte of its room.

Main definitions:

* `ByteMachine.Sinks.limited` — empty sinks with limited room;
* `ByteMachine.Machine.LineFits`, `Refused` — which lines are taken, and which step has a line
  refused;
* `ByteMachine.Machine.CutAt` — what is left behind if this step is the first of them.

Main results:

* `ByteMachine.Machine.stepped_limitedSinks` — **steps whose lines fit are made as they are**;
* `ByteMachine.Machine.stepped_of_traceLine_refused`, `stepped_of_printLine_refused` — **the first
  step that has a line refused**;
* `ByteMachine.Machine.run_of_none_refused`, `run_of_refused` — the same for a whole run;
* `ByteMachine.Machine.limited_sinks_hold_beginnings` — **all of it**.
-/

import ByteMachine.Proofs.Machine.Texts
import ByteMachine.Proofs.Machine.Written

set_option relaxedAutoImplicit false
set_option autoImplicit false

namespace ByteMachine

/-- **Empty sinks with limited room** for the output and for the trace. -/
def Sinks.limited (outLimit traceLimit : Nat) (flushFails : Bool) : Sinks :=
  ⟨{ Sink.limited outLimit with flushFails }, .limited traceLimit⟩

theorem Sink.fits_iff_of_room {s : Sink} {room : Nat} (h : s.room = some room) {t : String} :
    s.Fits t ↔ t.utf8ByteSize ≤ room := by
  simp [Fits, h]

/-- The beginning of a text is the beginning of every longer one. -/
theorem extract_append_of_le {a : ByteArray} {n : Nat} (h : n ≤ a.size) (b : ByteArray) :
    (a ++ b).extract 0 n = a.extract 0 n := by
  have hnone : b.extract 0 (n - a.size) = ByteArray.empty := by
    rw [ByteArray.extract_eq_empty_iff]
    omega
  rw [← Sink.extract_append_extract, hnone, ByteArray.append_empty]

namespace Machine

variable {m : Machine} {outLimit traceLimit : Nat} {flushFails : Bool} {j n : Nat}

/-! ### Lines that fit -/

/-- **The line of step `j` fits** into what the lines of the steps before it have left of the
limit. -/
def LineFits (m : Machine) (line : Machine → String) (limit j : Nat) : Prop :=
  (line (m.stateAfter j)).utf8ByteSize ≤ limit - (m.textOf line j).utf8ByteSize

/-- **Step `j` has a line refused.** -/
def Refused (m : Machine) (outLimit traceLimit j : Nat) : Prop :=
  ¬m.LineFits traceLine traceLimit j ∨ ¬m.LineFits printLine outLimit j

theorem not_refused_iff :
    ¬m.Refused outLimit traceLimit j ↔
      m.LineFits traceLine traceLimit j ∧ m.LineFits printLine outLimit j := by
  rw [Refused, not_or, not_not, not_not]

/-- In front of the first step that has a line refused, none is. -/
theorem not_refused_of_isLeast (hj : IsLeast {j | m.Refused outLimit traceLimit j} j) :
    ∀ i < j, ¬m.Refused outLimit traceLimit i :=
  fun _ hi h => Nat.not_le.2 hi (hj.2 h)

/-- Lines that fit one after the other fit together. -/
theorem size_textOf_le {line : Machine → String} {limit : Nat}
    (hfit : ∀ j < n, m.LineFits line limit j) : (m.textOf line n).utf8ByteSize ≤ limit := by
  -- induction on the lines: the last one fits into what the others have left
  induction n with
  | zero => exact Nat.zero_le limit
  | succ n ih =>
      have hbefore := ih fun j hj => hfit j (Nat.lt_succ_of_lt hj)
      have hline := hfit n (Nat.lt_succ_self n)
      unfold LineFits at hline
      rw [textOf_succ, String.utf8ByteSize_append]
      omega

/-- A line that does not fit passes the limit together with those before it. -/
theorem lt_size_textOf_succ {line : Machine → String} {limit : Nat}
    (hline : ¬m.LineFits line limit j) : limit < (m.textOf line (j + 1)).utf8ByteSize := by
  unfold LineFits at hline
  rw [textOf_succ, String.utf8ByteSize_append]
  omega

/-- Behind the lines before it, a line is taken exactly if it fits. -/
theorem fits_line_iff {line : Machine → String} {limit : Nat} {t : Sink}
    (ht : t.room = some limit) :
    (t.wrote (m.textOf line j)).Fits (line (m.stateAfter j)) ↔ m.LineFits line limit j := by
  rw [Sink.fits_iff_of_room (by rw [Sink.room_wrote, ht]; rfl)]
  rfl

/-! ### Steps -/

/-- **Steps whose lines fit are made as they are.** -/
theorem stepped_limitedSinks (hfit : ∀ j < n, ¬m.Refused outLimit traceLimit j) :
    m.stepped (.limited outLimit traceLimit flushFails) n =
      ⟨(m.stepped .unlimited n).result, m.stateAfter n,
        (Sinks.limited outLimit traceLimit flushFails).wrote (m.textOf printLine n)
          (m.textOf traceLine n)⟩ := by
  have hout := size_textOf_le fun j hj => (not_refused_iff.1 (hfit j hj)).2
  have htrace := size_textOf_le fun j hj => (not_refused_iff.1 (hfit j hj)).1
  exact stepped_of_fits ((Sink.fits_iff_of_room rfl).2 hout) ((Sink.fits_iff_of_room rfl).2 htrace)

/-- Sinks with limited room take the beginning of what they are given. -/
theorem taken_limited_wrote (outLimit traceLimit : Nat) (flushFails : Bool) (t u : String) :
    ((Sinks.limited outLimit traceLimit flushFails).wrote t u).out.taken =
        t.toUTF8.extract 0 outLimit ∧
      ((Sinks.limited outLimit traceLimit flushFails).wrote t u).trace.taken =
        u.toUTF8.extract 0 traceLimit := by
  constructor
  · exact (Sink.taken_wrote_of_room rfl t).trans ByteArray.empty_append
  · exact (Sink.taken_wrote_of_room rfl u).trans ByteArray.empty_append

/-- The lines that fit are within the limit. -/
theorem extract_textOf {line : Machine → String} {limit : Nat}
    (hfit : ∀ j < n, m.LineFits line limit j) :
    (m.textOf line n).toUTF8.extract 0 limit = (m.textOf line n).toUTF8 := by
  have hsize : (m.textOf line n).toUTF8.size ≤ limit := size_textOf_le hfit
  rw [← Nat.max_eq_left hsize]
  exact ByteArray.extract_zero_max_size

/-- Behind a line that does not fit, the beginning up to the limit stays as it is. -/
theorem extract_textOf_of_lt {line : Machine → String} {limit : Nat}
    (hline : ¬m.LineFits line limit j) (hn : j < n) :
    (m.textOf line (j + 1)).toUTF8.extract 0 limit =
      (m.textOf line n).toUTF8.extract 0 limit := by
  obtain ⟨more, hmore⟩ := m.exists_textOf_eq_append line (Nat.succ_le_of_lt hn)
  have hsize : limit ≤ (m.textOf line (j + 1)).toUTF8.size := (lt_size_textOf_succ hline).le
  rw [hmore]
  simp only [String.toUTF8_eq_toByteArray, String.toByteArray_append] at hsize ⊢
  exact (extract_append_of_le hsize _).symm

end Machine

/-- **Two calls come to the same** and have written the same bytes. -/
structure Outcome.SameAs {α : Type} (o o' : Outcome α) : Prop where
  result : o'.result = o.result
  machine : o'.machine = o.machine
  out : o'.sinks.out.taken = o.sinks.out.taken
  trace : o'.sinks.trace.taken = o.sinks.trace.taken

/-- **The end of a run whose output is not passed on:** what was a success is a failure of the
output. -/
def Outcome.unflushed (o : Outcome Halt) : Outcome Halt :=
  { o with result := o.result.bind fun _ => .error Sink.Error.flushFailed.fault }

namespace Machine

variable {m : Machine} {outLimit traceLimit : Nat} {flushFails : Bool} {j n : Nat}

/-- **Steps whose lines fit come to the same and write the same.** -/
theorem sameAs_stepped_limited (hfit : ∀ j < n, ¬m.Refused outLimit traceLimit j) :
    (m.stepped .unlimited n).SameAs (m.stepped (.limited outLimit traceLimit flushFails) n) := by
  obtain ⟨hout, htrace⟩ := m.taken_stepped_unlimited n
  obtain ⟨hout', htrace'⟩ := taken_limited_wrote outLimit traceLimit flushFails
    (m.textOf printLine n) (m.textOf traceLine n)
  rw [extract_textOf fun j hj => (not_refused_iff.1 (hfit j hj)).2] at hout'
  rw [extract_textOf fun j hj => (not_refused_iff.1 (hfit j hj)).1] at htrace'
  rw [stepped_limitedSinks hfit]
  exact ⟨rfl, rfl, hout'.trans hout.symm, htrace'.trans htrace.symm⟩

/-! ### The first line that is refused -/

/-- **The step that has its trace line refused** has not begun: it fails, the machine is the one in
front of it, and the trace holds the beginning of its text up to the last byte of its room. -/
theorem stepped_of_traceLine_refused (hj : IsLeast {j | m.Refused outLimit traceLimit j} j)
    (hline : ¬m.LineFits traceLine traceLimit j) :
    m.stepped (.limited outLimit traceLimit flushFails) (j + 1) =
      ⟨.error Sink.Error.closed.fault, m.stateAfter j,
        (Sinks.limited outLimit traceLimit flushFails).wrote (m.textOf printLine j)
          (m.textOf traceLine (j + 1))⟩ := by
  have hfit := not_refused_of_isLeast hj
  have hnot := (fits_line_iff (t := (Sinks.limited outLimit traceLimit flushFails).trace) rfl).not.2
    hline
  rw [stepped, stepped_limitedSinks hfit, step_of_untraced hnot, Sinks.wrote_wrote,
    String.append_empty, ← textOf_succ]

/-- **The step that has its printed line refused** is given up: it fails, the machine is the one in
front of it but for the cycle counter, and the output holds the beginning of its text up to the last
byte of its room. -/
theorem stepped_of_printLine_refused (hj : IsLeast {j | m.Refused outLimit traceLimit j} j)
    (htrace : m.LineFits traceLine traceLimit j) (hline : ¬m.LineFits printLine outLimit j) :
    m.stepped (.limited outLimit traceLimit flushFails) (j + 1) =
      ⟨.error Sink.Error.closed.fault, (m.stateAfter j).tick,
        (Sinks.limited outLimit traceLimit flushFails).wrote (m.textOf printLine (j + 1))
          (m.textOf traceLine (j + 1))⟩ := by
  have hfit := not_refused_of_isLeast hj
  have hfits := (fits_line_iff (t := (Sinks.limited outLimit traceLimit flushFails).trace) rfl).2
    htrace
  have hnot := (fits_line_iff (t := (Sinks.limited outLimit traceLimit flushFails).out) rfl).not.2
    hline
  rw [stepped, stepped_limitedSinks hfit, step_of_unprinted hfits hnot, Sinks.wrote_wrote,
    ← textOf_succ, ← textOf_succ]

/-- **What is left behind if step `j` is the first that has a line refused.**  It fails.  The sink
that has refused the line holds the beginning of what it would hold without a limit, also behind any
more steps, and the machine is the one in front of the step; but if it was the printed line, its
instruction is counted. -/
structure CutAt {α : Type} (m : Machine) (outLimit traceLimit j : Nat) (o : Outcome α) : Prop where
  result : o.result = .error (.output "sink closed")
  untraced : ¬m.LineFits traceLine traceLimit j →
    o.machine = m.stateAfter j ∧
      o.sinks.out.taken = (m.stepped .unlimited j).sinks.out.taken ∧
      ∀ n > j, o.sinks.trace.taken =
        (m.stepped .unlimited n).sinks.trace.taken.extract 0 traceLimit
  unprinted : m.LineFits traceLine traceLimit j →
    o.machine = { m.stateAfter j with cycles := (m.stateAfter j).cycles + 1 } ∧
      o.sinks.trace.taken = (m.stepped .unlimited (j + 1)).sinks.trace.taken ∧
      ∀ n > j, o.sinks.out.taken =
        (m.stepped .unlimited n).sinks.out.taken.extract 0 outLimit

/-- **The first step that has a line refused.** -/
theorem cutAt_of_isLeast (flushFails : Bool)
    (hj : IsLeast {j | m.Refused outLimit traceLimit j} j) :
    m.CutAt outLimit traceLimit j
      (m.stepped (.limited outLimit traceLimit flushFails) (j + 1)) := by
  have hfit := not_refused_of_isLeast hj
  by_cases htrace : m.LineFits traceLine traceLimit j
  · -- the trace line is taken, so it is the printed line that is refused
    have hline : ¬m.LineFits printLine outLimit j := hj.1.resolve_left (not_not_intro htrace)
    obtain ⟨hout, hlines⟩ := taken_limited_wrote outLimit traceLimit flushFails
      (m.textOf printLine (j + 1)) (m.textOf traceLine (j + 1))
    rw [stepped_of_printLine_refused hj htrace hline]
    refine ⟨rfl, absurd htrace, fun _ => ⟨rfl, ?_, fun n hn => ?_⟩⟩
    · rw [hlines, (m.taken_stepped_unlimited (j + 1)).2]
      refine extract_textOf fun i hi => ?_
      rcases Nat.lt_succ_iff_lt_or_eq.1 hi with hi | rfl
      · exact (not_refused_iff.1 (hfit i hi)).1
      · exact htrace
    · rw [hout, (m.taken_stepped_unlimited n).1, extract_textOf_of_lt hline hn]
  · -- the trace line is refused, and the step prints nothing
    obtain ⟨hout, hlines⟩ := taken_limited_wrote outLimit traceLimit flushFails
      (m.textOf printLine j) (m.textOf traceLine (j + 1))
    rw [stepped_of_traceLine_refused hj htrace]
    refine ⟨rfl, fun _ => ⟨rfl, ?_, fun n hn => ?_⟩, fun h => absurd h htrace⟩
    · rw [hout, (m.taken_stepped_unlimited j).1]
      exact extract_textOf fun i hi => (not_refused_iff.1 (hfit i hi)).2
    · rw [hlines, (m.taken_stepped_unlimited n).2, extract_textOf_of_lt htrace hn]

/-- Of `0` and the end of the line behind it, only `0` is taken if there is room for one byte. -/
example : (printsAndHalts.stepped (.limited 1 0 false) 1).sinks.out.taken.data = #[48] := by
  decide

/-! ### Runs -/

/-- Reasons to stop are the same as long as all lines fit. -/
theorem stops_limited_iff (hfit : ∀ j < n, ¬m.Refused outLimit traceLimit j) :
    m.Stops (.limited outLimit traceLimit flushFails) n ↔ m.Stops .unlimited n := by
  rw [Stops, Stops, stepped_limitedSinks hfit, stateAfter]

/-- **Step `j` is one that a run attempts** whose lines are taken: there is no reason to stop in
front of it. -/
def Attempted (m : Machine) (j : Nat) : Prop := ∀ i ≤ j, ¬m.Stops .unlimited i

theorem fits_of_attempted (hfit : ∀ j, m.Attempted j → ¬m.Refused outLimit traceLimit j)
    (hgo : ∀ i < n, ¬m.Stops .unlimited i) : ∀ j < n, ¬m.Refused outLimit traceLimit j :=
  fun j hj => hfit j fun i hi => hgo i (Nat.lt_of_le_of_lt hi hj)

theorem result_conclude (o : Outcome Progress) :
    (conclude o.ending).result = o.result.bind fun p =>
      if o.sinks.out.flushFails then .error Sink.Error.flushFailed.fault
      else .ok ⟨p.reason, o.machine.pc, o.machine.cycles⟩ := by
  obtain ⟨result, m, s⟩ := o
  cases result with
  | error e => rfl
  | ok p =>
      simp only [Outcome.ending, Except.map, conclude, Sink.flush, Except.bind]
      cases s.out.flushFails with
      | true => rfl
      | false => rfl

/-- Steps that come to the same end runs that come to the same, but for a flush that fails. -/
theorem sameAs_conclude {o o' : Outcome Progress} (h : o.SameAs o')
    (hflush : o.sinks.out.flushFails = false) (hflush' : o'.sinks.out.flushFails = flushFails) :
    (if flushFails then (conclude o.ending).unflushed else conclude o.ending).SameAs
      (conclude o'.ending) := by
  have hmachine : (conclude o'.ending).machine = (conclude o.ending).machine := by
    rw [machine_conclude, machine_conclude]
    exact h.machine
  have hout : (conclude o'.ending).sinks.out.taken = (conclude o.ending).sinks.out.taken := by
    rw [sinks_conclude, sinks_conclude]
    exact h.out
  have htrace : (conclude o'.ending).sinks.trace.taken = (conclude o.ending).sinks.trace.taken := by
    rw [sinks_conclude, sinks_conclude]
    exact h.trace
  have hresult := result_conclude o
  have hresult' := result_conclude o'
  rw [hflush] at hresult
  rw [hflush', h.result, h.machine] at hresult'
  cases flushFails with
  | false => exact ⟨hresult'.trans hresult.symm, hmachine, hout, htrace⟩
  | true =>
      refine ⟨hresult'.trans ?_, hmachine, hout, htrace⟩
      rw [if_pos rfl, Outcome.unflushed, hresult]
      cases o.result with
      | error e => rfl
      | ok p => rfl

/-- **A run of which no line is refused** comes to the same, but its output may not be passed
on. -/
theorem run_of_none_refused (hfit : ∀ j, m.Attempted j → ¬m.Refused outLimit traceLimit j) :
    Option.Rel (fun o o' => (if flushFails then Outcome.unflushed o else o).SameAs o')
      (m.run .unlimited) (m.run (.limited outLimit traceLimit flushFails)) := by
  rcases m.isLeast_or_not_stops .unlimited with ⟨k, hk, hle⟩ | hgo
  · -- both runs make the same steps, so the first reason to stop is the same
    have hfits := fits_of_attempted hfit fun i hi h => Nat.not_le.2 hi (hk.2 h)
    have hleast : IsLeast {k | m.Stops (.limited outLimit traceLimit flushFails) k} k := by
      refine ⟨(stops_limited_iff hfits).2 hk.1, fun i hi => Nat.not_lt.1 fun hlt => ?_⟩
      have hi' := (stops_limited_iff fun j hj => hfits j (hj.trans hlt)).1 hi
      exact Nat.not_le.2 hlt (hk.2 hi')
    rw [run_of_isLeast hk hle, run_of_isLeast hleast hle]
    refine .some (sameAs_conclude (sameAs_stepped_limited hfits) ?_ ?_)
    · rw [sinks_stepped_unlimited]
      exact Sink.flushFails_wrote _ _
    · rw [stepped_limitedSinks hfits]
      exact Sink.flushFails_wrote _ _
  · -- neither run comes to an end
    have hgo' : ∀ k ≤ m.budget, ¬m.Stops (.limited outLimit traceLimit flushFails) k := by
      intro k hk
      have hfits := fits_of_attempted hfit fun i (hi : i < k) => hgo i (hi.le.trans hk)
      exact (stops_limited_iff hfits).not.2 (hgo k hk)
    rw [run_of_not_stops hgo, run_of_not_stops hgo']
    exact .none

/-- **A run of which a line is refused** ends with the step that writes it. -/
theorem run_of_refused (hj : IsLeast {j | m.Refused outLimit traceLimit j} j)
    (hgo : m.Attempted j) (hrange : m.config.maxCycles = none → m.cycles + (j + 1) < UInt64.size) :
    ∃ o, m.run (.limited outLimit traceLimit flushFails) = some o ∧
      m.CutAt outLimit traceLimit j o := by
  have hfit := not_refused_of_isLeast hj
  have hcut := cutAt_of_isLeast flushFails hj
  -- the step that fails is a reason to stop, and there was none in front of it
  have hleast : IsLeast {k | m.Stops (.limited outLimit traceLimit flushFails) k} (j + 1) := by
    refine ⟨.inr (by rw [hcut.result]; simp), fun i hi => Nat.not_lt.1 fun hlt => ?_⟩
    have hle := Nat.le_of_lt_succ hlt
    exact hgo i hle ((stops_limited_iff fun l hl => hfit l (Nat.lt_of_lt_of_le hl hle)).1 hi)
  refine ⟨_, run_of_isLeast hleast (le_budget hleast hrange),
    ⟨result_conclude_of_error hcut.result, fun h => ?_, fun h => ?_⟩⟩
  · rw [machine_conclude, sinks_conclude]
    exact hcut.untraced h
  · rw [machine_conclude, sinks_conclude]
    exact hcut.unprinted h

/-- What a run has written in front of sinks without a limit. -/
theorem text_run_unlimited {o : Outcome Halt} (h : m.run .unlimited = some o) :
    ∃ k, IsLeast {k | m.Stops .unlimited k} k ∧ o.sinks.out.text = m.textOf printLine k ∧
      o.sinks.trace.text = m.textOf traceLine k := by
  obtain ⟨k, hk, -, rfl⟩ := exists_isLeast_of_run h
  rw [sinks_conclude]
  exact ⟨k, hk, m.text_stepped_unlimited k⟩

/-- **Sinks that fill up hold exactly the beginnings of the texts.**  In front of sinks without a
limit, the output of steps and of a run is the values that the successful prints show, in order and
each on a line of its own.  In front of limited ones, as long as all lines fit, steps have the same
results, come through the same states and write the same bytes.  The first step whose trace line or
printed line does not fit fails and leaves the machine as it is in front of it, with the instruction
counted if it was the printed line; the sink that refused it holds the beginning of its unlimited
text up to the limit.  A run that comes to that step ends there.  If every line fits of the steps
that a run attempts, the run comes to the same, except that a success becomes a failure if the
output cannot be flushed. -/
theorem limited_sinks_hold_beginnings (m : Machine) (outLimit traceLimit : Nat)
    (flushFails : Bool) :
    (∀ n, (m.stepped .unlimited n).sinks.out.text = m.textOf printLine n ∧
      (m.stepped .unlimited n).sinks.trace.text = m.textOf traceLine n) ∧
    (∀ o, m.run .unlimited = some o → ∃ k, IsLeast {k | m.Stops .unlimited k} k ∧
      o.sinks.out.text = m.textOf printLine k ∧ o.sinks.trace.text = m.textOf traceLine k) ∧
    (∀ j v, (m.stateAfter j).printed? = some v ↔
      (∃ i r, (m.stateAfter j).fetch = .ok i ∧ i.opcode = .prn ∧ i.first? = some r ∧
        (m.stateAfter j).registers.get r = .ok v) ∧
      (m.stepped .unlimited (j + 1)).result = .ok .running) ∧
    (∀ n, (∀ j < n, ¬m.Refused outLimit traceLimit j) →
      (m.stepped .unlimited n).SameAs (m.stepped (.limited outLimit traceLimit flushFails) n)) ∧
    (∀ j, IsLeast {j | m.Refused outLimit traceLimit j} j →
      m.CutAt outLimit traceLimit j
        (m.stepped (.limited outLimit traceLimit flushFails) (j + 1)) ∧
      (m.Attempted j → (m.config.maxCycles = none → m.cycles + (j + 1) < UInt64.size) →
        ∃ o, m.run (.limited outLimit traceLimit flushFails) = some o ∧
          m.CutAt outLimit traceLimit j o)) ∧
    ((∀ j, m.Attempted j → ¬m.Refused outLimit traceLimit j) →
      Option.Rel (fun o o' => (if flushFails then Outcome.unflushed o else o).SameAs o')
        (m.run .unlimited) (m.run (.limited outLimit traceLimit flushFails))) := by
  refine ⟨m.text_stepped_unlimited, fun o => text_run_unlimited, fun j v => ?_,
    fun n => sameAs_stepped_limited,
    fun j hj => ⟨cutAt_of_isLeast flushFails hj, run_of_refused hj⟩, run_of_none_refused⟩
  rw [printed?_eq_some_iff]
  refine ⟨fun h => ⟨h, ?_⟩, And.left⟩
  obtain ⟨i, r, hi, hop, hr, hget⟩ := h
  rw [stepped_unlimited_succ, action, hi]
  simp only [execute_of_executes (.prn hop hr hget)]
  rfl

end Machine

end ByteMachine
