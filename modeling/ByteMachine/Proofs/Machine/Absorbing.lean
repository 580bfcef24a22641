/-
**The end of a machine.**

A step that halts, or that fails for a reason of its own, leaves the machine where it was but for
the number of instructions.  That number is nothing that an instruction looks at or a trace line
shows, so the next step is the same step again: it has the same result, prints nothing and leaves
the machine in the same place.  Only memory written from outside leads on from there.  What steps
and runs are made instead can at most count up to the cycle limit, which a run then reports in place
of the end.

Main definitions:

* `ByteMachine.Machine.recounted` — a machine with another number of instructions counted;
* `ByteMachine.Machine.AtEnd` — the machine is at its end, with the result of every further step;
* `ByteMachine.IsFinal` — a halt, or a failure of which no sink is the cause.

Main results:

* `ByteMachine.Machine.AtEnd.step` — a step at the end;
* `ByteMachine.Machine.atEnd_of_step` — **a halt and a fault are ends**;
* `ByteMachine.Machine.AtEnd.after`, `AtEnd.afterAll` — no step and no run leads away from an end;
* `ByteMachine.Machine.halts_and_faults_are_absorbing` — **halts and faults are absorbing**.
-/

import ByteMachine.Proofs.Machine.Reachable
import ByteMachine.Proofs.Machine.Texts

set_option relaxedAutoImplicit false
set_option autoImplicit false

namespace ByteMachine

/-- **The result ends the machine:** it is a halt, or a failure of which no sink is the cause. -/
def IsFinal (r : Except Fault Progress) : Prop :=
  r = .ok .halted ∨ ∃ e, r = .error e ∧ ∀ reason, e ≠ .output reason

/-- The call makes steps; it does not write memory from outside. -/
def Call.MakesSteps : Call → Prop
  | .step _ | .run _ => True
  | .load _ | .loadProgram _ | .poke _ _ => False

namespace Machine

/-- **The machine with another number of instructions counted.** -/
def recounted (m : Machine) (n : Nat) : Machine := { m with cycles := n }

variable {m m' : Machine} {s t : Sinks} {i : Instruction} {e : Fault}
  {r : Except Fault Progress} {d n : Nat}

@[simp] theorem recounted_recounted (m : Machine) (n k : Nat) :
    (m.recounted n).recounted k = m.recounted k := rfl

@[simp] theorem recounted_cycles (m : Machine) : m.recounted m.cycles = m := rfl

@[simp] theorem cycles_recounted (m : Machine) (n : Nat) : (m.recounted n).cycles = n := rfl

@[simp] theorem fetch_recounted (m : Machine) (n : Nat) : (m.recounted n).fetch = m.fetch := rfl

/-- A trace line does not show the number of instructions. -/
@[simp] theorem traceLine_recounted (m : Machine) (n : Nat) :
    (m.recounted n).traceLine = m.traceLine := rfl

/-- An instruction that fails does so with every number of instructions. -/
theorem faults_recounted (he : m.Faults i e) (n : Nat) : (m.recounted n).Faults i e := by
  cases he with
  | first hop hr => exact .first hop hr
  | second hop hr hv => exact .second hop hr hv
  | register hop hr hv hge => exact .register hop hr hv hge
  | secondRegister hop ha hb hlt hge => exact .secondRegister hop ha hb hlt hge
  | returnAddress hop hr hlt hnext => exact .returnAddress hop hr hlt hnext
  | overflow hop hr hlt hsp => exact .overflow hop hr hlt hsp
  | underflow hop hsp => exact .underflow hop hsp
  | arithmetic hop ha hb hx hy hv => exact .arithmetic hop ha hb hx hy hv

/-! ### The end of a machine -/

/-- **The machine is at its end:** its next step has this result and counts so many instructions,
and changes nothing else. -/
inductive AtEnd (m : Machine) : Except Fault Progress → Nat → Prop
  | halts {i : Instruction} (hi : m.fetch = .ok i) (hop : i.opcode = .hlt) :
      AtEnd m (.ok .halted) 1
  | unfetched {e : Fault} (hi : m.fetch = .error e) : AtEnd m (.error e) 0
  | fails {i : Instruction} {e : Fault} (hi : m.fetch = .ok i) (he : m.Faults i e) :
      AtEnd m (.error e) 1

namespace AtEnd

/-- An end does not depend on the number of instructions. -/
theorem recounted (h : m.AtEnd r d) (n : Nat) : (m.recounted n).AtEnd r d := by
  cases h with
  | halts hi hop => exact .halts hi hop
  | unfetched hi => exact .unfetched hi
  | fails hi he => exact .fails hi (faults_recounted he n)

theorem le_one (h : m.AtEnd r d) : d ≤ 1 := by
  cases h with
  | unfetched => exact Nat.zero_le 1
  | halts | fails => exact Nat.le_refl 1

/-- A step at the end does not go on. -/
theorem result_ne (h : m.AtEnd r d) : r ≠ .ok .running := by
  cases h with
  | _ => exact nofun

/-- A step at the end prints nothing. -/
theorem printLine_eq (h : m.AtEnd r d) : m.printLine = "" := by
  have hnone : m.printed? = none := by
    cases h with
    | halts hi hop => exact printed?_of_executes hi (.hlt hop)
    | unfetched hi => exact printed?_of_fetch_eq_error hi
    | fails hi he => exact printed?_of_faults hi he
  rw [printLine, hnone]
  rfl

theorem action_eq (h : m.AtEnd r d) : m.action = (r, m.recounted (m.cycles + d)) := by
  unfold action
  cases h with
  | halts hi hop =>
      simp only [hi, execute_of_executes (.hlt hop)]
      rfl
  | unfetched hi =>
      simp only [hi]
      rfl
  | fails hi he =>
      simp only [hi, execute_of_faults he]
      rfl

/-- **A step at the end** has the result of the end, and writes only its trace line. -/
theorem step (h : m.AtEnd r d) (ht : t.trace.Fits m.traceLine) :
    m.step t = ⟨r, m.recounted (m.cycles + d), t.wrote "" m.traceLine⟩ := by
  have hp : t.out.Fits m.printLine := h.printLine_eq ▸ t.out.fits_empty
  rw [step_of_fits ht hp, h.action_eq, h.printLine_eq]

/-- Whatever the sinks are, a step at the end changes at most the number of instructions. -/
theorem machine_step (h : m.AtEnd r d) (t : Sinks) :
    ∃ n, m.cycles ≤ n ∧ (m.step t).machine = m.recounted n := by
  by_cases ht : t.trace.Fits m.traceLine
  · rw [h.step ht]
    exact ⟨m.cycles + d, Nat.le_add_right _ _, rfl⟩
  · rw [step_of_untraced ht]
    exact ⟨m.cycles, Nat.le_refl _, rfl⟩

/-- **Steps one after the other** at the end all have its result. -/
theorem stepped (h : m.AtEnd r d) (ht : s.trace.room = none) (k : Nat) :
    m.stepped s (k + 1) = ⟨r, m.recounted (m.cycles + (k + 1) * d),
      s.wrote "" (String.join (List.replicate (k + 1) m.traceLine))⟩ := by
  induction k with
  | zero =>
      rw [Machine.stepped, Machine.stepped, h.step (Sink.fits_of_unlimited ht _)]
      simp
  | succ k ih =>
      have hroom : (s.wrote "" (String.join (List.replicate (k + 1) m.traceLine))).trace.room =
          none := Sink.room_wrote_of_unlimited ht _
      have hline : String.join (List.replicate (k + 1 + 1) m.traceLine) =
          String.join (List.replicate (k + 1) m.traceLine) ++ m.traceLine := by
        simp [List.replicate_succ' (n := k + 1)]
      rw [Machine.stepped, ih, (h.recounted _).step (Sink.fits_of_unlimited hroom _),
        Sinks.wrote_wrote, traceLine_recounted, ← hline, cycles_recounted, recounted_recounted,
        Nat.add_assoc, ← Nat.succ_mul]
      rfl

end AtEnd

/-! ### Runs at the end -/

/-- Where the cycle limit is reached, a run makes no step. -/
theorem run_of_exhausted (hex : m.exhausted = true) (hflush : t.out.flush = .ok ()) :
    m.run t = some ⟨.ok ⟨.cycleLimit, m.pc, m.cycles⟩, m, t⟩ := by
  rw [run, runFor_of_exhausted hex]
  simp only [conclude, hflush]

/-- As long as the cycle limit is ahead, a run is followed for a step. -/
theorem exists_budget_eq (hex : m.exhausted = false) (hc : m.cycles < UInt64.size) :
    ∃ k, m.budget = k + 1 := by
  refine Nat.exists_eq_add_one.2 ?_
  unfold budget
  unfold exhausted at hex
  cases hlimit : m.config.maxCycles with
  | none =>
      change 0 < UInt64.size - m.cycles
      omega
  | some limit =>
      rw [hlimit] at hex
      have hlt : ¬limit.toNat ≤ m.cycles := of_decide_eq_false hex
      change 0 < limit.toNat - m.cycles
      omega

/-- **A run at the end** makes one step, and ends as that step does. -/
theorem AtEnd.run (h : m.AtEnd r d) (hex : m.exhausted = false) (hc : m.cycles < UInt64.size)
    (ht : t.trace.Fits m.traceLine) (hflush : t.out.flush = .ok ()) :
    m.run t = some ⟨r.map fun _ => ⟨.halted, m.pc, m.cycles + d⟩,
      m.recounted (m.cycles + d), t.wrote "" m.traceLine⟩ := by
  obtain ⟨k, hk⟩ := exists_budget_eq hex hc
  have hstep := h.step ht
  have hne : (m.step t).result ≠ .ok .running := hstep ▸ h.result_ne
  have hflush' : (t.wrote "" m.traceLine).out.flush = .ok () :=
    (Sink.flush_wrote t.out "").trans hflush
  have hreason : (r.map fun p => (⟨p.reason, m.pc, m.cycles + d⟩ : Halt)) =
      r.map fun _ => ⟨.halted, m.pc, m.cycles + d⟩ := by
    cases h with
    | _ => rfl
  rw [Machine.run, hk, runFor_succ_of_ne hex hne, hstep, ← hreason]
  exact congrArg some (conclude_ending hflush')

/-! ### What leads to an end -/

/-- A step whose trace line is refused does not come to an end. -/
theorem fits_of_isFinal (hr : (m.step s).result = r) (hfinal : IsFinal r) :
    s.trace.Fits m.traceLine := by
  by_contra ht
  rw [step_of_untraced ht] at hr
  obtain rfl := hr
  rcases hfinal with hhalt | ⟨e, he, hsink⟩
  · cases hhalt
  · cases he
    exact hsink _ rfl

/-- **A halt and a fault are ends:** the step that has come to them changes nothing but the number
of instructions, and so will the next one. -/
theorem atEnd_of_step (hr : (m.step s).result = r) (hfinal : IsFinal r) : ∃ d, m.AtEnd r d := by
  have hstep := m.steps_step s
  generalize m.step s = o at hr hstep
  cases hstep with
  | untraced | unprinted =>
      -- these are failures of a sink
      obtain rfl := hr
      rcases hfinal with hhalt | ⟨e, he, hsink⟩
      · cases hhalt
      · cases he
        exact absurd rfl (hsink _)
  | unfetched ht hi =>
      obtain rfl := hr
      exact ⟨0, .unfetched hi⟩
  | failed ht hi he =>
      obtain rfl := hr
      exact ⟨1, .fails hi he⟩
  | @done t u i f ht hi hf hp =>
      obtain rfl := hr
      rcases hfinal with hhalt | ⟨e, he, -⟩
      · cases hf with
        | hlt hop => exact ⟨1, .halts hi hop⟩
        | _ => cases hhalt
      · cases he

/-! ### What leads away from an end -/

/-- No step and no run leads away from an end. -/
theorem AtEnd.after (h : m.AtEnd r d) {c : Call} (hc : c.MakesSteps) (hm' : m.after c = some m') :
    ∃ n, m.cycles ≤ n ∧ m' = m.recounted n := by
  cases c with
  | load | loadProgram | poke => exact hc.elim
  | step t =>
      obtain ⟨n, hn, hm⟩ := h.machine_step t
      obtain rfl := Option.some.inj hm'
      exact ⟨n, hn, hm⟩
  | run t =>
      obtain ⟨o, hrun, rfl⟩ := Option.map_eq_some_iff.1 hm'
      have hstep : ∀ (m₁ : Machine) (s : Sinks), (∃ n, m.cycles ≤ n ∧ m₁ = m.recounted n) →
          ∃ n, m.cycles ≤ n ∧ (m₁.step s).machine = m.recounted n := by
        rintro _ s ⟨n, hn, rfl⟩
        obtain ⟨k, hk, hm⟩ := (h.recounted n).machine_step s
        exact ⟨k, hn.trans hk, hm⟩
      exact run_induction (P := fun m₁ => ∃ n, m.cycles ≤ n ∧ m₁ = m.recounted n) hstep hrun
        ⟨m.cycles, Nat.le_refl _, rfl⟩

/-- **Nor does any sequence of them.** -/
theorem AtEnd.afterAll (h : m.AtEnd r d) {cs : List Call} (hcs : ∀ c ∈ cs, c.MakesSteps)
    (hm' : m.afterAll cs = some m') : ∃ n, m.cycles ≤ n ∧ m' = m.recounted n := by
  induction cs generalizing m with
  | nil =>
      obtain rfl := Option.some.inj hm'
      exact ⟨m.cycles, Nat.le_refl _, rfl⟩
  | cons c cs ih =>
      obtain ⟨hc, hcs⟩ := List.forall_mem_cons.1 hcs
      obtain ⟨m₁, hm₁, hrest⟩ := Option.bind_eq_some_iff.1 hm'
      obtain ⟨n, hn, rfl⟩ := h.after hc hm₁
      obtain ⟨k, hk, rfl⟩ := ih (h.recounted n) hcs hrest
      exact ⟨k, hn.trans hk, rfl⟩

/-- **Halts and faults are absorbing.**  A step halts, or fails for a reason other than a sink.  It
prints nothing, and leaves the machine as it was but for the number of instructions, to which it has
added one or none.  Steps made one after the other from there all have the same result and each add
the same number, and write nothing but the same trace line.  More generally, whatever steps and runs
are made, in front of whatever sinks, only the number of instructions changes.  In front of sinks
that take the trace line and can be flushed, the next step then has the same result again; and the
next run ends like this step, with the program counter at the same place, or has reached the cycle
limit, there too. -/
theorem halts_and_faults_are_absorbing (hr : (m.step s).result = r) (hfinal : IsFinal r) :
    ∃ d ≤ 1, (m.step s).machine = m.recounted (m.cycles + d) ∧ (m.step s).sinks.out = s.out ∧
      (∀ k, s.trace.room = none →
        m.stepped s (k + 1) = ⟨r, m.recounted (m.cycles + (k + 1) * d),
          ⟨s.out, s.trace.wrote (String.join (List.replicate (k + 1) m.traceLine))⟩⟩) ∧
      ∀ cs m', (∀ c ∈ cs, c.MakesSteps) → (m.step s).machine.afterAll cs = some m' →
        ∃ n, m.cycles + d ≤ n ∧ m' = m.recounted n ∧
          ∀ t : Sinks, t.trace.Fits m.traceLine →
            m'.step t =
              ⟨r, m.recounted (n + d), ⟨t.out, t.trace.wrote m.traceLine⟩⟩ ∧
            (t.out.flush = .ok () →
              (m'.exhausted = true → m'.run t = some ⟨.ok ⟨.cycleLimit, m.pc, n⟩, m', t⟩) ∧
              (m'.exhausted = false → n < UInt64.size →
                m'.run t = some ⟨r.map fun _ => ⟨.halted, m.pc, n + d⟩, m.recounted (n + d),
                  ⟨t.out, t.trace.wrote m.traceLine⟩⟩)) := by
  obtain ⟨d, h⟩ := atEnd_of_step hr hfinal
  have hfirst := h.step (fits_of_isFinal hr hfinal)
  have hwrote : ∀ (t : Sinks) (u : String), t.wrote "" u = ⟨t.out, t.trace.wrote u⟩ :=
    fun t u => congrArg (Sinks.mk · _) t.out.wrote_empty
  refine ⟨d, h.le_one, by rw [hfirst], by rw [hfirst, hwrote], fun k hroom => ?_,
    fun cs m' hcs hm' => ?_⟩
  · rw [h.stepped hroom k, hwrote]
  · rw [hfirst] at hm'
    obtain ⟨n, hn, rfl⟩ := (h.recounted _).afterAll hcs hm'
    have hagain := h.recounted n
    refine ⟨n, hn, rfl, fun t ht => ⟨?_, fun hflush => ⟨fun hex => ?_, fun hex hc => ?_⟩⟩⟩
    · rw [← hwrote]
      exact hagain.step ht
    · exact run_of_exhausted hex hflush
    · rw [← hwrote]
      exact hagain.run hex hc ht hflush

/-- A traced machine that returns although nothing has been called, and has three cycles for it. -/
def returnsFromNothing : Machine :=
  { fresh { Config.default with maxCycles := some 3, trace := true } with
    memory := Memory.empty.put 0 0x11 }

/-- It fails again and again, and each failure is counted, until the cycle limit is reached. -/
theorem fails_up_to_cycle_limit :
    (returnsFromNothing.step .unlimited).result = .error (.stackUnderflow 0xF4) ∧
      IsFinal (.error (.stackUnderflow 0xF4)) ∧
      ∃ m', (returnsFromNothing.step .unlimited).machine.afterAll
          [.run .unlimited, .step .unlimited] = some m' ∧ m'.cycles = 3 ∧
        (m'.step .unlimited).result = .error (.stackUnderflow 0xF4) ∧
        m'.run .unlimited = some ⟨.ok ⟨.cycleLimit, 0, 3⟩, m', .unlimited⟩ := by
  have hr : (returnsFromNothing.step .unlimited).result = .error (.stackUnderflow 0xF4) := rfl
  have hfinal : IsFinal (.error (.stackUnderflow 0xF4)) := .inr ⟨_, rfl, nofun⟩
  obtain ⟨d, -, -, -, -, hlater⟩ := halts_and_faults_are_absorbing hr hfinal
  obtain ⟨n, -, hm', hnext⟩ :=
    hlater [.run .unlimited, .step .unlimited] _ (by simp [Call.MakesSteps]) rfl
  obtain ⟨hstep, hrun⟩ := hnext .unlimited (Sink.fits_of_unlimited rfl _)
  obtain ⟨hlimit, -⟩ := hrun rfl
  obtain rfl : n = 3 := congrArg cycles hm'.symm
  exact ⟨hr, hfinal, _, rfl, rfl, congrArg Outcome.result hstep, hlimit rfl⟩

end Machine

end ByteMachine
