/-
**The reporting options only report.**

Three switches ask for more to be said about a run, or for another exit code: the final state may be
shown, a halt may be told by the exit code, and every step may be traced.  None of them is looked at
before a machine has been started, except that the configuration of the machine says whether it
traces; and a machine that traces does what it does without.  So the response with one of these
switches is the one without it, with what the switch asks for put in.

Main definitions:

* `ByteMachine.Job.AddsState`, `Job.AddsTrace` — what the switches for the state and the trace add.

Main results:

* `ByteMachine.Machine.exists_run_tracing` — a run from the command line with its trace;
* `ByteMachine.Job.prepare_of_map` — **a change of the configuration** from the options to the job;
* `ByteMachine.Job.rel_json`, `rel_legacyExit`, `rel_trace` — what each of the switches changes;
* `ByteMachine.reporting_options_only_report` — **the reporting options do not change the run**.
-/

import ByteMachine.Proofs.CommandLine.Running
import ByteMachine.Proofs.CommandLine.Switches
import ByteMachine.Proofs.Machine.Tracing

set_option relaxedAutoImplicit false
set_option autoImplicit false

namespace ByteMachine

/-! ### A run with its trace -/

namespace Machine

variable {m : Machine} {o : Outcome Halt} {k : Nat}

/-- Steps with the trace turned on are those without it. -/
theorem exists_stepped_tracing (hm : m.config.trace = false) (k : Nat) :
    ∃ on : Sink, on.room = none ∧
      (m.tracing true).stepped .unlimited k = (m.stepped .unlimited k).traced on := by
  induction k with
  | zero => exact ⟨.unlimited, rfl, rfl⟩
  | succ k ih =>
      obtain ⟨on, hroom, hk⟩ := ih
      have hnext : (m.stepped .unlimited k).machine.config.trace = false := by
        rw [config_stepped]
        exact hm
      have hstep := step_tracing (m.stepped .unlimited k).sinks.out
        (m.stepped .unlimited k).sinks.trace hnext hroom
      exact ⟨_, Sink.room_wrote_of_unlimited hroom _, by rw [stepped, hk]; exact hstep⟩

theorem stateAfter_tracing (hm : m.config.trace = false) (k : Nat) :
    (m.tracing true).stateAfter k = (m.stateAfter k).tracing true := by
  obtain ⟨on, -, hk⟩ := exists_stepped_tracing hm k
  rw [stateAfter, hk]
  rfl

theorem stops_tracing_iff (hm : m.config.trace = false) :
    (m.tracing true).Stops .unlimited k ↔ m.Stops .unlimited k := by
  obtain ⟨on, -, hk⟩ := exists_stepped_tracing hm k
  have hex : ((m.stepped .unlimited k).machine.tracing true).exhausted =
      (m.stepped .unlimited k).machine.exhausted := exhausted_reconfigured fun _ => rfl
  unfold Stops
  rw [hk]
  change ((m.stepped .unlimited k).machine.tracing true).exhausted = true ∨ _ ↔ _
  rw [hex]
  rfl

/-- What a trace shows of a machine does not depend on whether it traces. -/
theorem traceLines_tracing (ms : List Machine) :
    traceLines (ms.map (·.tracing true)) = traceLines ms := by
  rw [traceLines, traceLines, List.map_map]
  rfl

/-- **A run from the command line with its trace** ends as it does without; the trace has a line for
every step that is attempted. -/
theorem exists_run_tracing (hm : m.config.trace = false) :
    ∃ on : Sink,
      (m.tracing true).run .unlimited = (m.run .unlimited).map (·.traced on) ∧
      ∀ o k, m.run .unlimited = some o → IsLeast {k | m.Stops .unlimited k} k →
        on.text = traceLines ((List.range k).map m.stateAfter) := by
  have hroom : Sink.unlimited.room = none := rfl
  refine ⟨_, run_tracing .unlimited .unlimited hm hroom, fun o k h hk => ?_⟩
  obtain ⟨k', hk', hle, -⟩ := exists_isLeast_of_run h
  obtain rfl : k = k' := Nat.le_antisymm (hk.2 hk'.1) (hk'.2 hk.1)
  have hleast : IsLeast {k | (m.tracing true).Stops .unlimited k} k := by
    simpa only [stops_tracing_iff hm] using hk
  have hbudget : (m.tracing true).budget = m.budget := budget_reconfigured fun _ => rfl
  have hstates : (List.range k).map (fun j => ((m.tracing true).stepped .unlimited j).machine) =
      ((List.range k).map m.stateAfter).map (·.tracing true) := by
    rw [List.map_map]
    exact List.map_congr_left fun j _ => stateAfter_tracing hm j
  have hlines : traceLines (attemptsFor (m.tracing true).budget (m.tracing true) .unlimited) =
      traceLines ((List.range k).map m.stateAfter) := by
    rw [attemptsFor_of_isLeast hleast (hbudget ▸ hle), hstates, traceLines_tracing]
  rw [← hlines]
  exact Sink.text_of_taken ((Sink.taken_wrote_of_fits (Sink.fits_of_unlimited hroom _)).trans
    ByteArray.empty_append)

/-- Turning the trace on changes nothing where it is on. -/
theorem tracing_of_traced (hm : m.config.trace = true) : m.tracing true = m := by
  obtain ⟨⟨top, limit, maxCycles, overflow, jumpMode, trace⟩, memory, registers, flags, pc, base,
    cycles⟩ := m
  cases hm
  rfl

/-- Loading a program does not ask for the configuration. -/
theorem loadProgram_reconfigured (m : Machine) (f : Config → Config) (program : Program) :
    (m.reconfigured f).loadProgram program =
      (m.loadProgram program).map (·.reconfigured f) := by
  unfold loadProgram load
  rw [show (m.reconfigured f).memory = m.memory from rfl]
  cases m.memory.load program.bytes <;> rfl

end Machine

/-! ### Starting the run -/

/-- The trace is asked for in the configuration, and is no reason to reject it. -/
theorem Options.effectiveConfig_trace (o : Options) (files : Files) :
    (Switch.trace.turnOn o).effectiveConfig files =
      (o.effectiveConfig files).map (.tracing true) := by
  unfold effectiveConfig
  rw [show (Switch.trace.turnOn o).fileConfig files = o.fileConfig files from rfl]
  cases o.fileConfig files with
  | error e => rfl
  | ok c =>
      have hoptions : c.withOptions (Switch.trace.turnOn o) = (c.withOptions o).tracing true := rfl
      have hvalid : ((c.withOptions o).tracing true).validate = (c.withOptions o).validate := rfl
      simp only [hoptions, hvalid]
      cases (c.withOptions o).validate <;> rfl

variable {files : Files} {p : Palette} {file : String} {o o' : Options} {r r' : Response}

namespace Job

/-- **A change of the configuration** that a new machine bears is made to the machine that runs. -/
theorem prepare_of_map {f : Config → Config}
    (hconfig : o'.effectiveConfig files = (o.effectiveConfig files).map f)
    (hfresh : ∀ c, Machine.fresh (f c) = (Machine.fresh c).reconfigured f) :
    prepare files p o' file = (prepare files p o file).map fun job =>
      { job with machine := job.machine.reconfigured f, options := o' } := by
  unfold prepare
  cases hc : o.effectiveConfig files with
  | error e =>
      rw [hconfig, hc]
      rfl
  | ok c =>
      rw [hc] at hconfig
      rw [hconfig]
      simp only [Except.map]
      cases Program.load files file with
      | error e => rfl
      | ok program =>
          simp only [ofConfig_of_effectiveConfig hc, ofConfig_of_effectiveConfig hconfig, hfresh,
            Machine.loadProgram_reconfigured]
          cases (Machine.fresh c).loadProgram program <;> rfl

/-- Options that do not change the configuration leave the machine as it is. -/
theorem prepare_of_effectiveConfig_eq (files : Files) (p : Palette) (file : String)
    (hconfig : o'.effectiveConfig files = o.effectiveConfig files) :
    prepare files p o' file = (prepare files p o file).map fun job =>
      { job with options := o' } := by
  have hmap : o'.effectiveConfig files = (o.effectiveConfig files).map id := by
    rw [hconfig]
    cases o.effectiveConfig files <;> rfl
  exact prepare_of_map hmap fun _ => rfl

theorem prepare_trace (files : Files) (p : Palette) (o : Options) (file : String) :
    prepare files p (Switch.trace.turnOn o) file = (prepare files p o file).map fun job =>
      { job with machine := job.machine.tracing true, options := Switch.trace.turnOn o } :=
  prepare_of_map (o.effectiveConfig_trace files) fun _ => rfl

theorem options_of_prepare {job : Job} (h : prepare files p o file = .ok job) :
    job.options = o := by
  unfold prepare at h
  repeat' split at h
  all_goals cases h
  rfl

/-- Where no machine can be started, that is not what the exit code of success says. -/
theorem exit_ne_zero_of_prepare (h : prepare files p o file = .error r) : r.exit ≠ 0 := by
  unfold prepare at h
  repeat' split at h
  all_goals cases h
  · exact Nat.one_ne_zero
  · rename_i e _
    cases e <;> exact nofun
  · exact Nat.one_ne_zero
  · exact Nat.one_ne_zero

/-! ### What the switches add -/

/-- **What the switch for the final state adds:** nothing where no machine is started or the state
is shown anyway; or else what shows the machine at the end of its run, behind all that is
printed. -/
inductive AddsState : Except Response Job → Response → Response → Prop
  | unstarted (r : Response) : AddsState (.error r) r r
  | shown {job : Job} (hjson : job.options.json = true) (r : Response) : AddsState (.ok job) r r
  | adds {job : Job} {o : Outcome Halt} {s : Snapshot} (hjson : job.options.json = false)
      (hrun : job.machine.run .unlimited = some o) (hshows : s.Shows o.machine) (r : Response) :
      AddsState (.ok job) r { r with stdout := r.stdout ++ (s.toJson ++ "\n") }

/-- **What the switch for the trace adds:** nothing where no machine is started or it traces anyway;
or else one line for each step that is attempted, in front of what is said about the end. -/
inductive AddsTrace (p : Palette) : Except Response Job → Response → Response → Prop
  | unstarted (r : Response) : AddsTrace p (.error r) r r
  | traced {job : Job} (htrace : job.machine.config.trace = true) (r : Response) :
      AddsTrace p (.ok job) r r
  | adds {job : Job} {o : Outcome Halt} {k : Nat} (htrace : job.machine.config.trace = false)
      (hrun : job.machine.run .unlimited = some o)
      (hk : IsLeast {k | job.machine.Stops .unlimited k} k) (r : Response)
      (hsaid : r.stderr = (job.verdict p o.machine o.result).2) :
      AddsTrace p (.ok job) r
        { r with stderr :=
            Machine.traceLines ((List.range k).map job.machine.stateAfter) ++ r.stderr }

variable {job job' : Job} {out : Outcome Halt}

/-- The response where a run may have been started. -/
def answer (p : Palette) : Except Response Job → Option Response
  | .error r => some r
  | .ok job => job.response p

/-- Runs of one machine are compared by what is said about their end. -/
theorem rel_response_of_report {R : Response → Response → Prop}
    (hmachine : job'.machine = job.machine)
    (h : ∀ out, job.machine.run .unlimited = some out → R (job.report p out) (job'.report p out)) :
    Option.Rel R (job.response p) (job'.response p) := by
  unfold response
  rw [hmachine]
  cases hrun : job.machine.run .unlimited with
  | none => exact .none
  | some out => exact .some (h out hrun)

theorem report_json (hjson : job.options.json = false) :
    { job with options := Switch.json.turnOn job.options }.report p out =
      { job.report p out with
        stdout := (job.report p out).stdout ++ (out.machine.snapshot.toJson ++ "\n") } := by
  simp only [report, stateText, hjson, Switch.turnOn, Bool.false_eq_true, if_false, if_true,
    String.append_empty]
  rfl

/-- A halt is all that the exit code of success says. -/
theorem report_legacyExit (job : Job) (p : Palette) (out : Outcome Halt) :
    { job with options := Switch.legacyExit.turnOn job.options }.report p out =
      { job.report p out with
        exit := if (job.report p out).exit = 0 then 1 else (job.report p out).exit } := by
  cases hresult : out.result with
  | error e =>
      simp only [report, verdict, hresult]
      rfl
  | ok halt =>
      cases hreason : halt.reason with
      | cycleLimit =>
          simp only [report, verdict, hresult, hreason]
          rfl
      | halted =>
          simp only [report, verdict, hresult, hreason, exitCode]
          cases hlegacy : job.options.legacyExit
          · rfl
          · rfl

/-- **The switch for the final state.** -/
theorem rel_json (files : Files) (p : Palette) (o : Options) (file : String) :
    Option.Rel (AddsState (prepare files p o file)) (answer p (prepare files p o file))
      (answer p (prepare files p (Switch.json.turnOn o) file)) := by
  have hconfig : (Switch.json.turnOn o).effectiveConfig files = o.effectiveConfig files := rfl
  rw [prepare_of_effectiveConfig_eq files p file hconfig]
  cases hprepare : prepare files p o file with
  | error r => exact .some (.unstarted r)
  | ok job =>
      obtain rfl := options_of_prepare hprepare
      refine rel_response_of_report rfl fun out hrun => ?_
      cases hjson : job.options.json with
      | true =>
          rw [Options.turnOn_of_given (s := .json) hjson]
          exact .shown hjson _
      | false =>
          rw [report_json hjson]
          exact .adds hjson hrun out.machine.snapshot_shows _

/-- **The switch for the exit code of a halt.** -/
theorem rel_legacyExit (files : Files) (p : Palette) (o : Options) (file : String) :
    Option.Rel (fun r r' => r' = { r with exit := if r.exit = 0 then 1 else r.exit })
      (answer p (prepare files p o file))
      (answer p (prepare files p (Switch.legacyExit.turnOn o) file)) := by
  have hconfig : (Switch.legacyExit.turnOn o).effectiveConfig files = o.effectiveConfig files :=
    rfl
  rw [prepare_of_effectiveConfig_eq files p file hconfig]
  cases hprepare : prepare files p o file with
  | error r =>
      refine .some ?_
      rw [if_neg (exit_ne_zero_of_prepare hprepare)]
  | ok job =>
      obtain rfl := options_of_prepare hprepare
      exact rel_response_of_report rfl fun out _ => report_legacyExit job p out

/-- Where nothing has been traced, nothing but what is said about the end is on standard error. -/
theorem stderr_report_of_untraced (htrace : job.machine.config.trace = false)
    (hrun : job.machine.run .unlimited = some out) :
    (job.report p out).stderr = (job.verdict p out.machine out.result).2 := by
  have hempty : out.sinks.trace.text = "" := by
    rw [Machine.trace_run_of_untraced htrace hrun]
    exact Sink.text_of_taken rfl
  simp only [report, hempty, String.empty_append]

/-- The lines of the trace stand in front of what is said about the end. -/
theorem report_trace (htrace : job.machine.config.trace = false)
    (hrun : job.machine.run .unlimited = some out) (on : Sink) :
    { job with
        machine := job.machine.tracing true
        options := Switch.trace.turnOn job.options }.report p (out.traced on) =
      { job.report p out with stderr := on.text ++ (job.report p out).stderr } := by
  rw [stderr_report_of_untraced htrace hrun]
  rfl

/-- **The switch for the trace.** -/
theorem rel_trace (files : Files) (p : Palette) (o : Options) (file : String) :
    Option.Rel (AddsTrace p (prepare files p o file)) (answer p (prepare files p o file))
      (answer p (prepare files p (Switch.trace.turnOn o) file)) := by
  rw [prepare_trace]
  cases hprepare : prepare files p o file with
  | error r => exact .some (.unstarted r)
  | ok job =>
      obtain rfl := options_of_prepare hprepare
      cases htrace : job.machine.config.trace with
      | true =>
          refine rel_response_of_report (Machine.tracing_of_traced htrace) fun out _ => ?_
          exact .traced htrace _
      | false =>
          obtain ⟨on, htraced, hlines⟩ := Machine.exists_run_tracing htrace
          change Option.Rel _ ((job.machine.run .unlimited).map _)
            (((job.machine.tracing true).run .unlimited).map _)
          rw [htraced, Option.map_map]
          cases hrun : job.machine.run .unlimited with
          | none => exact .none
          | some out =>
              obtain ⟨k, hk, -, -⟩ := Machine.exists_isLeast_of_run hrun
              refine .some ?_
              rw [Function.comp_apply, report_trace htrace hrun, hlines out k hrun hk]
              exact .adds htrace hrun hk _ (stderr_report_of_untraced htrace hrun)

end Job

/-! ### Whole command lines -/

theorem respond_eq_answer (files : Files) (p : Palette) {arguments : List String} {i : Invocation}
    (harguments : Invocation.ofArguments arguments = .ok i) (htask : i.task = .run file) :
    respond files p arguments = Job.answer p (Job.prepare files p i.options file) := by
  rw [respond_of_run files p harguments htask]
  rfl

/-- **The reporting options do not change the run.**  A command line runs a file, and goes on doing
so with one of the switches put in somewhere.  It has a response with the switch exactly if it has
one without.  The switch for the final state adds this state to standard output, behind everything
else, once a machine has been started, however its run has ended: program counter, flags, stack
pointer, every register and the number of instructions are those of the machine then.  The switch
for the exit code of a halt turns exit code zero into one.  The switch for the trace adds a line for
every step that is attempted to standard error, in front of everything else, once a machine has been
started that does not trace anyway.  Nothing else is changed.  A switch that is not given can always
be put in. -/
theorem reporting_options_only_report (files : Files) (p : Palette) {x y : List String}
    {i : Invocation} {file : String} (h : Invocation.ofArguments (x ++ y) = .ok i)
    (htask : i.task = .run file) :
    (∀ i', Invocation.ofArguments (x ++ Switch.json.label :: y) = .ok i' →
      Option.Rel (Job.AddsState (Job.prepare files p i.options file)) (respond files p (x ++ y))
        (respond files p (x ++ Switch.json.label :: y))) ∧
    (∀ i', Invocation.ofArguments (x ++ Switch.legacyExit.label :: y) = .ok i' →
      Option.Rel (fun r r' => r' = { r with exit := if r.exit = 0 then 1 else r.exit })
        (respond files p (x ++ y)) (respond files p (x ++ Switch.legacyExit.label :: y))) ∧
    (∀ i', Invocation.ofArguments (x ++ Switch.trace.label :: y) = .ok i' →
      Option.Rel (Job.AddsTrace p (Job.prepare files p i.options file)) (respond files p (x ++ y))
        (respond files p (x ++ Switch.trace.label :: y))) ∧
    ∀ s : Switch, s.given i.options = false →
      Invocation.ofArguments (s.label :: (x ++ y)) = .ok (i.preset s) := by
  have hrun : i.task ≠ .askForFile := by
    rw [htask]
    exact nofun
  have hanswer : ∀ (s : Switch) i', Invocation.ofArguments (x ++ s.label :: y) = .ok i' →
      respond files p (x ++ s.label :: y) =
        Job.answer p (Job.prepare files p (s.turnOn i.options) file) := by
    intro s i' h'
    obtain rfl := Invocation.ofArguments_insert h hrun h'
    exact respond_eq_answer files p h' htask
  rw [respond_eq_answer files p h htask]
  refine ⟨fun i' h' => ?_, fun i' h' => ?_, fun i' h' => ?_,
    fun s hnew => Invocation.ofArguments_cons h hnew⟩
  · rw [hanswer .json i' h']
    exact Job.rel_json files p i.options file
  · rw [hanswer .legacyExit i' h']
    exact Job.rel_legacyExit files p i.options file
  · rw [hanswer .trace i' h']
    exact Job.rel_trace files p i.options file

theorem prepare_faulty :
    Job.prepare faultyFiles .plain .none "fault.ls8" =
      .ok ⟨faultyMachine, faultyProgram, "fault.ls8", .none⟩ := by
  have hconfig : Options.none.effectiveConfig faultyFiles = .ok .default := rfl
  have hload : Program.load faultyFiles "fault.ls8" = .ok faultyProgram :=
    Program.load_of_parse rfl rfl
  obtain ⟨m₀, m, hnew, hm, hjob⟩ := Job.exists_prepare .plain hconfig hload (by decide)
  obtain rfl := Except.ok.inj hnew
  obtain rfl := Except.ok.inj (hm.symm.trans loadProgram_faulty)
  exact hjob

/-- The run of the faulty file with its final state behind what it prints; and traced, a line for
the print and a line for the instruction that fails. -/
theorem trace_stands_in_front_of_error :
    Invocation.ofArguments ([] ++ [Command.run.name, "fault.ls8"]) =
        .ok ⟨none, some (.run, "fault.ls8"), .none⟩ ∧
      Invocation.task ⟨none, some (.run, "fault.ls8"), .none⟩ = .run "fault.ls8" ∧
      ∃ r, respond faultyFiles .plain [Command.run.name, "fault.ls8"] = some r ∧
        respond faultyFiles .plain [Switch.json.label, Command.run.name, "fault.ls8"] =
          some { r with stdout := r.stdout ++ faultyState } ∧
        respond faultyFiles .plain [Switch.trace.label, Command.run.name, "fault.ls8"] =
          some { r with stderr :=
            "TRACE: 00 | 00 | 47 00 C0 | 00 00 00 00 00 00 00 F4\n" ++
              "TRACE: 02 | 00 | C0 00 00 | 00 00 00 00 00 00 00 F4\n" ++ r.stderr } := by
  have harguments : Invocation.ofArguments ([] ++ [Command.run.name, "fault.ls8"]) = _ :=
    Invocation.ofArguments_command .run "fault.ls8" rfl
  obtain ⟨hjson, -, htrace, hswitch⟩ :=
    reporting_options_only_report faultyFiles .plain harguments rfl
  have hstate := hjson _ (hswitch .json rfl)
  have hrel := htrace _ (hswitch .trace rfl)
  obtain ⟨r, hr⟩ : ∃ r,
      respond faultyFiles .plain ([] ++ [Command.run.name, "fault.ls8"]) = some r := by
    rw [respond_eq_answer faultyFiles .plain harguments rfl, prepare_faulty, Job.answer,
      Job.response, run_faulty]
    exact ⟨_, rfl⟩
  have hlines : Machine.traceLines ((List.range 2).map faultyMachine.stateAfter) =
      "TRACE: 00 | 00 | 47 00 C0 | 00 00 00 00 00 00 00 F4\n" ++
        "TRACE: 02 | 00 | C0 00 00 | 00 00 00 00 00 00 00 F4\n" := by decide +kernel
  rw [prepare_faulty, hr, List.nil_append] at hstate hrel
  refine ⟨harguments, rfl, r, hr, ?_, ?_⟩
  · generalize respond faultyFiles .plain [Switch.json.label, Command.run.name, "fault.ls8"] =
      response at hstate ⊢
    cases hstate with
    | some hadds =>
        cases hadds with
        | shown hshown => cases hshown
        | adds _ hrun hshows =>
            obtain rfl := Option.some.inj (run_faulty.symm.trans hrun)
            obtain rfl := Snapshot.shows_iff.1 hshows
            rw [Machine.machine_conclude, ← toJson_faulty]
            rfl
  · generalize respond faultyFiles .plain [Switch.trace.label, Command.run.name, "fault.ls8"] =
      response at hrel ⊢
    cases hrel with
    | some hadds =>
        cases hadds with
        | traced htraced => cases htraced
        | adds _ _ hk =>
            obtain rfl :=
              Nat.le_antisymm (hk.2 isLeast_stops_faulty.1) (isLeast_stops_faulty.2 hk.1)
            rw [hlines]

end ByteMachine
