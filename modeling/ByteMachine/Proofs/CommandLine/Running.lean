/-
**A run from the command line is the run of the machine.**

Three things are needed before anything runs: a configuration, a program and memory that holds it.
They are asked for in this order, and the first of them that fails is all that the response speaks
of.  If none fails, the machine that runs is a new one with the program in its memory; the response
says how its run ends, shows what it has printed and traced, and names the source line of an
instruction that has failed.  That line is found from the program counter, which a step that fails
leaves where it is.

Main definitions:

* `ByteMachine.Snapshot.Shows` — what the shown state says of the machine;
* `ByteMachine.Job.Reports` — what a response says of the end of a run.

Main results:

* `ByteMachine.Invocation.ofArguments_command` — the plain command lines;
* `ByteMachine.Job.exists_prepare` — **which machine runs**;
* `ByteMachine.Job.reports_report` — **what is said about its run**;
* `ByteMachine.run_command_runs_the_machine` — **a run from the command line, end to end**.
-/

import ByteMachine.CommandLine.Dispatch
import ByteMachine.Proofs.CommandLine.Switches
import ByteMachine.Proofs.Machine.Atomicity
import ByteMachine.Proofs.Machine.Texts
import ByteMachine.Proofs.Machine.Written

set_option relaxedAutoImplicit false
set_option autoImplicit false

namespace ByteMachine

variable {files : Files} {p : Palette} {file text : String}

/-! ### Command lines -/

/-- **The plain command lines:** a command and its file. -/
theorem Invocation.ofArguments_command (c : Command) (file : String)
    (hfile : ArgumentForm.of file = .plain) :
    ofArguments [c.name, file] = .ok ⟨none, some (c, file), .none⟩ := by
  rw [ofArguments, readLeading_of_command rfl (Command.ofName?_name c), readCommand]
  simp [ArgumentGroup.readTrailing, hfile, ArgumentGroup.take, ArgumentGroup.empty,
    ArgumentGroup.awaitsValue, ArgumentGroup.takeFile, ArgumentGroup.settle, bind, Except.bind,
    pure, Except.pure]

/-! ### Programs -/

namespace Program

variable {reason : ReadError} {e : SourceError} {program : Program}

theorem load_of_notFound (h : files file = .error .notFound) :
    load files file = .error (.notFound file) := by
  rw [load, h]

theorem load_of_unreadable (h : files file = .error reason) (hreason : reason ≠ .notFound) :
    load files file = .error (.unreadable file reason) := by
  rw [load, h]
  cases reason with
  | notFound => exact absurd rfl hreason
  | _ => rfl

theorem load_of_parse_eq_error (h : files file = .ok text) (hparse : parse text = .error e) :
    load files file = .error (.source e) := by
  rw [load, h]
  simp only [hparse]

theorem load_of_parse (h : files file = .ok text) (hparse : parse text = .ok program) :
    load files file = .ok program := by
  rw [load, h]
  simp only [hparse]

end Program

/-! ### Machines -/

theorem Options.validate_of_effectiveConfig {o : Options} {c : Config}
    (h : o.effectiveConfig files = .ok c) : c.validate = .ok () := by
  unfold effectiveConfig at h
  split at h
  · cases h
  · split at h
    · rename_i hvalid
      cases h
      exact hvalid
    · cases h

/-- A configuration file is found invalid by what has been read from it. -/
theorem Options.read_of_invalid {o : Options} {config : ConfigFile} {e : Json.Error}
    (h : o.effectiveConfig files = .error (.invalid config e)) :
    o.config = some config.path ∧ files config.path = .ok config.text := by
  unfold effectiveConfig fileConfig at h
  cases hpath : o.config with
  | none =>
      simp only [hpath] at h
      split at h <;> cases h
  | some path =>
      cases htext : files path with
      | error reason =>
          simp only [hpath, htext] at h
          cases h
      | ok text =>
          simp only [hpath, htext] at h
          cases hread : Config.ofJson text with
          | ok c =>
              simp only [hread] at h
              split at h <;> cases h
          | error reason =>
              simp only [hread] at h
              cases h
              exact ⟨rfl, htext⟩

theorem Machine.exists_loadProgram (m : Machine) {program : Program}
    (hsize : program.size ≤ 256) : ∃ m', m.loadProgram program = .ok m' := by
  cases h : m.loadProgram program with
  | ok m' => exact ⟨m', rfl⟩
  | error e =>
      rw [loadProgram, load_eq_error_iff, Program.length_bytes] at h
      exact absurd hsize (Nat.not_le.2 h.1)

/-! ### Final states -/

/-- **The snapshot shows the machine:** where it is, its flags, what each of its registers holds,
the stack pointer again by itself, and the number of instructions executed. -/
structure Snapshot.Shows (s : Snapshot) (m : Machine) : Prop where
  pc : s.pc = m.pc
  flags : s.flags = m.flags
  sp : m.registers.get Registers.spIndex = .ok s.sp
  registers : ∀ k : Fin 8, m.registers.get (UInt8.ofNat k) = .ok s.registers[k]
  cycles : s.cycles = m.cycles

theorem Machine.snapshot_shows (m : Machine) : m.snapshot.Shows m where
  pc := rfl
  flags := rfl
  sp := Registers.get_sp m.registers
  registers := fun k => by
    have hlt : k.val < UInt8.size := Nat.lt_of_lt_of_le k.isLt (by decide)
    have hk := UInt8.toNat_ofNat_of_lt' hlt
    rw [Registers.get_of_lt (by omega)]
    simp only [hk]
    rfl
  cycles := rfl

/-- Only the snapshot of a machine shows it. -/
theorem Snapshot.shows_iff {s : Snapshot} {m : Machine} : s.Shows m ↔ s = m.snapshot := by
  constructor
  · intro h
    have hregisters : s.registers = m.registers.values := by
      refine Vector.ext fun k hk => ?_
      have hself := m.snapshot_shows.registers ⟨k, hk⟩
      exact Except.ok.inj ((h.registers ⟨k, hk⟩).symm.trans hself)
    have hsp : s.sp = m.sp := Except.ok.inj (h.sp.symm.trans m.snapshot_shows.sp)
    cases s
    rw [Machine.snapshot, Snapshot.mk.injEq]
    exact ⟨h.pc, h.flags, hsp, hregisters, h.cycles⟩
  · rintro rfl
    exact m.snapshot_shows

namespace Job

variable {options : Options} {c : Config} {program : Program}

theorem prepare_of_rejected {e : SettingsError} (hc : options.effectiveConfig files = .error e) :
    prepare files p options file = .error ⟨1, "", p.error (e.message ++ e.cause p)⟩ := by
  rw [prepare, hc]
  rfl

theorem prepare_of_load_eq_error {e : LoadError} (hc : options.effectiveConfig files = .ok c)
    (hload : Program.load files file = .error e) :
    prepare files p options file = .error (e.response p) := by
  rw [prepare, hc]
  simp only [hload]

/-- The machine of a valid configuration is a new one. -/
theorem ofConfig_of_effectiveConfig (hc : options.effectiveConfig files = .ok c) :
    Machine.ofConfig c = .ok (.fresh c) := by
  rw [Machine.ofConfig, Options.validate_of_effectiveConfig hc]

theorem prepare_of_tooLarge (hc : options.effectiveConfig files = .ok c)
    (hload : Program.load files file = .ok program) (hsize : 256 < program.size) :
    prepare files p options file =
      .error ⟨1, "", p.error ("Cannot load '" ++ file ++ "': " ++
        (Fault.programTooLarge program.size 256).message)⟩ := by
  have hfails : (Machine.fresh c).loadProgram program =
      .error (.programTooLarge program.size 256) := by
    rw [Machine.loadProgram, Machine.load_eq_error_iff, Program.length_bytes]
    exact ⟨hsize, rfl⟩
  rw [prepare, hc]
  simp only [hload, ofConfig_of_effectiveConfig hc, hfails]
  rfl

/-- **The machine that runs** is a new one with the program in its memory. -/
theorem exists_prepare (p : Palette) (hc : options.effectiveConfig files = .ok c)
    (hload : Program.load files file = .ok program) (hsize : program.size ≤ 256) :
    ∃ m₀ m, Machine.ofConfig c = .ok m₀ ∧ m₀.loadProgram program = .ok m ∧
      prepare files p options file = .ok ⟨m, program, file, options⟩ := by
  have hnew := ofConfig_of_effectiveConfig hc
  obtain ⟨m, hm⟩ := (Machine.fresh c).exists_loadProgram hsize
  refine ⟨.fresh c, m, hnew, hm, ?_⟩
  rw [prepare, hc]
  simp only [hload, hnew, hm]

/-! ### The end of a run -/

/-- **The response `r` says how a run of `k` steps has ended, which is `o`.**  The exit code tells
the three endings apart.  Standard output is what the steps have printed, and behind it the final
state if that is asked for.  Of a failure, standard error ends with the message, and behind it the
source line of the instruction that has failed if that stands in the program. -/
structure Reports (job : Job) (p : Palette) (k : Nat) (o : Outcome Halt) (r : Response) :
    Prop where
  least : IsLeast {k | job.machine.Stops .unlimited k} k
  printed : o.sinks.out.text = job.machine.textOf Machine.printLine k
  traced : o.sinks.trace.text = job.machine.textOf Machine.traceLine k
  halted_iff : r.exit = (if job.options.legacyExit then 1 else 0) ↔
    ∃ halt, o.result = .ok halt ∧ halt.reason = .halted
  cycleLimit_iff : r.exit = 3 ↔ ∃ halt, o.result = .ok halt ∧ halt.reason = .cycleLimit
  fault_iff : r.exit = 4 ↔ ∃ e, o.result = .error e
  stdout : ∃ s : Snapshot, s.Shows o.machine ∧
    r.stdout = o.sinks.out.text ++ if job.options.json then s.toJson ++ "\n" else ""
  stderr : ∀ e, o.result = .error e → ∃ j place,
    k = j + 1 ∧ (job.machine.stepped .unlimited (j + 1)).result = .error e ∧
    ((job.machine.stateAfter j).pc < job.program.size →
      ∃ line, job.program.lineOf? (job.machine.stateAfter j).pc = some line ∧
        place = " (" ++ job.file ++ ":" ++ line.repr ++ ")") ∧
    (job.program.size ≤ (job.machine.stateAfter j).pc → place = "") ∧
    r.stderr = o.sinks.trace.text ++ p.label "31" "error:" ++ " " ++ "Runtime error: " ++
      e.message ++ place ++ "\n"

variable {job : Job} {o : Outcome Halt}

theorem exit_report_of_ok (job : Job) (p : Palette) {halt : Halt} (h : o.result = .ok halt) :
    (job.report p o).exit = job.exitCode halt.reason := by
  simp only [report, h, verdict]

theorem exit_report_of_error (job : Job) (p : Palette) {e : Fault} (h : o.result = .error e) :
    (job.report p o).exit = 4 := by
  simp only [report, h, verdict]
  rfl

theorem exitCode_halted (job : Job) :
    job.exitCode .halted = if job.options.legacyExit then 1 else 0 := rfl

theorem exitCode_cycleLimit (job : Job) : job.exitCode .cycleLimit = 3 := rfl

/-- A run that did not fail has not the exit code of a failure. -/
theorem exitCode_lt_four (job : Job) (reason : HaltReason) : job.exitCode reason < 4 := by
  cases reason with
  | halted =>
      rw [exitCode_halted]
      split <;> omega
  | cycleLimit =>
      rw [exitCode_cycleLimit]
      omega

/-- The exit code tells why a run has stopped. -/
theorem exitCode_inj (job : Job) {reason reason' : HaltReason} :
    job.exitCode reason = job.exitCode reason' ↔ reason = reason' := by
  have hne : job.exitCode .halted ≠ job.exitCode .cycleLimit := by
    rw [exitCode_halted, exitCode_cycleLimit]
    split <;> omega
  cases reason with
  | halted => cases reason' <;> simp [hne]
  | cycleLimit => cases reason' <;> simp [hne.symm]

/-- **The exit code of a reason to stop** is that of the runs that stop for it. -/
theorem exit_report_eq_exitCode_iff (job : Job) (p : Palette) (o : Outcome Halt)
    (reason : HaltReason) :
    (job.report p o).exit = job.exitCode reason ↔
      ∃ halt, o.result = .ok halt ∧ halt.reason = reason := by
  cases hresult : o.result with
  | error e =>
      have hexit := exit_report_of_error job p hresult
      have hlt := job.exitCode_lt_four reason
      simp only [reduceCtorEq, false_and, exists_false, iff_false]
      omega
  | ok halt => simp [exit_report_of_ok job p hresult, exitCode_inj]

/-- **The exit code of a failure** is that of the runs that fail. -/
theorem exit_report_eq_four_iff (job : Job) (p : Palette) (o : Outcome Halt) :
    (job.report p o).exit = 4 ↔ ∃ e, o.result = .error e := by
  cases hresult : o.result with
  | error e => exact ⟨fun _ => ⟨e, rfl⟩, fun _ => exit_report_of_error job p hresult⟩
  | ok halt =>
      have hexit := exit_report_of_ok job p hresult
      have hlt := job.exitCode_lt_four halt.reason
      simp only [reduceCtorEq, exists_false, iff_false]
      omega

/-- The source line of an address of the program. -/
theorem location_of_lt {a : Nat} (h : a < job.program.size) :
    ∃ line, job.program.lineOf? a = some line ∧
      job.location a = " (" ++ job.file ++ ":" ++ line.repr ++ ")" := by
  obtain ⟨line, hline⟩ := Option.isSome_iff_exists.1 (Program.lineOf?_isSome_iff.2 h)
  exact ⟨line, hline, by simp only [location, hline]⟩

theorem location_of_le {a : Nat} (h : job.program.size ≤ a) : job.location a = "" := by
  have hnone : job.program.lineOf? a = none := by
    rw [← Option.not_isSome_iff_eq_none, Program.lineOf?_isSome_iff]
    exact Nat.not_lt.2 h
  simp only [location, hnone]

/-- The text behind what a run that has failed has traced. -/
theorem stderr_report_of_error {e : Fault} (h : o.result = .error e) :
    (job.report p o).stderr = o.sinks.trace.text ++ p.label "31" "error:" ++ " " ++
      "Runtime error: " ++ e.message ++ job.location o.machine.pc ++ "\n" := by
  simp only [report, h, verdict, Palette.error, String.append_assoc]

/-- **What is said about the end of a run.** -/
theorem reports_report (h : job.machine.run .unlimited = some o) :
    ∃ k, job.Reports p k o (job.report p o) := by
  obtain ⟨k, hk, -, ho⟩ := Machine.exists_isLeast_of_run h
  have hsinks : o.sinks = (job.machine.stepped .unlimited k).sinks := by
    rw [ho, Machine.sinks_conclude]
    rfl
  obtain ⟨hprinted, htraced⟩ := job.machine.text_stepped_unlimited k
  refine ⟨k, hk, by rw [hsinks, hprinted], by rw [hsinks, htraced],
    job.exit_report_eq_exitCode_iff p o .halted, job.exit_report_eq_exitCode_iff p o .cycleLimit,
    job.exit_report_eq_four_iff p o, ⟨_, o.machine.snapshot_shows, rfl⟩, fun e he => ?_⟩
  have hlast : (job.machine.stepped .unlimited k).result = .error e := by
    rw [ho, Machine.conclude_ending (Machine.flush_stepped job.machine .unlimited k)] at he
    cases hstep : (job.machine.stepped .unlimited k).result with
    | ok q =>
        rw [hstep] at he
        cases he
    | error e' =>
        rw [hstep] at he
        exact congrArg Except.error (Except.error.inj he)
  cases k with
  | zero => cases hlast
  | succ j =>
      -- the step that fails leaves the program counter at its instruction
      have hpc : o.machine.pc = (job.machine.stateAfter j).pc := by
        rw [ho, Machine.machine_conclude]
        exact (Machine.keptBy_of_step hlast).pc_eq
      refine ⟨j, job.location (job.machine.stateAfter j).pc, rfl, hlast, location_of_lt,
        location_of_le, ?_⟩
      rw [stderr_report_of_error he, hpc]

/-- A run from the command line ends exactly if the run of the machine does, and then says how. -/
theorem rel_response (job : Job) (p : Palette) :
    Option.Rel (fun o r => ∃ k, job.Reports p k o r) (job.machine.run .unlimited)
      (job.response p) := by
  unfold response
  cases h : job.machine.run .unlimited with
  | none => exact .none
  | some o => exact .some (reports_report h)

end Job

/-! ### Whole command lines -/

/-- What a command line comes to that runs a file. -/
theorem respond_of_run (files : Files) (p : Palette) {arguments : List String} {i : Invocation}
    (harguments : Invocation.ofArguments arguments = .ok i) (htask : i.task = .run file) :
    respond files p arguments =
      match Job.prepare files p i.options file with
      | .error r => some r
      | .ok job => job.response p := by
  rw [respond, harguments]
  simp only [Invocation.respond, Invocation.plan, htask]
  cases Job.prepare files p i.options file with
  | error r => rfl
  | ok job => rfl

/-- **A run from the command line is the run of the machine.**  A configuration that is rejected
decides the response, whatever the program file is; of a configuration file that holds none it is
said why its text does not.  If it is valid, a program file that is missing, cannot be read, holds
no program or one that does not fit in memory decides the response; nothing has been printed or
traced then, and no state is shown.  Otherwise the machine that runs is a new one of this
configuration with the program in its memory.  There is a response exactly if its run ends: the exit
code tells whether it has halted, reached the cycle limit or failed, standard output is what it has
printed with the state of the machine behind it where that is asked for, and of a failure the
message is the last that is said, with the line of the failing instruction if that stands in the
program. -/
theorem run_command_runs_the_machine (files : Files) (p : Palette) {arguments : List String}
    {i : Invocation} {file : String} (harguments : Invocation.ofArguments arguments = .ok i)
    (htask : i.task = .run file) :
    (∀ e, i.options.effectiveConfig files = .error e →
      respond files p arguments = some ⟨1, "", p.error (e.message ++ e.cause p)⟩ ∧
      ∀ config reason, e = .invalid config reason → e.cause p = p.cause config.text ∧
        i.options.config = some config.path ∧ files config.path = .ok config.text) ∧
    ∀ c, i.options.effectiveConfig files = .ok c →
      (files file = .error .notFound →
        respond files p arguments = some ⟨2, "File not found!\n", ""⟩) ∧
      (∀ reason, reason ≠ .notFound → files file = .error reason →
        respond files p arguments =
          some ⟨1, "", p.error (LoadError.unreadable file reason).message⟩) ∧
      ∀ text, files file = .ok text →
        (∀ e, Program.parse text = .error e →
          respond files p arguments = some ⟨1, "", p.error e.message⟩) ∧
        ∀ program, Program.parse text = .ok program →
          (256 < program.size →
            respond files p arguments =
              some ⟨1, "", p.error ("Cannot load '" ++ file ++ "': " ++
                (Fault.programTooLarge program.size 256).message)⟩) ∧
          (program.size ≤ 256 →
            ∃ m₀ m, Machine.ofConfig c = .ok m₀ ∧ m₀.loadProgram program = .ok m ∧
              Option.Rel (fun o r => ∃ k, Job.Reports ⟨m, program, file, i.options⟩ p k o r)
                (m.run .unlimited) (respond files p arguments)) := by
  rw [respond_of_run files p harguments htask]
  refine ⟨fun e hc => ⟨?_, ?_⟩, fun c hc => ⟨fun hfile => ?_, fun reason hreason hfile => ?_,
    fun text hfile => ⟨fun e hparse => ?_, fun program hparse => ?_⟩⟩⟩
  · rw [Job.prepare_of_rejected hc]
  · rintro config reason rfl
    exact ⟨rfl, Options.read_of_invalid hc⟩
  · rw [Job.prepare_of_load_eq_error hc (Program.load_of_notFound hfile)]
    rfl
  · rw [Job.prepare_of_load_eq_error hc (Program.load_of_unreadable hfile hreason)]
    rfl
  · rw [Job.prepare_of_load_eq_error hc (Program.load_of_parse_eq_error hfile hparse)]
    rfl
  · have hload := Program.load_of_parse hfile hparse
    refine ⟨fun hsize => ?_, fun hsize => ?_⟩
    · rw [Job.prepare_of_tooLarge hc hload hsize]
    · obtain ⟨m₀, m, hnew, hm, hjob⟩ := Job.exists_prepare p hc hload hsize
      rw [hjob]
      exact ⟨m₀, m, hnew, hm, Job.rel_response _ p⟩

/-- One file: a print of a register, and behind it on the third line a byte that is no
instruction. -/
def faultyFiles : Files := fun path =>
  if path = "fault.ls8" then .ok "01000111\n00000000\n11000000\n" else .error .notFound

/-- The machine that runs it. -/
def faultyMachine : Machine :=
  { Machine.fresh .default with memory := (Memory.empty.put 0 0x47).put 2 0xC0 }

/-- The program that it holds. -/
def faultyProgram : Program := ⟨[⟨0x47, 1⟩, ⟨0, 2⟩, ⟨0xC0, 3⟩]⟩

theorem loadProgram_faulty :
    (Machine.fresh .default).loadProgram faultyProgram = .ok faultyMachine := by
  obtain ⟨n, hn⟩ : ∃ n, Memory.empty.load [0x47, 0, 0xC0] = .ok n := ⟨_, if_pos (by decide)⟩
  have hmemory : n = (Memory.empty.put 0 0x47).put 2 0xC0 := by
    refine Memory.ext_peek fun a => ?_
    rw [Memory.peek_load hn, Memory.peek_put, Memory.peek_put]
    match a with
    | 0 | 1 | 2 => rfl
    | a + 3 => exact if_neg (Nat.not_lt.2 (Nat.le_add_left 3 a))
  rw [hmemory] at hn
  rw [Machine.loadProgram, Machine.load]
  simp only [faultyProgram, Program.bytes, List.map, Machine.fresh, hn]
  rfl

theorem isLeast_stops_faulty : IsLeast {k | faultyMachine.Stops .unlimited k} 2 := by
  refine ⟨.inr nofun, fun k hk => Nat.not_lt.1 fun hlt => ?_⟩
  match k, hlt with
  | 0, _ => exact Machine.not_stops_iff.2 ⟨rfl, rfl⟩ hk
  | 1, _ => exact Machine.not_stops_iff.2 ⟨rfl, rfl⟩ hk

theorem run_faulty :
    faultyMachine.run .unlimited =
      some (Machine.conclude (faultyMachine.stepped .unlimited 2).ending) :=
  Machine.run_of_isLeast isLeast_stops_faulty
    (Machine.le_budget isLeast_stops_faulty fun _ => by decide)

/-- Its state when it has failed, as JSON. -/
def faultyState : String :=
  "\x7b\n  \"pc\": 2,\n  \"flags\": 0,\n  \"sp\": 244,\n  \"registers\": [\n    0,\n    0,\n" ++
    "    0,\n    0,\n    0,\n    0,\n    0,\n    244\n  ],\n  \"cycles\": 1\n\x7d\n"

theorem toJson_faulty :
    (faultyMachine.stepped .unlimited 2).machine.snapshot.toJson ++ "\n" = faultyState := by
  decide +kernel

/-- What is said about its run. -/
def faultyResponse (options : Options) : Response where
  exit := 4
  stdout := "0\n" ++ if options.json then faultyState else ""
  stderr := "error: Runtime error: Illegal instruction 0b11000000 at address 0x02" ++
    " (fault.ls8:3)\n"

theorem eq_of_reports_faulty {options : Options} {k : Nat} {r : Response}
    (h : Job.Reports ⟨faultyMachine, faultyProgram, "fault.ls8", options⟩ .plain k
      (Machine.conclude (faultyMachine.stepped .unlimited 2).ending) r) :
    r = faultyResponse options := by
  obtain rfl : k = 2 := Nat.le_antisymm (h.least.2 isLeast_stops_faulty.1)
    (isLeast_stops_faulty.2 h.least.1)
  obtain ⟨j, place, hj, -, hinside, -, hstderr⟩ := h.stderr (.illegalInstruction 0xC0 2) rfl
  obtain rfl := Nat.succ.inj hj
  have hpc : (faultyMachine.stateAfter 1).pc = 2 := by decide
  simp only [hpc] at hinside
  obtain ⟨line, hline, rfl⟩ := hinside (by decide)
  obtain rfl : 3 = line := Option.some.inj hline
  obtain ⟨state, hstate, hstdout⟩ := h.stdout
  obtain rfl := Snapshot.shows_iff.1 hstate
  have hexit : r.exit = 4 := h.fault_iff.2 ⟨_, rfl⟩
  have hprinted : faultyMachine.textOf Machine.printLine 2 = "0\n" := by decide +kernel
  have htraced : faultyMachine.textOf Machine.traceLine 2 = "" := by decide +kernel
  rw [h.printed, hprinted, Machine.machine_conclude] at hstdout
  rw [h.traced, htraced] at hstderr
  obtain ⟨exit, stdout, stderr⟩ := r
  rw [faultyResponse, Response.mk.injEq]
  refine ⟨hexit, ?_, hstderr⟩
  rw [← toJson_faulty]
  exact hstdout

/-- Its run prints the register and fails, and the message names the third line.  Where the state is
asked for, it stands behind the register. -/
theorem faulty_line_is_named :
    Invocation.ofArguments [Command.run.name, "fault.ls8"] =
        .ok ⟨none, some (.run, "fault.ls8"), .none⟩ ∧
      Invocation.ofArguments [Switch.json.label, Command.run.name, "fault.ls8"] =
        .ok ⟨none, some (.run, "fault.ls8"), Switch.json.turnOn .none⟩ ∧
      ∃ r, respond faultyFiles .plain [Command.run.name, "fault.ls8"] = some r ∧ r.exit = 4 ∧
        r.stdout = "0\n" ∧
        r.stderr = "error: Runtime error: Illegal instruction 0b11000000 at address 0x02" ++
          " (fault.ls8:3)\n" ∧
        respond faultyFiles .plain [Switch.json.label, Command.run.name, "fault.ls8"] =
          some { r with stdout := "0\n" ++ faultyState } := by
  have hrun := Invocation.ofArguments_command .run "fault.ls8" rfl
  have hjson := Invocation.ofArguments_cons (s := .json) hrun rfl
  have hsays : ∀ (arguments : List String) (options : Options),
      Invocation.ofArguments arguments = .ok ⟨none, some (.run, "fault.ls8"), options⟩ →
      options.effectiveConfig faultyFiles = .ok .default →
      respond faultyFiles .plain arguments = some (faultyResponse options) := by
    intro arguments options harguments hconfig
    obtain ⟨-, hvalid⟩ := run_command_runs_the_machine faultyFiles .plain harguments rfl
    obtain ⟨-, -, hfile⟩ := hvalid .default hconfig
    obtain ⟨-, hprogram⟩ := hfile "01000111\n00000000\n11000000\n" rfl
    obtain ⟨-, hfits⟩ := hprogram faultyProgram rfl
    obtain ⟨m₀, m, hnew, hload, hrel⟩ := hfits (by decide)
    obtain rfl := Except.ok.inj hnew
    obtain rfl := Except.ok.inj (hload.symm.trans loadProgram_faulty)
    rw [run_faulty] at hrel
    generalize respond faultyFiles .plain arguments = response at hrel ⊢
    cases hrel with
    | some hreports =>
        obtain ⟨k, hreports⟩ := hreports
        rw [eq_of_reports_faulty hreports]
  exact ⟨hrun, hjson, _, hsays _ _ hrun rfl, rfl, rfl, rfl, hsays _ _ hjson rfl⟩

end ByteMachine
