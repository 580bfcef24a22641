/-
**Checking a file predicts whether it runs.**

Checking a file, listing it and running it load it in the same way, so they agree on which files are
missing, unreadable or no program, and say so with the same exit code.  Whether a program fits in
memory is asked twice: by the check, which compares the sizes, and when a machine takes the program
into its memory.  Both draw the same line, so with a valid configuration the check says exactly
whether there will be a run.  It looks at no option, and a listing does not look at the size.

Main definitions:

* `ByteMachine.Loadable` — the file holds a program that fits in memory;
* `ByteMachine.ExitCode.Refuses` — the exit code for a file that cannot be loaded.

Main results:

* `ByteMachine.exit_checkFile_of_loadable`, `refuses_checkFile` — **the exit code of a check**;
* `ByteMachine.Job.exit_response_of_loadable`, `Job.refuses_prepare` — **the exit code of a run**;
* `ByteMachine.disassembleFile_of_load` — a listing is written whole;
* `ByteMachine.check_predicts_run` — **a check predicts whether a file runs**.
-/

import ByteMachine.Proofs.CommandLine.Running
import ByteMachine.Proofs.Listing

set_option relaxedAutoImplicit false
set_option autoImplicit false

namespace ByteMachine

variable {files : Files} {p : Palette} {file : String}

/-! ### Files that can be loaded -/

/-- **The file can be read, holds a program, and the program fits in memory.** -/
def Loadable (files : Files) (file : String) : Prop :=
  ∃ text program, files file = .ok text ∧ Program.parse text = .ok program ∧ program.size ≤ 256

/-- **The exit code for a file that cannot be loaded:** 2 if there is none, and 1 otherwise. -/
structure ExitCode.Refuses (files : Files) (file : String) (exit : Nat) : Prop where
  missing : files file = .error .notFound → exit = 2
  unusable : files file ≠ .error .notFound → exit = 1

theorem ExitCode.Refuses.eq_one_or_two {exit : Nat} (h : Refuses files file exit) :
    exit = 1 ∨ exit = 2 := by
  by_cases hfile : files file = .error .notFound
  · exact .inr (h.missing hfile)
  · exact .inl (h.unusable hfile)

theorem ExitCode.Refuses.unique {exit exit' : Nat} (h : Refuses files file exit)
    (h' : Refuses files file exit') : exit = exit' := by
  by_cases hfile : files file = .error .notFound
  · rw [h.missing hfile, h'.missing hfile]
  · rw [h.unusable hfile, h'.unusable hfile]

namespace Program

/-- **The ways in which loading a file goes.** -/
inductive Loads (files : Files) (file : String) : Except LoadError Program → Prop
  | notFound (hfile : files file = .error .notFound) : Loads files file (.error (.notFound file))
  | unreadable {reason : ReadError} (hfile : files file = .error reason)
      (hreason : reason ≠ .notFound) : Loads files file (.error (.unreadable file reason))
  | malformed {text : String} {e : SourceError} (hfile : files file = .ok text)
      (hparse : parse text = .error e) : Loads files file (.error (.source e))
  | loaded {text : String} {program : Program} (hfile : files file = .ok text)
      (hparse : parse text = .ok program) : Loads files file (.ok program)

theorem loads_load (files : Files) (file : String) : Loads files file (load files file) := by
  cases hfile : files file with
  | error reason =>
      by_cases hreason : reason = .notFound
      · subst hreason
        rw [load_of_notFound hfile]
        exact .notFound hfile
      · rw [load_of_unreadable hfile hreason]
        exact .unreadable hfile hreason
  | ok text =>
      cases hparse : parse text with
      | error e =>
          rw [load_of_parse_eq_error hfile hparse]
          exact .malformed hfile hparse
      | ok program =>
          rw [load_of_parse hfile hparse]
          exact .loaded hfile hparse

theorem load_eq_ok_iff {program : Program} :
    load files file = .ok program ↔ ∃ text, files file = .ok text ∧ parse text = .ok program := by
  constructor
  · intro h
    have hloads := loads_load files file
    rw [h] at hloads
    cases hloads with
    | loaded hfile hparse => exact ⟨_, hfile, hparse⟩
  · rintro ⟨text, hfile, hparse⟩
    exact load_of_parse hfile hparse

end Program

theorem loadable_iff :
    Loadable files file ↔
      ∃ program, Program.load files file = .ok program ∧ program.size ≤ 256 := by
  simp only [Loadable, Program.load_eq_ok_iff, ← exists_and_right, and_assoc]
  exact exists_comm

/-- A file that is not loaded is refused. -/
theorem refuses_of_load_eq_error {e : LoadError} (h : Program.load files file = .error e) :
    ExitCode.Refuses files file (e.response p).exit := by
  have hloads := Program.loads_load files file
  rw [h] at hloads
  cases hloads with
  | notFound hfile => exact ⟨fun _ => rfl, absurd hfile⟩
  | unreadable hfile hreason =>
      refine ⟨fun hmissing => absurd ?_ hreason, fun _ => rfl⟩
      exact Except.error.inj (hfile.symm.trans hmissing)
  | malformed hfile => exact ⟨fun hmissing => by simp [hfile] at hmissing, fun _ => rfl⟩

/-- So is a file that holds a program, but one that does not fit in memory. -/
theorem refuses_one {program : Program} (h : Program.load files file = .ok program) :
    ExitCode.Refuses files file 1 := by
  obtain ⟨text, hfile, -⟩ := Program.load_eq_ok_iff.1 h
  exact ⟨fun hmissing => by simp [hfile] at hmissing, fun _ => rfl⟩

/-! ### Checks -/

theorem exit_checkFile_of_loadable (h : Loadable files file) :
    (checkFile files p file).exit = 0 := by
  obtain ⟨program, hload, hsize⟩ := loadable_iff.1 h
  have hfits : program.size ≤ Memory.size := hsize
  simp only [checkFile, hload, if_pos hfits]
  rfl

/-- A check refuses what cannot be loaded. -/
theorem refuses_checkFile (h : ¬Loadable files file) :
    ExitCode.Refuses files file (checkFile files p file).exit := by
  cases hload : Program.load files file with
  | error e =>
      simp only [checkFile, hload]
      exact refuses_of_load_eq_error hload
  | ok program =>
      have hlarge : ¬program.size ≤ Memory.size :=
        fun hsize => h (loadable_iff.2 ⟨program, hload, hsize⟩)
      simp only [checkFile, hload, if_neg hlarge]
      exact refuses_one hload

/-! ### Runs -/

namespace Job

variable {options : Options} {c : Config}

/-- A run that has been started ends with an exit code of its own. -/
theorem exit_of_response {job : Job} (hlegacy : job.options.legacyExit = false) {r : Response}
    (h : job.response p = some r) : r.exit = 0 ∨ r.exit = 3 ∨ r.exit = 4 := by
  obtain ⟨o, -, rfl⟩ := Option.map_eq_some_iff.1 h
  cases hresult : o.result with
  | error e => exact .inr (.inr (exit_report_of_error job p hresult))
  | ok halt =>
      rw [exit_report_of_ok job p hresult]
      cases halt.reason with
      | halted =>
          rw [exitCode_halted, hlegacy]
          exact .inl rfl
      | cycleLimit => exact .inr (.inl job.exitCode_cycleLimit)

/-- **The run of a file that can be loaded is started.** -/
theorem exists_prepare_of_loadable (p : Palette) (hc : options.effectiveConfig files = .ok c)
    (h : Loadable files file) :
    ∃ job, prepare files p options file = .ok job ∧ job.options = options := by
  obtain ⟨program, hload, hsize⟩ := loadable_iff.1 h
  obtain ⟨m₀, m, -, -, hjob⟩ := exists_prepare p hc hload hsize
  exact ⟨_, hjob, rfl⟩

/-- A run refuses what cannot be loaded. -/
theorem refuses_prepare (hc : options.effectiveConfig files = .ok c) (h : ¬Loadable files file) :
    ∃ r, prepare files p options file = .error r ∧ ExitCode.Refuses files file r.exit := by
  cases hload : Program.load files file with
  | error e => exact ⟨_, prepare_of_load_eq_error hc hload, refuses_of_load_eq_error hload⟩
  | ok program =>
      have hsize : 256 < program.size :=
        Nat.not_le.1 fun hsize => h (loadable_iff.2 ⟨program, hload, hsize⟩)
      exact ⟨_, prepare_of_tooLarge hc hload hsize, refuses_one hload⟩

end Job

/-! ### Listings -/

/-- **A listing is written whole.** -/
theorem disassembleFile_of_load {program : Program} (h : Program.load files file = .ok program) :
    disassembleFile files p file = ⟨0, String.join (Listing.lines file program), ""⟩ := by
  obtain ⟨hwrite, htaken⟩ :=
    Listing.write_of_unlimited file program (s := .unlimited) rfl rfl
  have htext := Sink.text_of_taken (htaken.trans ByteArray.empty_append)
  simp only [disassembleFile, h, hwrite, htext]
  rfl

/-- A listing asks only for a program. -/
theorem exit_disassembleFile_iff :
    (disassembleFile files p file).exit = 0 ↔ ∃ program, Program.load files file = .ok program := by
  cases hload : Program.load files file with
  | error e =>
      have hexit := (refuses_of_load_eq_error (p := p) hload).eq_one_or_two
      simp only [disassembleFile, hload, reduceCtorEq, exists_false, iff_false]
      omega
  | ok program => exact ⟨fun _ => ⟨program, rfl⟩, fun _ => by rw [disassembleFile_of_load hload]⟩

/-! ### Whole command lines -/

theorem respond_of_check {arguments : List String} {i : Invocation}
    (harguments : Invocation.ofArguments arguments = .ok i) (htask : i.task = .check file) :
    respond files p arguments = some (checkFile files p file) := by
  rw [respond, harguments]
  simp only [Invocation.respond, Invocation.plan, htask]

theorem respond_of_disassemble {arguments : List String} {i : Invocation}
    (harguments : Invocation.ofArguments arguments = .ok i) (htask : i.task = .disassemble file) :
    respond files p arguments = some (disassembleFile files p file) := by
  rw [respond, harguments]
  simp only [Invocation.respond, Invocation.plan, htask]

/-- **A check predicts whether a file runs.**  If the configuration of a run is valid and a halt is
no failure, then a check of the same file succeeds exactly if the run has been started, which then
ends with one of the exit codes of a run, and that is so exactly if the file holds a program that
fits in memory.  Otherwise both end with the same exit code: 2 for a missing file, and 1 for all
others.  A check gives the same response with all options.  A listing succeeds exactly if the file
holds a program, whatever its size. -/
theorem check_predicts_run (files : Files) (p : Palette) {a b : List String} {i j : Invocation}
    {file : String} (ha : Invocation.ofArguments a = .ok i) (hi : i.task = .run file)
    (hb : Invocation.ofArguments b = .ok j) (hj : j.task = .check file) :
    (∀ c r, i.options.effectiveConfig files = .ok c → i.options.legacyExit = false →
      respond files p a = some r →
      ∃ q, respond files p b = some q ∧
        (q.exit = 0 ↔ r.exit = 0 ∨ r.exit = 3 ∨ r.exit = 4) ∧
        (q.exit = 0 ↔ ∃ job, Job.prepare files p i.options file = .ok job) ∧
        (q.exit = 0 ↔ Loadable files file) ∧
        (q.exit ≠ 0 → q.exit = r.exit ∧ ExitCode.Refuses files file q.exit)) ∧
    (∀ b' j', Invocation.ofArguments b' = .ok j' → j'.task = .check file →
      respond files p b' = respond files p b) ∧
    ∀ d l, Invocation.ofArguments d = .ok l → l.task = .disassemble file →
      ∃ q, respond files p d = some q ∧
        (q.exit = 0 ↔
          ∃ text program, files file = .ok text ∧ Program.parse text = .ok program) := by
  refine ⟨fun c r hc hlegacy hr => ⟨_, respond_of_check hb hj, ?_⟩, fun b' j' hb' hj' => ?_,
    fun d l hd hl => ⟨_, respond_of_disassemble hd hl, ?_⟩⟩
  · rw [respond_of_run files p ha hi] at hr
    by_cases hfile : Loadable files file
    · have hq := exit_checkFile_of_loadable (p := p) hfile
      obtain ⟨job, hjob, hoptions⟩ := Job.exists_prepare_of_loadable p hc hfile
      rw [hjob] at hr
      have hexit := Job.exit_of_response (hoptions ▸ hlegacy) hr
      exact ⟨⟨fun _ => hexit, fun _ => hq⟩, ⟨fun _ => ⟨job, hjob⟩, fun _ => hq⟩,
        ⟨fun _ => hfile, fun _ => hq⟩, fun hne => absurd hq hne⟩
    · have hq := refuses_checkFile (p := p) hfile
      obtain ⟨r', hprepare, hrefuses⟩ := Job.refuses_prepare (p := p) hc hfile
      rw [hprepare] at hr
      obtain rfl := Option.some.inj hr
      have hq' := hq.eq_one_or_two
      have hr' := hrefuses.eq_one_or_two
      refine ⟨by omega, ⟨by omega, ?_⟩, ⟨by omega, fun h => absurd h hfile⟩,
        fun _ => ⟨hq.unique hrefuses, hq⟩⟩
      rintro ⟨job, hjob⟩
      rw [hprepare] at hjob
      cases hjob
  · rw [respond_of_check hb' hj', respond_of_check hb hj]
  · rw [exit_disassembleFile_iff]
    simp only [Program.load_eq_ok_iff]
    exact exists_comm

/-- A program that fails when it is run passes the check: it has been started. -/
theorem faulty_program_passes_check :
    Invocation.ofArguments [Command.run.name, "fault.ls8"] =
        .ok ⟨none, some (.run, "fault.ls8"), .none⟩ ∧
      Invocation.ofArguments [Command.check.name, "fault.ls8"] =
        .ok ⟨none, some (.check, "fault.ls8"), .none⟩ ∧
      ∃ r q, respond faultyFiles .plain [Command.run.name, "fault.ls8"] = some r ∧
        respond faultyFiles .plain [Command.check.name, "fault.ls8"] = some q ∧
        q.exit = 0 ∧ (r.exit = 0 ∨ r.exit = 3 ∨ r.exit = 4) := by
  have ha := Invocation.ofArguments_command .run "fault.ls8" rfl
  have hb := Invocation.ofArguments_command .check "fault.ls8" rfl
  obtain ⟨hpredicts, -, -⟩ := check_predicts_run faultyFiles .plain ha rfl hb rfl
  have hconfig : Options.none.effectiveConfig faultyFiles = .ok .default := rfl
  have hload : Program.load faultyFiles "fault.ls8" =
      .ok ⟨[⟨0x47, 1⟩, ⟨0, 2⟩, ⟨0xC0, 3⟩]⟩ := rfl
  have hloadable : Loadable faultyFiles "fault.ls8" := loadable_iff.2 ⟨_, hload, by decide⟩
  obtain ⟨m₀, m, hnew, hm, hjob⟩ :=
    Job.exists_prepare .plain hconfig hload (by decide)
  obtain rfl := Except.ok.inj hnew
  obtain rfl := Except.ok.inj (hm.symm.trans loadProgram_faulty)
  have hr := respond_of_run faultyFiles .plain ha rfl
  simp only [hjob, Job.response, run_faulty] at hr
  obtain ⟨q, hq, hstarted, -, hexit, -⟩ := hpredicts .default _ hconfig rfl hr
  exact ⟨ha, hb, _, q, hr, hq, hexit.2 hloadable, hstarted.1 (hexit.2 hloadable)⟩

end ByteMachine
