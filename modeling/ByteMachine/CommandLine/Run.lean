/-
**Running a program from the command line.**

First the configuration, then the program file, then the machine: the first of them that fails
decides the response, and nothing has been printed until then.  After the run its output and trace
stand before everything that is said about its end.

Main definitions:

* `ByteMachine.Job`, `Job.prepare` — a loaded machine, or the response if there is none;
* `ByteMachine.Job.report` — what is said about the end of the run;
* `ByteMachine.Job.response` — the response to a whole run.
-/

import ByteMachine.CommandLine.Response
import ByteMachine.CommandLine.Settings
import ByteMachine.Machine.Run
import ByteMachine.Program.Load
import ByteMachine.Snapshot.Json

set_option relaxedAutoImplicit false
set_option autoImplicit false

namespace ByteMachine

/-- The response to a program that cannot be loaded. -/
def LoadError.response (p : Palette) : LoadError → Response
  | notFound _ => ⟨ExitCode.notFound, "File not found!\n", ""⟩
  | e => ⟨ExitCode.usage, "", p.error e.message⟩

/-- **A run that can be started.** -/
structure Job where
  /-- The machine, with the program in memory. -/
  machine : Machine
  program : Program
  file : String
  options : Options

namespace Job

/-- Prepares the run of a file; if that fails, there is already a response. -/
def prepare (files : Files) (p : Palette) (options : Options) (file : String) :
    Except Response Job :=
  match options.effectiveConfig files with
  | .error e => .error ⟨ExitCode.usage, "", p.error (e.message ++ e.cause p)⟩
  | .ok config =>
    match Program.load files file with
    | .error e => .error (e.response p)
    | .ok program =>
      match Machine.ofConfig config with
      | .error e => .error ⟨ExitCode.usage, "", p.error e.message⟩
      | .ok machine =>
        match machine.loadProgram program with
        | .error e =>
          .error ⟨ExitCode.usage, "", p.error ("Cannot load '" ++ file ++ "': " ++ e.message)⟩
        | .ok machine => .ok ⟨machine, program, file, options⟩

/-- Where the instruction at an address stands in the program file. -/
def location (job : Job) (address : Nat) : String :=
  match job.program.lineOf? address with
  | some line => " (" ++ job.file ++ ":" ++ line.repr ++ ")"
  | none => ""

/-- The final state, where that is asked for. -/
def stateText (job : Job) (m : Machine) : String :=
  if job.options.json then m.snapshot.toJson ++ "\n" else ""

/-- The exit code of a run that did not fail. -/
def exitCode (job : Job) : HaltReason → Nat
  | .halted => if job.options.legacyExit then ExitCode.usage else ExitCode.success
  | .cycleLimit => ExitCode.cycleLimit

/-- The exit code of a run that ended with a result, and what is said about it. -/
def verdict (job : Job) (p : Palette) (m : Machine) : Except Fault Halt → Nat × String
  | .ok halt =>
    (job.exitCode halt.reason,
      match halt.reason with
      | .halted => ""
      | .cycleLimit =>
        p.warning ("stopped after " ++ halt.cycles.repr ++
          " cycles without reaching HLT (PC=" ++ Numeral.hexAddress 2 halt.pc ++ ")"))
  | .error e =>
    (ExitCode.fault, p.error ("Runtime error: " ++ e.message ++ job.location m.pc))

/-- What is said about the end of a run, behind what it has written. -/
def report (job : Job) (p : Palette) (o : Outcome Halt) : Response :=
  let (exit, said) := job.verdict p o.machine o.result
  ⟨exit, o.sinks.out.text ++ job.stateText o.machine, o.sinks.trace.text ++ said⟩

/-- **The response to a run.**  There is none if the program goes on for ever. -/
def response (job : Job) (p : Palette) : Option Response :=
  (job.machine.run .unlimited).map (job.report p)

end Job

end ByteMachine
