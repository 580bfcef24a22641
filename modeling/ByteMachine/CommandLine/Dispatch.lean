/-
**The whole program.**

A command line is read and its command carried out.  A file without a command is run; without
either, and where a command line has too many files or too few, the program only asks for a file.

Main definitions:

* `ByteMachine.Invocation.task`, `ByteMachine.Task` — what has to be done;
* `ByteMachine.Rejection.response` — the response to a command line that is not carried out;
* `ByteMachine.respond` — the response to the arguments of a call.
-/

import ByteMachine.CommandLine.Arguments
import ByteMachine.CommandLine.Inspect

set_option relaxedAutoImplicit false
set_option autoImplicit false

namespace ByteMachine

/-- The response where a file name is missing or one too many. -/
def needFileName : Response := ⟨ExitCode.usage, "Need file name!\n", ""⟩

/-- The version line. -/
def versionText : String := "ls8 0.3.2\n"

/-- How the program is used, line by line. -/
def helpLines : List String := [
  "LS-8 emulator",
  "",
  "Loads a program of binary literals (one byte per line, `#` comments) into",
  "memory at address 0 and executes it until HLT.",
  "",
  "Usage: ls8 [OPTIONS] [FILE] [COMMAND]",
  "",
  "Commands:",
  "  run          Run a program file",
  "  check        Parse a program without running it",
  "  disassemble  Disassemble a program",
  "  help         Print this message",
  "",
  "Options:",
  "      --trace              Print a trace line to stderr before every instruction",
  "      --max-cycles <N>     Stop after N instructions",
  "      --stack-top <ADDR>   Initial stack pointer (decimal, 0x.. or 0b..)",
  "      --overflow <POLICY>  ADD/MUL overflow policy: wrap, saturate or trap",
  "      --legacy-jumps       Taken JMP/JEQ/JNE push a return address like CALL",
  "      --config <FILE>      JSON machine configuration; flags override its values",
  "      --legacy-exit        Exit with status 1 after HLT",
  "      --json               Print the final machine state as JSON",
  "  -h, --help               Print help",
  "  -V, --version            Print version"]

/-- How the program is used. -/
def helpText : String := "\n".intercalate helpLines ++ "\n"

/-- The response to a command line that is not carried out.  Of a notice only the headline is
printed: what stands below it — hints, tips and the usage, in the words of the library that reads
command lines — is left out. -/
def Rejection.response : Rejection → Response
  | help => ⟨ExitCode.success, helpText, ""⟩
  | version => ⟨ExitCode.success, versionText, ""⟩
  | r =>
    match r.headline with
    | some line => ⟨ExitCode.usage, "", line ++ "\n"⟩
    | none => needFileName

/-- **What has to be done.** -/
inductive Task where
  | run (file : String)
  | check (file : String)
  | disassemble (file : String)
  | askForFile
  deriving DecidableEq, Repr

/-- What an accepted command line asks for. -/
def Invocation.task (i : Invocation) : Task :=
  match i.command, i.input with
  | some (.run, file), _ => .run file
  | some (.check, file), _ => .check file
  | some (.disassemble, file), _ => .disassemble file
  | none, some file => .run file
  | none, none => .askForFile

/-- What an accepted command line comes down to: a response, or a run that can be started. -/
inductive Plan where
  /-- There is nothing to run. -/
  | answer (r : Response)
  /-- There is a run to start. -/
  | start (job : Job)

/-- What an accepted command line comes down to. -/
def Invocation.plan (i : Invocation) (files : Files) (p : Palette) : Plan :=
  match i.task with
  | .run file =>
    match Job.prepare files p i.options file with
    | .error r => .answer r
    | .ok job => .start job
  | .check file => .answer (checkFile files p file)
  | .disassemble file => .answer (disassembleFile files p file)
  | .askForFile => .answer needFileName

/-- The response to an accepted command line. -/
def Invocation.respond (i : Invocation) (files : Files) (p : Palette) : Option Response :=
  match i.plan files p with
  | .answer r => some r
  | .start job => job.response p

/-- The files that an accepted command line may need. -/
def Invocation.paths (i : Invocation) : List String :=
  i.options.config.toList ++
    match i.task with
    | .run file | .check file | .disassemble file => [file]
    | .askForFile => []

/-- **The response to the arguments of a call.**  There is none if the program goes on for ever. -/
def respond (files : Files) (p : Palette) (arguments : List String) : Option Response :=
  match Invocation.ofArguments arguments with
  | .error r => some r.response
  | .ok i => i.respond files p

end ByteMachine
