/-
**Looking at a program without running it.**

Main definitions:

* `ByteMachine.checkFile` — whether a file holds a program that memory can hold, and how much of it
  is instructions;
* `ByteMachine.disassembleFile` — the listing of a file.
-/

import ByteMachine.CommandLine.Run
import ByteMachine.Listing

set_option relaxedAutoImplicit false
set_option autoImplicit false

namespace ByteMachine

/-- The number of rows that hold a byte which is not decoded. -/
def undecodedCount (rows : List Row) : Nat := rows.countP (·.content.isData)

/-- What is said about a program that memory can hold. -/
def checkReport (p : Palette) (program : Program) : Response :=
  let rows := disassemble program.bytes
  let undecoded := undecodedCount rows
  ⟨ExitCode.success,
    "✓ Syntax OK\n✓ " ++ program.size.repr ++ " bytes, " ++ (rows.length - undecoded).repr ++
      " instructions\n",
    if 0 < undecoded then
      p.warning (undecoded.repr ++ " bytes do not decode as instructions")
    else ""⟩

/-- **Checks a file.** -/
def checkFile (files : Files) (p : Palette) (file : String) : Response :=
  match Program.load files file with
  | .error e => e.response p
  | .ok program =>
    if program.size ≤ Memory.size then checkReport p program
    else
      ⟨ExitCode.usage, "", p.error ("'" ++ file ++ "' is " ++ program.size.repr ++
        " bytes; memory holds " ++ Memory.size.repr)⟩

/-- **Lists a file.** -/
def disassembleFile (files : Files) (p : Palette) (file : String) : Response :=
  match Program.load files file with
  | .error e => e.response p
  | .ok program =>
    match Listing.write file program .unlimited with
    | (.ok (), sink) => ⟨ExitCode.success, sink.text, ""⟩
    | (.error e, sink) =>
      ⟨ExitCode.usage, sink.text, p.error ("Error writing disassembly: " ++ e.message)⟩

end ByteMachine
