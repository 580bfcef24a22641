/-
**Loading programs from files.**

Main definitions:

* `ByteMachine.Program.load` — the program of a file;
* `ByteMachine.LoadError`, `LoadError.message` — why there is none.
-/

import ByteMachine.Files
import ByteMachine.Program.Parser

set_option relaxedAutoImplicit false
set_option autoImplicit false

namespace ByteMachine

/-- Why a file holds no program. -/
inductive LoadError where
  /-- There is no file. -/
  | notFound (path : String)
  /-- The file cannot be read. -/
  | unreadable (path : String) (reason : ReadError)
  /-- The text of the file is no program. -/
  | source (e : SourceError)
  deriving DecidableEq, Repr

namespace LoadError

/-- The error in words. -/
def message : LoadError → String
  | notFound path => "File not found: " ++ path
  | unreadable path reason => "Error reading file '" ++ path ++ "': " ++ reason.message
  | source e => e.message

/-- The source line at which the error points, if it points at one. -/
def line? : LoadError → Option Nat
  | source e => some e.position.line
  | _ => none

end LoadError

/-- **The program of a file.** -/
def Program.load (files : Files) (path : String) : Except LoadError Program :=
  match files path with
  | .error .notFound => .error (.notFound path)
  | .error reason => .error (.unreadable path reason)
  | .ok text =>
    match Program.parse text with
    | .ok p => .ok p
    | .error e => .error (.source e)

end ByteMachine
