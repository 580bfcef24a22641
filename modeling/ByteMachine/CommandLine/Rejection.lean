/-
**Command lines that are not carried out.**

An argument may be wrong, or it may ask for help or the version.  What is said of a wrong one is a
notice with marks for a terminal.  Its headline is the first line that a terminal shows of it, so a
sequence inside a quoted value is obeyed too, and may even swallow what follows the value.

Main definitions:

* `ByteMachine.Rejection` — why a command line is not carried out;
* `ByteMachine.Rejection.notice` — what is said of it;
* `ByteMachine.Rejection.headline` — the first line of that.
-/

import ByteMachine.CommandLine.Options
import ByteMachine.Text.Terminal

set_option relaxedAutoImplicit false
set_option autoImplicit false

namespace ByteMachine

/-- **Why a command line is not carried out.** -/
inductive Rejection where
  /-- An argument that is no option and no file. -/
  | unknownArgument
  /-- A command without its file. -/
  | missingFile
  /-- A setting does not take its value. -/
  | badValue (s : Setting) (value reason : String)
  /-- A setting without a value. -/
  | missingValue (s : Setting)
  /-- An option given twice. -/
  | repeated (label : String)
  /-- A value for an option that takes none. -/
  | unneededValue (label value : String)
  /-- A name of a command that does not exist. -/
  | unknownCommand (name : String)
  | help
  | version
  deriving DecidableEq, Repr

/-- The first line of a text. -/
def firstLine (s : String) : String :=
  let line := s.toList.takeWhile (· ≠ '\n')
  String.ofList <|
    if line.getLast? = some '\r' ∧ line.length < s.toList.length then line.dropLast else line

namespace Rejection

/-! ### Notices -/

/-- A value as a notice shows it. -/
def wrong (value : String) : String := Text.marked "33" value

/-- An option as a notice shows it. -/
def literal (label : String) : String := Text.marked "1" label

/-- The lines behind every notice. -/
def hint : String := "\n\nFor more information, try '" ++ literal "--help" ++ "'.\n"

/-- What is wrong with a command line.  Nothing is said for help and the version, nor where a file
name is all that is asked for. -/
def reason : Rejection → Option String
  | badValue s value why =>
    some ("invalid value '" ++ wrong value ++ "' for '" ++ literal s.label ++ "': " ++ why)
  | missingValue s =>
    some ("a value is required for '" ++ literal s.label ++ "' but none was supplied")
  | repeated label =>
    some ("the argument '" ++ literal label ++ "' cannot be used multiple times")
  | unneededValue label value =>
    some ("unexpected value '" ++ wrong value ++ "' for '" ++ literal label ++
      "' found; no more were expected")
  | unknownCommand name => some ("unrecognized subcommand '" ++ wrong name ++ "'")
  | unknownArgument | missingFile | help | version => none

/-- **What is said of a command line that is not carried out,** with its marks. -/
def notice (r : Rejection) : Option String :=
  r.reason.map fun reason => Text.marked "1;31" "error:" ++ " " ++ reason ++ hint

/-- **The first line that a terminal shows of the notice.** -/
def headline (r : Rejection) : Option String :=
  r.notice.map fun notice => firstLine (Text.visible notice)

end Rejection

end ByteMachine
