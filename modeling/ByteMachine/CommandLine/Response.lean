/-
**Responses of the program.**

What a call of the program ends with: an exit code and the texts for standard output and standard
error.  Diagnostics begin with a label, which is coloured unless the environment asks for plain
text.

Main definitions:

* `ByteMachine.Response` and the exit codes;
* `ByteMachine.Palette` — how diagnostics are written;
* `ByteMachine.Palette.error`, `Palette.warning` — diagnostics.
-/

import ByteMachine.Text.Terminal

set_option relaxedAutoImplicit false
set_option autoImplicit false

namespace ByteMachine

/-! ### Exit codes -/

namespace ExitCode

/-- Everything went well. -/
def success : Nat := 0

/-- The command line, the program text or the configuration is bad; also a halt, where that is asked
for. -/
def usage : Nat := 1

/-- The program file does not exist. -/
def notFound : Nat := 2

/-- The cycle limit was reached. -/
def cycleLimit : Nat := 3

/-- The machine failed. -/
def fault : Nat := 4

end ExitCode

/-! ### Responses -/

/-- **What a call of the program ends with.** -/
structure Response where
  exit : Nat
  stdout : String
  stderr : String
  deriving DecidableEq, Repr

/-! ### Diagnostics -/

/-- **How diagnostics are written.** -/
structure Palette where
  /-- Whether labels carry the terminal's codes for bold colours. -/
  isColoured : Bool
  /-- What stands behind the path of a configuration file with a text that holds no configuration:
  the words of a JSON library, and where in the text it has stopped.  Here it is a parameter. -/
  cause : String → String

namespace Palette

/-- With colours, and nothing said about causes. -/
def coloured : Palette := ⟨true, fun _ => ""⟩

/-- Without colours, and nothing said about causes. -/
def plain : Palette := ⟨false, fun _ => ""⟩

/-- A label in bold with the colour of a code. -/
def label (p : Palette) (code : String) (text : String) : String :=
  if p.isColoured then Text.marked ("1;" ++ code) text else text

/-- An error line. -/
def error (p : Palette) (message : String) : String :=
  p.label "31" "error:" ++ " " ++ message ++ "\n"

/-- A warning line. -/
def warning (p : Palette) (message : String) : String :=
  p.label "33" "warning:" ++ " " ++ message ++ "\n"

end Palette

end ByteMachine
