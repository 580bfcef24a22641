/-
**Files.**

All that the library knows of files is what reading one as a text gives: the text, or the reason why
there is none.

Main definitions:

* `ByteMachine.Files` — what reading each path gives;
* `ByteMachine.ReadError`, `ReadError.message` — the reasons, in the words of the system.
-/

set_option relaxedAutoImplicit false
set_option autoImplicit false

namespace ByteMachine

/-- Why a path cannot be read as a text. -/
inductive ReadError where
  | notFound
  /-- The path goes through a file. -/
  | notDirectory
  | isDirectory
  /-- The bytes are no text. -/
  | notText
  /-- Another reason, in words. -/
  | other (reason : String)
  deriving DecidableEq, Repr

/-- The reason in the words of the system. -/
def ReadError.message : ReadError → String
  | .notFound => "No such file or directory (os error 2)"
  | .notDirectory => "Not a directory (os error 20)"
  | .isDirectory => "Is a directory (os error 21)"
  | .notText => "stream did not contain valid UTF-8"
  | .other reason => reason

/-- **What reading each path gives.** -/
abbrev Files := String → Except ReadError String

end ByteMachine
