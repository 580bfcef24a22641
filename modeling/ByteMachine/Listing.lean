/-
**Listings.**

The disassembly of a program as a text, one line a row, each with the source line of its first byte.

Main definitions:

* `ByteMachine.Listing.lines` — the lines of a listing;
* `ByteMachine.Listing.write` — writing them to a sink, which is flushed at the end.
-/

import ByteMachine.Disassembly
import ByteMachine.Program
import ByteMachine.Sink

set_option relaxedAutoImplicit false
set_option autoImplicit false

namespace ByteMachine

namespace Listing

/-- The line of a row. -/
def rowLine (p : Program) (r : Row) : String :=
  Text.column 32 r.line ++ " ; line " ++ ((p.lineOf? r.address).getD 0).repr ++ "\n"

/-- **The lines of a listing:** a heading with the file name, an empty line, and the rows. -/
def lines (filename : String) (p : Program) : List String :=
  ("Disassembly of '" ++ filename ++ "':\n") :: "\n" :: (disassemble p.bytes).map (rowLine p)

/-- Writes texts one after the other, as long as the sink takes them. -/
def writeAll : List String → Sink → Except Sink.Error Unit × Sink
  | [], s => (.ok (), s)
  | text :: more, s =>
    match s.write text with
    | (.ok (), s) => writeAll more s
    | (.error e, s) => (.error e, s)

/-- **Writes a listing** and flushes the sink. -/
def write (filename : String) (p : Program) (s : Sink) : Except Sink.Error Unit × Sink :=
  match writeAll (lines filename p) s with
  | (.ok (), s) => (s.flush, s)
  | (.error e, s) => (.error e, s)

end Listing

end ByteMachine
