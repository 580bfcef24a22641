/-
**Reading a program text.**

A line of a program text may hold blanks, then eight binary digits, then blanks, then a comment;
each of them may be missing.  Blanks are spaces and tabs, and a comment runs from `#` to the end of
the line.  If a line has another form, reading fails at the character that does not fit: the first
one behind the blanks at the beginning of the line, or, if eight digits stand there, behind these
and the blanks that follow.

Main definitions:

* `ByteMachine.readLine` — the byte of a line, if it has one;
* `ByteMachine.Program.parse` — the program of a text;
* `ByteMachine.SourceError`, `SourceError.message` — where and on which line a text does not fit.
-/

import ByteMachine.Program
import ByteMachine.Program.Source
import ByteMachine.Text.Blank

set_option relaxedAutoImplicit false
set_option autoImplicit false

namespace ByteMachine

/-! ### One line -/

/-- The blanks of a line. -/
def isBlank (c : Char) : Bool := c = ' ' || c = '\t'

/-- Reads `n` binary digits after those with value `acc`, and gives the rest. -/
def readBits : Nat → Nat → List Char → Option (Nat × List Char)
  | 0, acc, cs => some (acc, cs)
  | n + 1, acc, '0' :: cs => readBits n (2 * acc) cs
  | n + 1, acc, '1' :: cs => readBits n (2 * acc + 1) cs
  | _, _, _ => none

/-- What may follow the byte of a line: nothing, or a comment.  If it is something else, it is
given back. -/
def lineEnd (byte : Option UInt8) (rest : List Char) : Except (List Char) (Option UInt8) :=
  match rest with
  | [] => .ok byte
  | c :: _ => if c = '#' then .ok byte else .error rest

/-- **The byte of a line**, if it has one.  If the line does not have the form, what is left of it
is given back, beginning with the character that does not fit. -/
def readLine (content : List Char) : Except (List Char) (Option UInt8) :=
  let rest := content.dropWhile isBlank
  match readBits 8 0 rest with
  | some (value, rest) => lineEnd (some (UInt8.ofNat value)) (rest.dropWhile isBlank)
  | none => lineEnd none rest

/-! ### A whole text -/

/-- **Where a program text does not have the form.** -/
structure SourceError where
  /-- The position of the character that does not fit. -/
  position : Position
  /-- The line it stands on, without white space at its ends. -/
  text : String
  deriving DecidableEq, Repr

/-- The error in words. -/
def SourceError.message (e : SourceError) : String :=
  "Invalid program line " ++ e.position.line.repr ++ ", column " ++ e.position.column.repr ++
    ": '" ++ e.text ++ "'"

/-- The literals of lines, the first of which begins at a position; or the position of the first
character that does not fit. -/
def readLines : Position → List SourceLine → Except Position (List Literal)
  | _, [] => .ok []
  | p, l :: more =>
    match readLine l.content with
    | .error rest => .error (p.after (l.content.take (l.content.length - rest.length)))
    | .ok byte =>
      match readLines (p.after l.text) more with
      | .error q => .error q
      | .ok literals => .ok ((byte.map fun b => ⟨b, p.line⟩).toList ++ literals)

/-- The text of a line, where only `\n` ends lines, without white space at its ends. -/
def lineText (cs : List Char) (line : Nat) : String :=
  String.ofList (Text.trim ((cs.splitOn '\n').getD (line - 1) []))

/-- **The program of a text.** -/
def Program.parse (source : String) : Except SourceError Program :=
  match readLines .start (SourceLine.cut source.toList) with
  | .ok literals => .ok ⟨literals⟩
  | .error p => .error ⟨p, lineText source.toList p.line⟩

end ByteMachine
