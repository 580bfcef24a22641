/-
**Quoted texts.**

A text in double quotes, as error messages show it: quotes, backslashes and the common controls are
written with a backslash, every other character that does not show by its code point.

Main definitions:

* `ByteMachine.Text.escape` — the written form of one character;
* `ByteMachine.Text.quoted` — a text in quotes.
-/

import ByteMachine.Text.Hidden

set_option relaxedAutoImplicit false
set_option autoImplicit false

namespace ByteMachine

namespace Text

/-- The written form of a character in a quoted text. -/
def escape (c : Char) : List Char :=
  if c = '"' then ['\\', '"']
  else if c = '\\' then ['\\', '\\']
  else if c = '\n' then ['\\', 'n']
  else if c = '\r' then ['\\', 'r']
  else if c = '\t' then ['\\', 't']
  else if c = '\x00' then ['\\', '0']
  else if isHidden c then ['\\', 'u', '\x7b'] ++ Nat.toDigits 16 c.toNat ++ ['\x7d']
  else [c]

/-- A text in quotes. -/
def quoted (s : String) : String :=
  "\"" ++ String.ofList (s.toList.flatMap escape) ++ "\""

end Text

end ByteMachine
