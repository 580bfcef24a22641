/-
**Byte literals.**

A byte on the command line is a numeral of value at most 255: hexadecimal after `0x`, binary after
`0b`, decimal otherwise.

Main definitions:

* `ByteMachine.ByteLiteral.read` — the byte of a literal;
* `ByteMachine.ByteLiteral.message` — what is said of a text that is none.
-/

import ByteMachine.Numeral

set_option relaxedAutoImplicit false
set_option autoImplicit false

namespace ByteMachine

namespace ByteLiteral

/-- The base of a literal, and its text behind the mark of the base. -/
def split : List Char → Nat × List Char
  | '0' :: 'x' :: cs => (16, cs)
  | '0' :: 'X' :: cs => (16, cs)
  | '0' :: 'b' :: cs => (2, cs)
  | '0' :: 'B' :: cs => (2, cs)
  | cs => (10, cs)

/-- **The byte of a literal.** -/
def read (s : String) : Except Numeral.Error UInt8 :=
  let (base, cs) := split s.toList
  (Numeral.read base 255 cs).map UInt8.ofNat

/-- What is said of a text that is no literal. -/
def message (s : String) (e : Numeral.Error) : String :=
  "invalid address '" ++ s ++ "': " ++ e.message

end ByteLiteral

end ByteMachine
