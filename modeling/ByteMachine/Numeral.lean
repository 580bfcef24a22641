/-
**Numerals in a chosen base.**

Every number the library prints goes through `Nat.toDigits`, padded on the left with zeros where a
column asks for it.  Every unsigned number it reads goes through `Numeral.read`: an optional plus
sign and at least one digit, with an upper bound for the value.  Reading stops at the first
character at which it cannot go on, so of two faults in one numeral the earlier one is reported.

Main definitions:

* `ByteMachine.Numeral.padded`, `hexAddress`, `hexByte`, `binaryByte` — the written forms;
* `ByteMachine.Numeral.digitValue?` — the value of one digit character;
* `ByteMachine.Numeral.read` — the value of a numeral, or the cause of its rejection;
* `ByteMachine.Numeral.Error.message` — the causes in words.
-/

set_option relaxedAutoImplicit false
set_option autoImplicit false

namespace ByteMachine

namespace Numeral

/-! ### Writing -/

/-- The digits of `n` in base `base`, with leading zeros up to `width` digits. -/
def padded (base width n : Nat) : List Char :=
  (Nat.toDigits base n).leftpad width '0'

/-- A number in lower-case hexadecimal after `0x`, with at least `width` digits. -/
def hexAddress (width n : Nat) : String :=
  "0x" ++ String.ofList (padded 16 width n)

/-- A number in upper-case hexadecimal with at least two digits. -/
def hexByte (n : Nat) : String :=
  String.ofList ((padded 16 2 n).map Char.toUpper)

/-- A byte as `0b` and eight binary digits. -/
def binaryByte (b : UInt8) : String :=
  "0b" ++ String.ofList (padded 2 8 b.toNat)

/-! ### Reading -/

/-- Why a text is not a numeral of the wanted kind. -/
inductive Error where
  /-- There is nothing to read. -/
  | empty
  /-- A character is no digit of the base. -/
  | invalidDigit
  /-- The value passes the bound. -/
  | tooLarge
  deriving DecidableEq, Repr

/-- The cause in words. -/
def Error.message : Error → String
  | .empty => "cannot parse integer from empty string"
  | .invalidDigit => "invalid digit found in string"
  | .tooLarge => "number too large to fit in target type"

/-- The value of a digit character: `0`–`9`, then the letters in either case. -/
def digitValue? (c : Char) : Option Nat :=
  if '0' ≤ c ∧ c ≤ '9' then some (c.toNat - '0'.toNat)
  else if 'a' ≤ c ∧ c ≤ 'z' then some (c.toNat - 'a'.toNat + 10)
  else if 'A' ≤ c ∧ c ≤ 'Z' then some (c.toNat - 'A'.toNat + 10)
  else none

/-- Goes on reading digits after those with value `acc`. -/
def readDigits (base bound : Nat) : Nat → List Char → Except Error Nat
  | acc, [] => .ok acc
  | acc, c :: cs =>
    match digitValue? c with
    | none => .error .invalidDigit
    | some d =>
      if base ≤ d then .error .invalidDigit
      else if bound < acc * base + d then .error .tooLarge
      else readDigits base bound (acc * base + d) cs

/-- **Reading an unsigned numeral** of value at most `bound`.  One plus sign may stand in front;
a sign without digits is an invalid digit. -/
def read (base bound : Nat) : List Char → Except Error Nat
  | [] => .error .empty
  | ['+'] => .error .invalidDigit
  | '+' :: cs => readDigits base bound 0 cs
  | cs => readDigits base bound 0 cs

@[simp] theorem readDigits_nil (base bound acc : Nat) :
    readDigits base bound acc [] = .ok acc := rfl

@[simp] theorem read_nil (base bound : Nat) : read base bound [] = .error .empty := rfl

end Numeral

end ByteMachine
