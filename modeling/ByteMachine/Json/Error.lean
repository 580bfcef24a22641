/-
**What can be wrong with a JSON text.**

A text is read from left to right and the first problem found is the error.  It is of one of three
kinds: the text ends too early, it is not JSON, or it is JSON but not of the wanted shape.  Only for
the last kind is there more to say.

Main definitions:

* `ByteMachine.Json.Error` — the three kinds;
* `ByteMachine.Json.Mismatch`, `Mismatch.message` — the ways in which a value has not the wanted
  shape, and their wording;
* `ByteMachine.Json.Found` — what was found where something else was wanted.
-/

import ByteMachine.Number.Shortest
import ByteMachine.Text.Quoted

set_option relaxedAutoImplicit false
set_option autoImplicit false

namespace ByteMachine

namespace Json

/-- A number as JSON writes it: a natural number or a negative integer of 64 bits, or a
floating-point number. -/
inductive Number where
  | natural (n : Nat)
  /-- The negative of a positive number. -/
  | negative (n : Nat)
  | float (minus : Bool) (magnitude : Binary64)
  deriving DecidableEq, Repr

/-- What was found where something else was wanted. -/
inductive Found where
  /-- The word `null`. -/
  | null
  | boolean (b : Bool)
  | number (n : Number)
  | text (s : String)
  /-- The beginning of an array. -/
  | sequence
  /-- The beginning of an object. -/
  | map
  deriving DecidableEq, Repr

/-- How a value fails to have the wanted shape. -/
inductive Mismatch where
  /-- A value of another type. -/
  | invalidType (found : Found) (expected : String)
  /-- An integer out of range. -/
  | invalidValue (n : Number) (expected : String)
  /-- An array of another length. -/
  | invalidLength (length : Nat) (expected : String)
  /-- A name that is none of the known choices. -/
  | unknownVariant (name : String) (known : List String)
  /-- A member whose name is none of the known fields. -/
  | unknownField (name : String) (known : List String)
  /-- A member given twice. -/
  | duplicateField (name : String)
  /-- A member that is not there. -/
  | missingField (name : String)
  deriving DecidableEq, Repr

/-- **The first problem of a text.** -/
inductive Error where
  /-- The text ends too early. -/
  | ended
  /-- The text is not JSON. -/
  | malformed
  /-- The text is JSON so far, but not of the wanted shape. -/
  | mismatch (m : Mismatch)
  deriving DecidableEq, Repr

/-! ### Wording -/

/-- A number in words. -/
def Number.text : Number → String
  | .natural n => "integer `" ++ n.repr ++ "`"
  | .negative n => "integer `-" ++ n.repr ++ "`"
  | .float minus x => "floating point `" ++ (if minus then "-" else "") ++ x.text ++ "`"

/-- What was found, in words. -/
def Found.describe : Found → String
  | .null => "null"
  | .boolean b => "boolean `" ++ (if b then "true" else "false") ++ "`"
  | .number n => n.text
  | .text s => "string " ++ Text.quoted s
  | .sequence => "sequence"
  | .map => "map"

/-- A name between backquotes. -/
def backquoted (name : String) : String := "`" ++ name ++ "`"

/-- Known names as alternatives. -/
def alternatives : List String → String
  | [a, b] => backquoted a ++ " or " ++ backquoted b
  | names => "one of " ++ ", ".intercalate (names.map backquoted)

/-- The mismatch in words. -/
def Mismatch.message : Mismatch → String
  | .invalidType found expected =>
    "invalid type: " ++ found.describe ++ ", expected " ++ expected
  | .invalidValue n expected => "invalid value: " ++ n.text ++ ", expected " ++ expected
  | .invalidLength length expected =>
    "invalid length " ++ length.repr ++ ", expected " ++ expected
  | .unknownVariant name known =>
    "unknown variant `" ++ name ++ "`, expected " ++ alternatives known
  | .unknownField name known =>
    "unknown field `" ++ name ++ "`, expected " ++ alternatives known
  | .duplicateField name => "duplicate field `" ++ name ++ "`"
  | .missingField name => "missing field `" ++ name ++ "`"

end Json

end ByteMachine
