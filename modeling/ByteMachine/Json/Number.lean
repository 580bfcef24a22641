/-
**Reading JSON numbers.**

The digits of a number are collected into a 64-bit significand; digits that would pass it only count
for the exponent if they stand before the point, and are dropped behind it.  A number without point,
exponent and lost digits is an integer.  Every other one is its significand, rounded to binary, times
or divided by a power of ten, rounded once more.

Main definitions:

* `ByteMachine.Json.significand` — the digits that fit, and those that do not;
* `ByteMachine.Json.decimal?` — a significand with a decimal exponent as a binary number;
* `ByteMachine.Json.number` — the reader.
-/

import ByteMachine.Json.Reader

set_option relaxedAutoImplicit false
set_option autoImplicit false

namespace ByteMachine

namespace Json

/-! ### Digits -/

/-- The decimal digits. -/
def isDigit (c : Char) : Bool := '0' ≤ c && c ≤ '9'

/-- The value of a decimal digit. -/
def digitValue (c : Char) : Nat := c.toNat - '0'.toNat

/-- Reads all the digits that follow. -/
def digits : Reader (List Nat) := do
  let cs ← get
  set (cs.dropWhile isDigit)
  return (cs.takeWhile isDigit).map digitValue

/-- Reads all the digits that follow, of which there has to be one. -/
def someDigits : Reader (List Nat) := do
  match ← get with
  | [] => throw .ended
  | c :: _ => if isDigit c then digits else throw .malformed

/-- Appends digits to a significand as long as it fits 64 bits, and gives those that are left. -/
def significand : Nat → List Nat → Nat × List Nat
  | s, [] => (s, [])
  | s, d :: ds => if s * 10 + d < UInt64.size then significand (s * 10 + d) ds else (s, d :: ds)

/-- Whether one of two characters comes next. -/
def next (c d : Char) : Reader Bool := do
  match ← get with
  | [] => return false
  | x :: _ => return x = c || x = d

/-! ### Powers of ten -/

/-- A power of ten, rounded. -/
def powerOfTen (k : Nat) : Binary64 := (Binary64.ofFraction? (Nat.pow 10 k) 1).getD .zero

/-- The greatest exponent of a power of ten that the format holds. -/
def maxPower : Nat := 308

/-- Divides `n` times by the greatest power of ten; zero stays as it is. -/
def divideByMaxPower : Nat → Binary64 → Option Binary64
  | 0, x => some x
  | n + 1, x =>
    if x.isZero then some x
    else
      match x.div? (powerOfTen maxPower) with
      | some y => divideByMaxPower n y
      | none => none

/-- Divides by a power of ten, in steps of at most the greatest one. -/
def divideByPower (x : Binary64) (k : Nat) : Option Binary64 :=
  let steps := (k - 1) / maxPower
  (divideByMaxPower steps x).bind fun y => y.div? (powerOfTen (k - steps * maxPower))

/-- `s · 10 ^ e`; none if it passes the format. -/
def decimal? (s : Nat) (e : Int) : Option Binary64 :=
  if s = 0 then some .zero
  else
    match Binary64.ofFraction? s 1 with
    | none => none
    | some x =>
      if e < 0 then divideByPower x e.natAbs
      else if e.toNat ≤ maxPower then x.mul? (powerOfTen e.toNat)
      else none

/-- `s · 10 ^ e`, which has to fit the format. -/
def decimal (s : Nat) (e : Int) : Reader Binary64 :=
  match decimal? s e with
  | some x => return x
  | none => throw .malformed

/-! ### Numbers -/

/-- The greatest exponent that is looked at. -/
def maxWrittenExponent : Nat := 0x7FFFFFFF

/-- The exponent of a number with the significand `s` and the exponent `e` so far. -/
def exponentPart (s : Nat) (e : Int) : Reader Binary64 := do
  advance
  let minus ← match ← get with
    | '+' :: _ => do advance; pure false
    | '-' :: _ => do advance; pure true
    | _ => pure false
  let written := (← someDigits).foldl (fun n d => n * 10 + d) 0
  if maxWrittenExponent < written then
    if s ≠ 0 ∧ !minus then throw .malformed else return .zero
  else decimal s (if minus then e - (written : Int) else e + (written : Int))

/-- The digits behind the point, and what follows them. -/
def fractionPart (s : Nat) (e : Int) : Reader Binary64 := do
  advance
  let ds ← someDigits
  let (s, lost) := significand s ds
  let e := e - ((ds.length : Int) - (lost.length : Int))
  if ← next 'e' 'E' then exponentPart s e else decimal s e

/-- A number without its sign: an integer or a floating-point number. -/
inductive Magnitude where
  | natural (n : Nat)
  | float (x : Binary64)
  deriving DecidableEq, Repr

/-- Reads a number without its sign.  A zero cannot be followed by a digit. -/
def magnitude : Reader Magnitude := do
  let start ← get
  let ds ← someDigits
  if start.head? = some '0' ∧ 1 < ds.length then throw .malformed
  let (s, lost) := significand 0 ds
  let e : Int := lost.length
  if ← next '.' '.' then return .float (← fractionPart s e)
  else if ← next 'e' 'E' then return .float (← exponentPart s e)
  else if lost = [] then return .natural s
  else return .float (← decimal s e)

/-- A number with a minus sign.  Zero and what passes the negative integers of 64 bits are
floating-point numbers. -/
def negate : Magnitude → Number
  | .natural n =>
    if 0 < n ∧ n ≤ 0x8000000000000000 then .negative n
    else .float true ((Binary64.ofFraction? n 1).getD .zero)
  | .float x => .float true x

/-- **A number.** -/
def number : Reader Number := do
  match ← get with
  | '-' :: _ =>
    advance
    return negate (← magnitude)
  | _ =>
    match ← magnitude with
    | .natural n => return .natural n
    | .float x => return .float false x

end Json

end ByteMachine
