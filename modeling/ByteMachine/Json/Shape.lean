/-
**Reading values of a wanted shape.**

Readers for bounded natural numbers, truth values, names out of a list of choices, and for the
members and items of objects and arrays.  A value of another type is read as far as it takes to say
what it is: a word, a number or a text as a whole, an array or an object not at all.

Main definitions:

* `ByteMachine.Json.invalidType` — the error for a value of another type;
* `ByteMachine.Json.natural`, `byte`, `word64`, `boolean`, `optional`, `variant` — simple values;
* `ByteMachine.Json.members`, `moreItems` — the parts of objects and arrays.
-/

import ByteMachine.Json.Skip

set_option relaxedAutoImplicit false
set_option autoImplicit false

namespace ByteMachine

namespace Json

/-! ### Simple values -/

/-- Reads the value that begins with `c` as far as it takes to say what it is. -/
def found (c : Char) : Reader Found :=
  match c with
  | 'n' => do
    word "null".toList
    return .null
  | 't' => do
    word "true".toList
    return .boolean true
  | 'f' => do
    word "false".toList
    return .boolean false
  | '"' => do
    advance
    return .text (← text)
  | '[' => return .sequence
  | '{' => return .map
  | _ => if c = '-' || isDigit c then return .number (← number) else throw .malformed

/-- The error for a value, beginning with `c`, of another type than the expected one. -/
def invalidType {α : Type} (c : Char) (expected : String) : Reader α := do
  throw (.mismatch (.invalidType (← found c) expected))

/-- A natural number of at most `bound`. -/
def natural (bound : Nat) (expected : String) : Reader Nat := do
  let c ← look
  if c = '-' || isDigit c then
    match ← number with
    | .natural n =>
      if n ≤ bound then return n
      else throw (.mismatch (.invalidValue (.natural n) expected))
    | .negative n => throw (.mismatch (.invalidValue (.negative n) expected))
    | n => throw (.mismatch (.invalidType (.number n) expected))
  else invalidType c expected

/-- A byte. -/
def byte : Reader UInt8 := do return UInt8.ofNat (← natural 255 "u8")

/-- A number of 64 bits. -/
def word64 : Reader UInt64 := do return UInt64.ofNat (← natural (UInt64.size - 1) "u64")

/-- A truth value. -/
def boolean : Reader Bool := do
  match ← look with
  | 't' => do
    word "true".toList
    return true
  | 'f' => do
    word "false".toList
    return false
  | c => invalidType c "a boolean"

/-- The word `null`, or a value. -/
def optional {α : Type} (value : Reader α) : Reader (Option α) := do
  if (← look) = 'n' then
    word "null".toList
    return none
  else return some (← value)

/-- One of the known names. -/
def choice {α : Type} (known : List String) (ofName? : String → Option α) : Reader α := do
  let name ← text
  match ofName? name with
  | some a => return a
  | none => throw (.mismatch (.unknownVariant name known))

/-- **One of the known names,** as a text, or as the name of the only member of an object, whose
value is then `null`.  The name of a member has to be a text: an object that begins in another way
is no JSON, whatever stands there, and not a value of another shape. -/
def variant {α : Type} (known : List String) (ofName? : String → Option α) : Reader α := do
  match ← look with
  | '"' => do
    advance
    choice known ofName?
  | '{' => do
    advance
    symbol '"'
    let a ← choice known ofName?
    colon
    let c ← look
    if c = 'n' then word "null".toList else invalidType c "unit"
    symbol '}'
    return a
  | _ => throw .malformed

/-! ### Objects and arrays -/

/-- Whether another member follows, whose opening quote is then read.  The end of the object is left
where it is. -/
def moreMembers (first : Bool) : Reader Bool := do
  let c ← look
  if c = '}' then return false
  else if first then
    symbol '"'
    return true
  else
    symbol ','
    symbol '"'
    return true

/-- Reads members up to the end of an object, which is read too.  What a member does to the values
read so far is said by `read`, which is given its name and has to read the colon and the value. -/
def membersFrom {σ : Type} (read : String → σ → Reader σ) : Nat → Bool → σ → Reader σ
  | 0, _, _ => throw .malformed
  | fuel + 1, first, s => do
    if ← moreMembers first then
      let name ← text
      membersFrom read fuel false (← read name s)
    else return s

/-- **The members of an object,** after its opening brace and up to its closing one. -/
def members {σ : Type} (read : String → σ → Reader σ) (s : σ) : Reader σ := fun cs =>
  membersFrom read (cs.length + 1) true s cs

/-- Whether another item follows.  The end of the array is left where it is. -/
def moreItems (first : Bool) : Reader Bool := do
  let c ← look
  if c = ']' then return false
  else if first then return true
  else
    symbol ','
    if (← look) = ']' then throw .malformed else return true

/-- Reads one item after the other, as long as there are readers and items, and gives the number of
items read. -/
def itemsFrom {σ : Type} : Nat → List (σ → Reader σ) → σ → Reader (Nat × σ)
  | n, [], s => return (n, s)
  | n, read :: more, s => do
    if ← moreItems (n = 0) then itemsFrom (n + 1) more (← read s) else return (n, s)

/-- **The items of an array,** after its opening bracket. -/
def items {σ : Type} (readers : List (σ → Reader σ)) (s : σ) : Reader (Nat × σ) :=
  itemsFrom 0 readers s

/-- A whole text that holds one value. -/
def whole {α : Type} (value : Reader α) (source : String) : Except Error α :=
  ((do
    let a ← value
    finish
    return a : Reader α) source.toList).map Prod.fst

end Json

end ByteMachine
