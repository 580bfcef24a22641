/-
**Skipping JSON values.**

A value that nobody asks for is read past: it has to be well formed, but its numbers may be of any
size and its texts may hold any escape with four hexadecimal digits.  In a skipped number a missing
digit is malformed also at the end of the text.

Main definitions:

* `ByteMachine.Json.skipText`, `skipNumber` — skipping texts and numbers;
* `ByteMachine.Json.skip` — skipping a value.
-/

import ByteMachine.Json.Number

set_option relaxedAutoImplicit false
set_option autoImplicit false

namespace ByteMachine

namespace Json

/-! ### Texts and numbers -/

/-- Skips what stands behind a backslash. -/
def skipEscaped : List Char → Except Error (List Char)
  | [] => .error .ended
  | 'u' :: rest => (quad rest).map Prod.snd
  | c :: rest => if (shortEscape? c).isSome then .ok rest else .error .malformed

theorem length_skipEscaped {cs rest : List Char} (h : skipEscaped cs = .ok rest) :
    rest.length < cs.length := by
  unfold skipEscaped at h
  split at h
  · cases h
  · rename_i more
    cases hq : quad more with
    | error e => simp [hq, Except.map] at h
    | ok p =>
      obtain ⟨n, q⟩ := p
      simp only [hq, Except.map, Except.ok.injEq] at h
      subst h
      have := length_quad hq
      simp only [List.length_cons]
      omega
  · split at h
    · obtain rfl := Except.ok.inj h
      exact Nat.lt_succ_self _
    · cases h

/-- Skips a text up to its closing quote, after the opening one. -/
def skipText (cs : List Char) : Except Error (List Char) :=
  match cs with
  | [] => .error .ended
  | '"' :: rest => .ok rest
  | '\\' :: rest =>
    match h : skipEscaped rest with
    | .error e => .error e
    | .ok rest' =>
      have := length_skipEscaped h
      skipText rest'
  | c :: rest => if c.toNat < 0x20 then .error .malformed else skipText rest
  termination_by cs.length

/-- Skips at least one digit. -/
def skipDigits (cs : List Char) : Except Error (List Char) :=
  match cs with
  | [] => .error .malformed
  | c :: rest => if isDigit c then .ok (rest.dropWhile isDigit) else .error .malformed

/-- Skips an exponent, if there is one. -/
def skipExponent (cs : List Char) : Except Error (List Char) :=
  match cs with
  | c :: rest =>
    if c = 'e' ∨ c = 'E' then
      match rest with
      | s :: more => if s = '+' ∨ s = '-' then skipDigits more else skipDigits rest
      | [] => .error .malformed
    else .ok cs
  | [] => .ok []

/-- Skips a point with the digits behind it, if there is one. -/
def skipFraction (cs : List Char) : Except Error (List Char) :=
  match cs with
  | '.' :: rest => skipDigits rest
  | _ => .ok cs

/-- Skips a number without its sign. -/
def skipNumber (cs : List Char) : Except Error (List Char) := do
  let rest ← match cs with
    | '0' :: c :: rest => if isDigit c then .error .malformed else .ok (c :: rest)
    | _ => skipDigits cs
  skipExponent (← skipFraction rest)

/-! ### Values -/

/-- A reader that only goes on. -/
def skipping (f : List Char → Except Error (List Char)) : Reader Unit := fun cs =>
  (f cs).map fun rest => ((), rest)

mutual

/-- Skips a value.  Each value and each list of items takes one of `fuel`. -/
def skipValue : Nat → Reader Unit
  | 0 => throw .malformed
  | fuel + 1 => do
    match ← look with
    | 'n' => word "null".toList
    | 't' => word "true".toList
    | 'f' => word "false".toList
    | '"' => do
      advance
      skipping skipText
    | '-' => do
      advance
      skipping skipNumber
    | '[' => do
      advance
      if (← look) = ']' then advance else skipItems fuel
    | '{' => do
      advance
      if (← look) = '}' then advance else skipMembers fuel
    | c => if isDigit c then skipping skipNumber else throw .malformed

/-- Skips the items of an array, of which there is at least one, and its end. -/
def skipItems : Nat → Reader Unit
  | 0 => throw .malformed
  | fuel + 1 => do
    skipValue fuel
    match ← look with
    | ']' => advance
    | ',' => do
      advance
      skipItems fuel
    | _ => throw .malformed

/-- Skips the members of an object, of which there is at least one, and its end. -/
def skipMembers : Nat → Reader Unit
  | 0 => throw .malformed
  | fuel + 1 => do
    symbol '"'
    skipping skipText
    colon
    skipValue fuel
    match ← look with
    | '}' => advance
    | ',' => do
      advance
      skipMembers fuel
    | _ => throw .malformed

end

/-- **Skips a value.**  Every two uses of fuel go on by at least one character. -/
def skip : Reader Unit := fun cs => skipValue (2 * cs.length + 2) cs

end Json

end ByteMachine
