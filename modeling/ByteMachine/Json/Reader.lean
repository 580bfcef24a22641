/-
**Reading JSON texts character by character.**

A reader takes what is left of a text and gives a value and what is left behind it, or the first
error.  This module holds the readers of the smallest parts: white space, single characters, words
and texts in quotes.

Main definitions:

* `ByteMachine.Json.Reader` — readers;
* `ByteMachine.Json.look`, `advance`, `word`, `colon` — looking ahead and going on;
* `ByteMachine.Json.text` — a text in quotes with its escapes;
* `ByteMachine.Json.finish` — nothing but white space is left.
-/

import ByteMachine.Json.Error

set_option relaxedAutoImplicit false
set_option autoImplicit false

namespace ByteMachine

namespace Json

/-- **Readers.** -/
abbrev Reader := StateT (List Char) (Except Error)

/-! ### White space and single characters -/

/-- The white space of JSON. -/
def isSpace (c : Char) : Bool := c = ' ' || c = '\n' || c = '\t' || c = '\r'

/-- Skips white space and looks at the character behind it, which has to be there. -/
def look : Reader Char := fun cs =>
  match cs.dropWhile isSpace with
  | [] => .error .ended
  | c :: rest => .ok (c, c :: rest)

/-- Goes on behind the next character. -/
def advance : Reader Unit := modify List.tail

/-- Reads exactly these characters. -/
def word : List Char → Reader Unit
  | [] => pure ()
  | c :: more => do
    match ← get with
    | [] => throw .ended
    | d :: _ => if d = c then advance else throw .malformed
    word more

/-- Skips white space and reads exactly one character. -/
def symbol (c : Char) : Reader Unit := do
  if (← look) = c then advance else throw .malformed

/-- The colon between the name and the value of a member. -/
def colon : Reader Unit := symbol ':'

/-- Nothing but white space is left. -/
def finish : Reader Unit := do
  if ((← get).dropWhile isSpace).isEmpty then return () else throw .malformed

/-! ### Texts -/

/-- The value of a hexadecimal digit. -/
def hexDigit? (c : Char) : Option Nat :=
  if '0' ≤ c ∧ c ≤ '9' then some (c.toNat - '0'.toNat)
  else if 'a' ≤ c ∧ c ≤ 'f' then some (c.toNat - 'a'.toNat + 10)
  else if 'A' ≤ c ∧ c ≤ 'F' then some (c.toNat - 'A'.toNat + 10)
  else none

/-- The four digits of a `\u` escape.  A text with fewer than four bytes left ends too early. -/
def quad : List Char → Except Error (Nat × List Char)
  | a :: b :: c :: d :: rest =>
    match hexDigit? a, hexDigit? b, hexDigit? c, hexDigit? d with
    | some a, some b, some c, some d => .ok (((a * 16 + b) * 16 + c) * 16 + d, rest)
    | _, _, _, _ => .error .malformed
  | cs => .error (if cs.foldl (fun n c => n + c.utf8Size) 0 < 4 then .ended else .malformed)

/-- The second half of a pair that stands for one code point, after the first one. -/
def trailing (lead : Nat) : List Char → Except Error (Char × List Char)
  | [] => .error .ended
  | '\\' :: [] => .error .ended
  | '\\' :: 'u' :: rest => do
    let (n, rest) ← quad rest
    if 0xDC00 ≤ n ∧ n ≤ 0xDFFF then
      return (Char.ofNat (0x10000 + (lead - 0xD800) * 0x400 + (n - 0xDC00)), rest)
    else throw .malformed
  | _ => .error .malformed

/-- The characters that a backslash and one more character stand for. -/
def shortEscape? : Char → Option Char
  | '"' => some '"'
  | '\\' => some '\\'
  | '/' => some '/'
  | 'b' => some '\x08'
  | 'f' => some '\x0C'
  | 'n' => some '\n'
  | 'r' => some '\r'
  | 't' => some '\t'
  | _ => none

/-- What stands behind a backslash. -/
def escaped : List Char → Except Error (Char × List Char)
  | [] => .error .ended
  | 'u' :: rest => do
    let (n, rest) ← quad rest
    if 0xDC00 ≤ n ∧ n ≤ 0xDFFF then throw .malformed
    else if 0xD800 ≤ n ∧ n ≤ 0xDBFF then trailing n rest
    else return (Char.ofNat n, rest)
  | c :: rest =>
    match shortEscape? c with
    | some d => .ok (d, rest)
    | none => .error .malformed

theorem length_quad {cs rest : List Char} {n : Nat} (h : quad cs = .ok (n, rest)) :
    rest.length < cs.length := by
  unfold quad at h
  split at h
  · split at h
    · obtain ⟨rfl, rfl⟩ := Prod.mk.inj (Except.ok.inj h)
      simp only [List.length_cons]
      omega
    · cases h
  · cases h

theorem length_trailing {lead : Nat} {cs rest : List Char} {c : Char}
    (h : trailing lead cs = .ok (c, rest)) : rest.length < cs.length := by
  unfold trailing at h
  split at h
  · cases h
  · cases h
  · rename_i more
    cases hq : quad more with
    | error e => simp [hq, bind, Except.bind] at h
    | ok p =>
      simp only [hq, bind, Except.bind] at h
      split at h
      · obtain ⟨_, rfl⟩ := Prod.mk.inj (Except.ok.inj h)
        have := length_quad hq
        simp only [List.length_cons]
        omega
      · cases h
  · cases h

theorem length_escaped {cs rest : List Char} {c : Char} (h : escaped cs = .ok (c, rest)) :
    rest.length < cs.length := by
  unfold escaped at h
  split at h
  · cases h
  · rename_i more
    cases hq : quad more with
    | error e => simp [hq, bind, Except.bind] at h
    | ok p =>
      have hl := length_quad hq
      simp only [hq, bind, Except.bind] at h
      split at h
      · cases h
      · split at h
        · have := length_trailing h
          simp only [List.length_cons]
          omega
        · obtain ⟨_, rfl⟩ := Prod.mk.inj (Except.ok.inj h)
          simp only [List.length_cons]
          omega
  · split at h
    · obtain ⟨_, rfl⟩ := Prod.mk.inj (Except.ok.inj h)
      exact Nat.lt_succ_self _
    · cases h

/-- The characters of a text up to the closing quote, after the opening one. -/
def textBody (cs : List Char) : Except Error (List Char × List Char) :=
  match cs with
  | [] => .error .ended
  | '"' :: rest => .ok ([], rest)
  | '\\' :: rest =>
    match h : escaped rest with
    | .error e => .error e
    | .ok (c, rest') => do
      have := length_escaped h
      let (body, rest'') ← textBody rest'
      return (c :: body, rest'')
  | c :: rest =>
    if c.toNat < 0x20 then .error .malformed
    else do
      let (body, rest) ← textBody rest
      return (c :: body, rest)
  termination_by cs.length

/-- **A text**, after its opening quote. -/
def text : Reader String := fun cs => do
  let (body, rest) ← textBody cs
  return (String.ofList body, rest)

end Json

end ByteMachine
