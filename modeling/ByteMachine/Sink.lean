/-
**Sinks.**

A sink takes text.  It may have room for a limited number of bytes: a text that passes the room
left is taken up to it, and from then on nothing more is taken.  A sink may also be unable to pass
on what it took when it is flushed.

Main definitions:

* `ByteMachine.Sink`, `Sink.unlimited`, `Sink.limited` — a sink and what it has taken so far;
* `ByteMachine.Sink.write`, `Sink.flush` — writing and flushing, with the cause of a failure;
* `ByteMachine.Sink.text` — what was taken, as text;
* `ByteMachine.Sink.Error.message` — the causes in words.

Main results:

* `ByteMachine.Sink.write_fst_eq_ok_iff` — writing succeeds exactly if the whole text fits;
* `ByteMachine.Sink.taken_write_of_room` — a sink holds what it held and as much as fits.
-/

set_option relaxedAutoImplicit false
set_option autoImplicit false

namespace ByteMachine

/-- **A sink for text.** -/
structure Sink where
  /-- The bytes taken so far. -/
  taken : ByteArray
  /-- The number of bytes that it will still take; unlimited if there is none. -/
  room : Option Nat
  /-- Whether a flush fails. -/
  flushFails : Bool

namespace Sink

/-- Why a sink refuses. -/
inductive Error where
  /-- There is no room left. -/
  | closed
  /-- What was taken could not be passed on. -/
  | flushFailed
  deriving DecidableEq, Repr

/-- The cause in words. -/
def Error.message : Error → String
  | .closed => "sink closed"
  | .flushFailed => "flush failed"

/-- A sink that takes everything. -/
def unlimited : Sink := ⟨.empty, none, false⟩

/-- An empty sink with room for `room` bytes. -/
def limited (room : Nat) : Sink := ⟨.empty, some room, false⟩

/-- **Writes a text.**  If it does not fit, as many of its bytes as do are taken. -/
def write (s : Sink) (text : String) : Except Error Unit × Sink :=
  match s.room with
  | none => (.ok (), { s with taken := s.taken ++ text.toUTF8 })
  | some room =>
    (if text.utf8ByteSize ≤ room then .ok () else .error .closed,
      { s with
        taken := s.taken ++ text.toUTF8.extract 0 room
        room := some (room - text.utf8ByteSize) })

/-- Passes on what was taken. -/
def flush (s : Sink) : Except Error Unit :=
  if s.flushFails then .error .flushFailed else .ok ()

/-- The longest readable beginning of `bytes`, and whether bytes of a cut character follow; a
character has at most four bytes, so at most three are left over. -/
def readable (bytes : ByteArray) : Nat → String × Bool
  | 0 => ("", true)
  | n + 1 =>
    match String.fromUTF8? bytes with
    | some text => (text, false)
    | none => ((readable (bytes.extract 0 (bytes.size - 1)) n).1, true)

/-- What a sink took, as text.  A character cut off at its end shows as the replacement
character. -/
def text (s : Sink) : String :=
  match readable s.taken 4 with
  | (text, false) => text
  | (text, true) => text ++ "\uFFFD"

/-! ### What a sink holds -/

@[simp] theorem flushFails_write (s : Sink) (text : String) :
    (s.write text).2.flushFails = s.flushFails := by
  unfold write
  split <;> rfl

/-- A sink holds what it held and as much of the text as fits. -/
theorem taken_write_of_room {s : Sink} {room : Nat} (h : s.room = some room) (text : String) :
    (s.write text).2.taken = s.taken ++ text.toUTF8.extract 0 room := by
  simp [write, h]

theorem taken_write_of_unlimited {s : Sink} (h : s.room = none) (text : String) :
    (s.write text).2.taken = s.taken ++ text.toUTF8 := by
  simp [write, h]

/-- Writing succeeds exactly if the whole text fits. -/
theorem write_fst_eq_ok_iff {s : Sink} {text : String} :
    (s.write text).1 = .ok () ↔ ∀ room, s.room = some room → text.utf8ByteSize ≤ room := by
  unfold write
  split
  · simp_all
  · simp_all

end Sink

end ByteMachine
