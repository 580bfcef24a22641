/-
**What a terminal shows of a text.**

A terminal obeys some parts of a text instead of showing them: control characters, and the sequences
that begin with an escape character.  A short sequence ends with its last character; a string goes
on until it is terminated, and another escape character ends either.

White space is shown as it stands, also inside a short sequence.  It suspends the sequence: what
follows is shown as ordinary text up to the next control character, and there the sequence goes on
where it was left.  A character outside of ASCII that is shown meanwhile ends it for good.

Main definitions:

* `ByteMachine.Text.marked` — a text in a colour or weight;
* `ByteMachine.Text.Sequence`, `Sequence.advance` — how far a sequence has been read;
* `ByteMachine.Text.Display`, `Display.shows`, `Display.after` — what one more character does;
* `ByteMachine.Text.visible` — the text without what is obeyed.
-/

set_option relaxedAutoImplicit false
set_option autoImplicit false

namespace ByteMachine

namespace Text

/-- A text between the sequence that turns a mark on and the one that turns all marks off. -/
def marked (mark : String) (s : String) : String := "\x1b[" ++ mark ++ "m" ++ s ++ "\x1b[0m"

/-! ### Characters -/

/-- White space that is a control character and is shown nevertheless. -/
def isLayout (c : Char) : Bool := c = '\t' || c = '\n' || c = '\x0C' || c = '\r'

/-- Whether a character is shown outside of sequences. -/
def isShown (c : Char) : Bool := isLayout c || (0x20 ≤ c.toNat && c.toNat ≠ 0x7F)

/-- Whether a character has a code from `first` to `last`. -/
def codeIn (first last : Nat) (c : Char) : Bool := first ≤ c.toNat && c.toNat ≤ last

/-- Whether the encoding of a character contains the byte that terminates a string. -/
def holdsTerminator (c : Char) : Bool := (String.utf8EncodeChar c).contains 0x9C

/-! ### Sequences -/

/-- **How far a sequence has been read.** -/
inductive Sequence where
  /-- Outside of sequences. -/
  | ground
  /-- Behind an escape character. -/
  | escape
  /-- Behind an escape character and some that have to be followed by others. -/
  | escapeMore
  /-- Inside a control sequence. -/
  | control
  /-- At the head of a device string. -/
  | device
  /-- Behind a parameter in the head of a device string. -/
  | deviceParameter
  /-- Behind the parameters in the head of a device string. -/
  | deviceMore
  /-- Inside a string that ends with a terminator. -/
  | string
  /-- Inside a command to the system, which ends with a bell. -/
  | command
  deriving DecidableEq, Repr

namespace Sequence

/-- Whether layout is shown inside the sequence. -/
def yieldsToLayout : Sequence → Bool
  | ground | escape | escapeMore | control => true
  | device | deviceParameter | deviceMore | string | command => false

/-- How far the sequence has been read with one more character. -/
def advance (s : Sequence) (c : Char) : Sequence :=
  if c = '\x1b' then escape
  else if c = '\x18' || c = '\x1a' then ground
  else match s with
  | ground => ground
  | escape =>
    if c = '[' then control
    else if c = ']' then command
    else if c = 'P' then device
    else if c = 'X' || c = '^' || c = '_' then string
    else if codeIn 0x20 0x2F c then escapeMore
    else if codeIn 0x30 0x7E c then ground
    else escape
  | escapeMore => if codeIn 0x30 0x7E c then ground else escapeMore
  | control => if codeIn 0x40 0x7E c then ground else control
  | device =>
    if codeIn 0x20 0x2F c then deviceMore
    else if codeIn 0x30 0x3F c then deviceParameter
    else if codeIn 0x40 0x7E c then string
    else device
  | deviceParameter =>
    if codeIn 0x20 0x2F c then deviceMore
    else if codeIn 0x3C 0x7E c then string
    else deviceParameter
  | deviceMore => if codeIn 0x30 0x7E c then string else deviceMore
  | string => if holdsTerminator c then ground else string
  | command => if c = '\x07' then ground else command

end Sequence

/-! ### Texts -/

/-- **What a terminal has made of a text so far.** -/
structure Display where
  /-- How far a sequence has been read. -/
  sequence : Sequence
  /-- Whether it is suspended. -/
  suspended : Bool
  deriving DecidableEq, Repr

namespace Display

/-- Outside of sequences. -/
def clear : Display := ⟨.ground, false⟩

/-- Whether one more character is shown. -/
def shows (d : Display) (c : Char) : Bool :=
  isShown c &&
    (d.suspended || d.sequence = .ground || (d.sequence.yieldsToLayout && isLayout c))

/-- The display after one more character. -/
def after (d : Display) (c : Char) : Display :=
  if d.shows c then ⟨if c.toNat < 0x80 then d.sequence else .ground, true⟩
  else ⟨d.sequence.advance c, false⟩

end Display

/-- What a display shows of the characters that follow. -/
def visibleFrom : Display → List Char → List Char
  | _, [] => []
  | d, c :: cs => if d.shows c then c :: visibleFrom (d.after c) cs else visibleFrom (d.after c) cs

/-- **What a terminal shows of a text.** -/
def visible (s : String) : String := String.ofList (visibleFrom .clear s.toList)

end Text

end ByteMachine
