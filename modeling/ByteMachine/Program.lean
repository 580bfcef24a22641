/-
**Program images.**

A program is the list of its literals: bytes in load order, each with the number of the source line
it was written on.  The position in the list is the address the byte is loaded at.

Main definitions:

* `ByteMachine.Program`, `Program.push`, `Program.ofBytes` — images and how they are built;
* `ByteMachine.Program.bytes`, `Program.lineOf?` — the bytes and the source lines by address.

Main results:

* `ByteMachine.Program.lineOf?_isSome_iff` — exactly the addresses of the image have a line.
-/

set_option relaxedAutoImplicit false
set_option autoImplicit false

namespace ByteMachine

/-- A byte of a program and the line it was written on, counted from one. -/
structure Literal where
  value : UInt8
  line : Nat
  deriving DecidableEq, Repr

/-- **A program image.** -/
structure Program where
  /-- The literals in load order. -/
  literals : List Literal
  deriving DecidableEq, Repr

namespace Program

/-- The program without bytes. -/
def empty : Program := ⟨[]⟩

/-- Appends a byte written on the given line. -/
def push (p : Program) (value : UInt8) (line : Nat) : Program :=
  ⟨p.literals ++ [⟨value, line⟩]⟩

/-- The program of bare bytes, as if each stood on a line of its own. -/
def ofBytes (bytes : List UInt8) : Program :=
  ⟨bytes.mapIdx fun i b => ⟨b, i + 1⟩⟩

/-- The bytes in load order. -/
def bytes (p : Program) : List UInt8 := p.literals.map (·.value)

/-- The number of bytes. -/
def size (p : Program) : Nat := p.literals.length

/-- Whether there are no bytes. -/
def isEmpty (p : Program) : Bool := p.literals.isEmpty

/-- The source line of the byte loaded at an address. -/
def lineOf? (p : Program) (address : Nat) : Option Nat := p.literals[address]?.map (·.line)

@[simp] theorem length_bytes (p : Program) : p.bytes.length = p.size := by
  simp [bytes, size]

@[simp] theorem bytes_push (p : Program) (value : UInt8) (line : Nat) :
    (p.push value line).bytes = p.bytes ++ [value] := by
  simp [bytes, push]

@[simp] theorem bytes_ofBytes (bytes : List UInt8) : (ofBytes bytes).bytes = bytes := by
  apply List.ext_getElem? fun i => ?_
  simp only [Program.bytes, ofBytes, List.getElem?_map, List.getElem?_mapIdx]
  cases bytes[i]? <;> rfl

/-- Exactly the addresses of the image have a line. -/
theorem lineOf?_isSome_iff {p : Program} {a : Nat} : (p.lineOf? a).isSome ↔ a < p.size := by
  simp [lineOf?, size]

end Program

end ByteMachine
