/-
**Snapshots as JSON.**

A snapshot is an object with five fields, each of which has to be there once; other members are read
past.  It may also be an array of exactly these fields in order.  It is written as an object with one
field, and one register, a line.

Main definitions:

* `ByteMachine.Snapshot.Field` — the fields and their names;
* `ByteMachine.Snapshot.toJson` — the written form;
* `ByteMachine.Snapshot.ofJson` — the snapshot of a text.
-/

import ByteMachine.Json.Shape
import ByteMachine.Machine.Snapshot

set_option relaxedAutoImplicit false
set_option autoImplicit false

namespace ByteMachine

namespace Snapshot

/-! ### Fields -/

/-- The fields of a snapshot. -/
inductive Field where
  | pc
  | flags
  | sp
  | registers
  | cycles
  deriving DecidableEq, Repr

namespace Field

/-- All fields, in the order in which they are written. -/
def all : List Field := [pc, flags, sp, registers, cycles]

/-- The written name. -/
def name : Field → String
  | pc => "pc"
  | flags => "flags"
  | sp => "sp"
  | registers => "registers"
  | cycles => "cycles"

/-- The field of a written name. -/
def ofName? (s : String) : Option Field := all.find? (·.name = s)

@[simp] theorem ofName?_name (f : Field) : ofName? f.name = some f := by
  cases f <;> rfl

end Field

/-! ### Writing -/

/-- The lines of an array of numbers inside an object. -/
def numberLines (values : List Nat) : String :=
  "[\n" ++ ",\n".intercalate (values.map fun v => "    " ++ v.repr) ++ "\n  ]"

/-- The written value of a field. -/
def fieldText (s : Snapshot) : Field → String
  | .pc => s.pc.repr
  | .flags => s.flags.bits.toNat.repr
  | .sp => s.sp.toNat.repr
  | .registers => numberLines (s.registers.toList.map UInt8.toNat)
  | .cycles => s.cycles.repr

/-- **The written form** of a snapshot. -/
def toJson (s : Snapshot) : String :=
  "\x7b\n" ++
    ",\n".intercalate (Field.all.map fun f => "  \"" ++ f.name ++ "\": " ++ s.fieldText f) ++
    "\n\x7d"

/-! ### Drafts -/

/-- **A draft of a snapshot:** the fields that are given. -/
structure Draft where
  pc : Option Nat
  flags : Option UInt8
  sp : Option UInt8
  registers : Option (Vector UInt8 8)
  cycles : Option Nat
  deriving DecidableEq, Repr

namespace Draft

/-- Nothing is given. -/
def empty : Draft := ⟨none, none, none, none, none⟩

/-- Whether a field is given. -/
def has (d : Draft) : Field → Bool
  | .pc => d.pc.isSome
  | .flags => d.flags.isSome
  | .sp => d.sp.isSome
  | .registers => d.registers.isSome
  | .cycles => d.cycles.isSome

/-- The snapshot, if all fields are given; if not, the first one that is missing. -/
def complete (d : Draft) : Except Field Snapshot := do
  let need {α : Type} (f : Field) (value : Option α) : Except Field α :=
    match value with
    | some a => .ok a
    | none => .error f
  return {
    pc := ← need .pc d.pc
    flags := ⟨← need .flags d.flags⟩
    sp := ← need .sp d.sp
    registers := ← need .registers d.registers
    cycles := ← need .cycles d.cycles }

end Draft

/-! ### Reading -/

open Json (Reader)

/-- Reads an array of exactly eight bytes. -/
def readRegisters : Reader (Vector UInt8 8) := do
  let expected := "an array of length 8"
  match ← Json.look with
  | '[' => do
    Json.advance
    let (n, values) ← Json.items
      (List.replicate 8 fun vs => do return vs ++ [← Json.byte]) ([] : List UInt8)
    if h : values.toArray.size = 8 then
      Json.symbol ']'
      return ⟨values.toArray, h⟩
    else throw (.mismatch (.invalidLength n expected))
  | c => Json.invalidType c expected

/-- Reads the value of a field into a draft. -/
def Field.read (f : Field) (d : Draft) : Reader Draft := do
  match f with
  | .pc => return { d with pc := some (← Json.natural (UInt64.size - 1) "usize") }
  | .flags => return { d with flags := some (← Json.byte) }
  | .sp => return { d with sp := some (← Json.byte) }
  | .registers => return { d with registers := some (← readRegisters) }
  | .cycles => return { d with cycles := some (← Json.natural (UInt64.size - 1) "u64") }

/-- Reads the member of a name into a draft, or past it. -/
def readMember (name : String) (d : Draft) : Reader Draft := do
  match Field.ofName? name with
  | none =>
    Json.colon
    Json.skip
    return d
  | some f =>
    if d.has f then throw (.mismatch (.duplicateField f.name))
    Json.colon
    f.read d

/-- The snapshot of a draft. -/
def ofDraft (d : Draft) : Reader Snapshot :=
  match d.complete with
  | .ok s => return s
  | .error f => throw (.mismatch (.missingField f.name))

/-- Reads a snapshot. -/
def read : Reader Snapshot := do
  match ← Json.look with
  | '{' => do
    Json.advance
    let s ← ofDraft (← Json.members readMember .empty)
    Json.symbol '}'
    return s
  | '[' => do
    Json.advance
    let (n, d) ← Json.items (Field.all.map Field.read) .empty
    if n < Field.all.length then
      throw (.mismatch (.invalidLength n "struct MachineState with 5 elements"))
    let s ← ofDraft d
    Json.symbol ']'
    return s
  | c => Json.invalidType c "struct MachineState"

/-- **The snapshot of a text.** -/
def ofJson (source : String) : Except Json.Error Snapshot := Json.whole read source

end Snapshot

end ByteMachine
