/-
**Configurations as JSON.**

A configuration is an object, any of whose six fields may be missing and then has its default, or an
array of the fields in order, of which the last ones may be missing.  Other fields are refused, and
so is a field given twice.

Main definitions:

* `ByteMachine.Config.Field` — the fields and their names;
* `ByteMachine.Config.Draft` — a configuration some of whose fields are given;
* `ByteMachine.Config.ofJson` — the configuration of a text.
-/

import ByteMachine.Config
import ByteMachine.Json.Shape

set_option relaxedAutoImplicit false
set_option autoImplicit false

namespace ByteMachine

namespace Config

/-! ### Fields -/

/-- The fields of a configuration. -/
inductive Field where
  | stackTop
  | stackLimit
  | maxCycles
  | overflow
  | jumpMode
  | trace
  deriving DecidableEq, Repr

namespace Field

/-- All fields, in the order in which an array holds them and messages list them. -/
def all : List Field := [stackTop, stackLimit, maxCycles, overflow, jumpMode, trace]

/-- The written name. -/
def name : Field → String
  | stackTop => "stack_top"
  | stackLimit => "stack_limit"
  | maxCycles => "max_cycles"
  | overflow => "overflow"
  | jumpMode => "jump_mode"
  | trace => "trace"

/-- The field of a written name. -/
def ofName? (s : String) : Option Field := all.find? (·.name = s)

@[simp] theorem ofName?_name (f : Field) : ofName? f.name = some f := by
  cases f <;> rfl

end Field

/-! ### Drafts -/

/-- **A draft of a configuration:** the fields that are given. -/
structure Draft where
  stackTop : Option UInt8
  stackLimit : Option UInt8
  /-- The cycle limit, which may be given as absent. -/
  maxCycles : Option (Option UInt64)
  overflow : Option OverflowPolicy
  jumpMode : Option JumpMode
  trace : Option Bool
  deriving DecidableEq, Repr

namespace Draft

/-- Nothing is given. -/
def empty : Draft := ⟨none, none, none, none, none, none⟩

/-- Whether a field is given. -/
def has (d : Draft) : Field → Bool
  | .stackTop => d.stackTop.isSome
  | .stackLimit => d.stackLimit.isSome
  | .maxCycles => d.maxCycles.isSome
  | .overflow => d.overflow.isSome
  | .jumpMode => d.jumpMode.isSome
  | .trace => d.trace.isSome

/-- The configuration in which the fields that are not given have their defaults. -/
def complete (d : Draft) : Config where
  stackTop := d.stackTop.getD default.stackTop
  stackLimit := d.stackLimit.getD default.stackLimit
  maxCycles := d.maxCycles.getD default.maxCycles
  overflow := d.overflow.getD default.overflow
  jumpMode := d.jumpMode.getD default.jumpMode
  trace := d.trace.getD default.trace

@[simp] theorem complete_empty : empty.complete = default := rfl

end Draft

/-! ### Reading -/

open Json (Reader)

/-- Reads the value of a field into a draft. -/
def Field.read (f : Field) (d : Draft) : Reader Draft := do
  match f with
  | .stackTop => return { d with stackTop := some (← Json.byte) }
  | .stackLimit => return { d with stackLimit := some (← Json.byte) }
  | .maxCycles =>
    return { d with maxCycles := some (← Json.optional Json.word64) }
  | .overflow =>
    return { d with
      overflow := some (← Json.variant (OverflowPolicy.all.map (·.name)) OverflowPolicy.ofName?) }
  | .jumpMode =>
    return { d with jumpMode := some (← Json.variant (JumpMode.all.map (·.name)) JumpMode.ofName?) }
  | .trace => return { d with trace := some (← Json.boolean) }

/-- Reads the member of a name into a draft. -/
def readMember (name : String) (d : Draft) : Reader Draft := do
  match Field.ofName? name with
  | none => throw (.mismatch (.unknownField name (Field.all.map (·.name))))
  | some f =>
    if d.has f then throw (.mismatch (.duplicateField f.name))
    Json.colon
    f.read d

/-- Reads a configuration. -/
def read : Reader Config := do
  match ← Json.look with
  | '{' => do
    Json.advance
    let d ← Json.members readMember .empty
    Json.symbol '}'
    return d.complete
  | '[' => do
    Json.advance
    let (_, d) ← Json.items (Field.all.map Field.read) .empty
    Json.symbol ']'
    return d.complete
  | c => Json.invalidType c "struct MachineConfig"

/-- **The configuration of a text.** -/
def ofJson (source : String) : Except Json.Error Config := Json.whole read source

end Config

end ByteMachine
