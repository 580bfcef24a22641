/-
**Options of the command line.**

Four options are switches, which are there or not; four are settings, which take a value.  They may
be given before a command and behind it; both groups are read on their own and then put together.

Main definitions:

* `ByteMachine.Switch`, `ByteMachine.Setting` — the options and their names;
* `ByteMachine.Options` — what is given;
* `ByteMachine.Setting.assign` — giving a setting its value;
* `ByteMachine.Options.override` — options behind a command put over those before it.
-/

import ByteMachine.CommandLine.ByteLiteral
import ByteMachine.Config

set_option relaxedAutoImplicit false
set_option autoImplicit false

namespace ByteMachine

/-- An option without a value. -/
inductive Switch where
  /-- Write a trace line before every instruction. -/
  | trace
  /-- Taken jumps push a return address. -/
  | legacyJumps
  /-- A halt ends with exit code one. -/
  | legacyExit
  /-- Print the final state. -/
  | json
  deriving DecidableEq, Repr

/-- An option with a value. -/
inductive Setting where
  | maxCycles
  | stackTop
  | overflow
  | config
  deriving DecidableEq, Repr

/-- **What is given of the options.** -/
structure Options where
  trace : Bool
  legacyJumps : Bool
  legacyExit : Bool
  json : Bool
  maxCycles : Option UInt64
  stackTop : Option UInt8
  overflow : Option OverflowPolicy
  /-- The path of the configuration file. -/
  config : Option String
  deriving DecidableEq, Repr

namespace Switch

/-- All switches. -/
def all : List Switch := [trace, legacyJumps, legacyExit, json]

/-- The name behind the two dashes. -/
def name : Switch → String
  | trace => "trace"
  | legacyJumps => "legacy-jumps"
  | legacyExit => "legacy-exit"
  | json => "json"

/-- The switch of a name. -/
def ofName? (s : String) : Option Switch := all.find? (·.name = s)

/-- How messages name the switch. -/
def label (s : Switch) : String := "--" ++ s.name

/-- Whether the switch is given. -/
def given (s : Switch) (o : Options) : Bool :=
  match s with
  | trace => o.trace
  | legacyJumps => o.legacyJumps
  | legacyExit => o.legacyExit
  | json => o.json

/-- Gives the switch. -/
def turnOn (s : Switch) (o : Options) : Options :=
  match s with
  | trace => { o with trace := true }
  | legacyJumps => { o with legacyJumps := true }
  | legacyExit => { o with legacyExit := true }
  | json => { o with json := true }

@[simp] theorem ofName?_name (s : Switch) : ofName? s.name = some s := by
  cases s <;> rfl

end Switch

namespace Setting

/-- All settings. -/
def all : List Setting := [maxCycles, stackTop, overflow, config]

/-- The name behind the two dashes. -/
def name : Setting → String
  | maxCycles => "max-cycles"
  | stackTop => "stack-top"
  | overflow => "overflow"
  | config => "config"

/-- The setting of a name. -/
def ofName? (s : String) : Option Setting := all.find? (·.name = s)

/-- What stands for the value in messages. -/
def placeholder : Setting → String
  | maxCycles => "<N>"
  | stackTop => "<ADDR>"
  | overflow => "<POLICY>"
  | config => "<FILE>"

/-- How messages name the setting. -/
def label (s : Setting) : String := "--" ++ s.name ++ " " ++ s.placeholder

/-- Whether the setting is given. -/
def given (s : Setting) (o : Options) : Bool :=
  match s with
  | maxCycles => o.maxCycles.isSome
  | stackTop => o.stackTop.isSome
  | overflow => o.overflow.isSome
  | config => o.config.isSome

/-- Why a setting does not take a value. -/
inductive Refusal where
  /-- An empty value counts as none. -/
  | empty
  /-- The value has not the form it should have. -/
  | invalid (reason : String)
  deriving DecidableEq, Repr

/-- **Gives the setting its value.** -/
def assign (s : Setting) (value : String) (o : Options) : Except Refusal Options :=
  match s with
  | maxCycles =>
    match Numeral.read 10 (UInt64.size - 1) value.toList with
    | .ok n => .ok { o with maxCycles := some (UInt64.ofNat n) }
    | .error e => .error (.invalid e.message)
  | stackTop =>
    match ByteLiteral.read value with
    | .ok b => .ok { o with stackTop := some b }
    | .error e => .error (.invalid (ByteLiteral.message value e))
  | overflow =>
    match OverflowPolicy.ofName? value with
    | some p => .ok { o with overflow := some p }
    | none => .error (.invalid (OverflowPolicy.unknownMessage value))
  | config => if value = "" then .error .empty else .ok { o with config := some value }

@[simp] theorem ofName?_name (s : Setting) : ofName? s.name = some s := by
  cases s <;> rfl

end Setting

namespace Options

/-- Nothing is given. -/
def none : Options where
  trace := false
  legacyJumps := false
  legacyExit := false
  json := false
  maxCycles := .none
  stackTop := .none
  overflow := .none
  config := .none

/-- Options put over others: a switch is given if it is given in either, a setting has the value of
the upper ones if these give it. -/
def override (upper lower : Options) : Options where
  trace := upper.trace || lower.trace
  legacyJumps := upper.legacyJumps || lower.legacyJumps
  legacyExit := upper.legacyExit || lower.legacyExit
  json := upper.json || lower.json
  maxCycles := upper.maxCycles.or lower.maxCycles
  stackTop := upper.stackTop.or lower.stackTop
  overflow := upper.overflow.or lower.overflow
  config := upper.config.or lower.config

@[simp] theorem none_override (o : Options) : none.override o = o := by
  simp [none, override]

@[simp] theorem override_none (o : Options) : o.override none = o := by
  simp [none, override]

end Options

end ByteMachine
