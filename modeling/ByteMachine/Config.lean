/-
**Configurations.**

The tunables of one machine: where its stack lies, how many instructions it may execute, what an
arithmetic result does that does not fit, whether taken jumps leave a return address, and whether a
trace is kept.

Main definitions:

* `ByteMachine.OverflowPolicy`, `ByteMachine.JumpMode` — the two choices, with their names;
* `ByteMachine.Config`, `Config.default` — a configuration and the values used where none is given;
* `ByteMachine.Config.validate` — the one condition that a machine relies on.
-/

import ByteMachine.Fault

set_option relaxedAutoImplicit false
set_option autoImplicit false

namespace ByteMachine

/-! ### Overflow policies -/

/-- What an addition or multiplication does whose result does not fit a byte. -/
inductive OverflowPolicy where
  /-- Keep the low eight bits. -/
  | wrap
  /-- Stay at 255. -/
  | saturate
  /-- Fail. -/
  | trap
  deriving DecidableEq, Repr

namespace OverflowPolicy

/-- All policies, in the order in which messages list them. -/
def all : List OverflowPolicy := [wrap, saturate, trap]

/-- The written name. -/
def name : OverflowPolicy → String
  | wrap => "wrap"
  | saturate => "saturate"
  | trap => "trap"

/-- The policy of a written name. -/
def ofName? (s : String) : Option OverflowPolicy := all.find? (·.name = s)

/-- What is said of a text that names no policy. -/
def unknownMessage (s : String) : String :=
  "unknown overflow policy '" ++ s ++ "' (expected wrap, saturate or trap)"

@[simp] theorem ofName?_name (p : OverflowPolicy) : ofName? p.name = some p := by
  cases p <;> rfl

end OverflowPolicy

/-! ### Jump modes -/

/-- What a taken jump does to the stack. -/
inductive JumpMode where
  /-- Nothing. -/
  | plain
  /-- It pushes the address of the next instruction, as a call does. -/
  | pushReturn
  deriving DecidableEq, Repr

namespace JumpMode

/-- All modes, in the order in which messages list them. -/
def all : List JumpMode := [plain, pushReturn]

/-- The written name. -/
def name : JumpMode → String
  | plain => "plain"
  | pushReturn => "push_return"

/-- The mode of a written name. -/
def ofName? (s : String) : Option JumpMode := all.find? (·.name = s)

@[simp] theorem ofName?_name (m : JumpMode) : ofName? m.name = some m := by
  cases m <;> rfl

end JumpMode

/-! ### Configurations -/

/-- **The configuration of a machine.** -/
structure Config where
  /-- The stack pointer at the start; the stack grows down from here. -/
  stackTop : UInt8
  /-- The lowest address that the stack pointer may reach. -/
  stackLimit : UInt8
  /-- The number of instructions after which a run stops, if it is limited. -/
  maxCycles : Option UInt64
  /-- What to do with results that do not fit. -/
  overflow : OverflowPolicy
  /-- What taken jumps do to the stack. -/
  jumpMode : JumpMode
  /-- Whether a trace line is written before every instruction. -/
  trace : Bool
  deriving DecidableEq, Repr

namespace Config

/-- The stack starts above the program region, nothing is limited, results wrap around. -/
def default : Config where
  stackTop := 0xF4
  stackLimit := 0
  maxCycles := none
  overflow := .wrap
  jumpMode := .plain
  trace := false

/-- A machine needs room for a stack: its limit lies below its top. -/
def validate (c : Config) : Except Fault Unit :=
  if c.stackLimit < c.stackTop then .ok ()
  else .error (.invalidConfig ("stack_limit (" ++ Numeral.hexAddress 2 c.stackLimit.toNat ++
    ") must be below stack_top (" ++ Numeral.hexAddress 2 c.stackTop.toNat ++ ")"))

theorem validate_eq_ok_iff {c : Config} : c.validate = .ok () ↔ c.stackLimit < c.stackTop := by
  unfold validate
  split <;> simp_all

theorem validate_default : default.validate = .ok () := rfl

end Config

end ByteMachine
