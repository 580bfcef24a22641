/-
**Running a machine.**

A run steps until the machine halts, a step fails, or the cycle limit of the configuration is
reached, which is asked before each step.  Without a limit a run may not end; it is followed for as
long as the cycle counter stays below `2 ^ 64`, which no computation outlasts.

Main definitions:

* `ByteMachine.Machine.runFor`, `ByteMachine.RunState` — a run followed for a number of steps;
* `ByteMachine.Machine.run` — a whole run, with the output flushed at a successful end;
* `ByteMachine.Halt`, `ByteMachine.HaltReason` — how a run ended.
-/

import ByteMachine.Machine.Step

set_option relaxedAutoImplicit false
set_option autoImplicit false

namespace ByteMachine

/-- Why a run stopped. -/
inductive HaltReason where
  | halted
  | cycleLimit
  deriving DecidableEq, Repr

/-- **How a run ended.** -/
structure Halt where
  reason : HaltReason
  /-- The program counter then: of a halt, the address of the instruction that stopped. -/
  pc : Nat
  /-- The number of instructions executed until then. -/
  cycles : Nat
  deriving DecidableEq, Repr

/-- A run that has been followed for some steps. -/
inductive RunState where
  | ended (o : Outcome HaltReason)
  /-- It can go on from here. -/
  | interrupted (m : Machine) (s : Sinks)

namespace Machine

/-- Whether the cycle limit is reached. -/
def exhausted (m : Machine) : Bool :=
  match m.config.maxCycles with
  | some limit => limit.toNat ≤ m.cycles
  | none => false

/-- Steps until the machine halts, fails or is exhausted, but at most `fuel` times. -/
def runFor : Nat → Machine → Sinks → RunState
  | fuel, m, s =>
    if m.exhausted then .ended ⟨.ok .cycleLimit, m, s⟩
    else
      match fuel with
      | 0 => .interrupted m s
      | fuel + 1 =>
        match m.step s with
        | ⟨.ok .running, m, s⟩ => runFor fuel m s
        | ⟨.ok .halted, m, s⟩ => .ended ⟨.ok .halted, m, s⟩
        | ⟨.error e, m, s⟩ => .ended ⟨.error e, m, s⟩

/-- The number of steps that a run is followed for. -/
def budget (m : Machine) : Nat :=
  (match m.config.maxCycles with
    | some limit => limit.toNat
    | none => UInt64.size) - m.cycles

/-- The end of a run that did not fail: the output is flushed. -/
def conclude : Outcome HaltReason → Outcome Halt
  | ⟨.ok reason, m, s⟩ =>
    match s.out.flush with
    | .ok () => ⟨.ok ⟨reason, m.pc, m.cycles⟩, m, s⟩
    | .error e => ⟨.error e.fault, m, s⟩
  | ⟨.error e, m, s⟩ => ⟨.error e, m, s⟩

/-- **A whole run.**  There is no answer if the machine goes on for ever. -/
def run (m : Machine) (s : Sinks) : Option (Outcome Halt) :=
  match runFor m.budget m s with
  | .ended o => some (conclude o)
  | .interrupted _ _ => none

end Machine

end ByteMachine
