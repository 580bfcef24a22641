/-
**One step of a machine.**

A step writes a trace line if the configuration asks for one, fetches the instruction at the program
counter, counts it, and executes it.  What it prints goes to the output sink.  A step that fails
leaves the machine as it was, except that an instruction which had been fetched is counted.

Main definitions:

* `ByteMachine.Sinks` — where output and trace go;
* `ByteMachine.Outcome` — what a call leaves behind;
* `ByteMachine.Machine.step` — one step.
-/

import ByteMachine.Machine.Execute
import ByteMachine.Machine.Trace
import ByteMachine.Sink

set_option relaxedAutoImplicit false
set_option autoImplicit false

namespace ByteMachine

/-- **Where a machine writes.** -/
structure Sinks where
  /-- Takes what the program prints. -/
  out : Sink
  /-- Takes the trace lines. -/
  trace : Sink

/-- Both sinks take everything. -/
def Sinks.unlimited : Sinks := ⟨.unlimited, .unlimited⟩

/-- **What a call leaves behind:** its result, the machine and the sinks. -/
structure Outcome (α : Type) where
  /-- The result, or why there is none. -/
  result : Except Fault α
  /-- The machine after the call, also if it failed. -/
  machine : Machine
  sinks : Sinks

/-- How a successful step ends. -/
inductive Progress where
  | running
  | halted
  deriving DecidableEq, Repr

/-- The fault of a sink that refuses. -/
def Sink.Error.fault (e : Sink.Error) : Fault := .output e.message

namespace Machine

/-- Writes the trace line, if the configuration asks for one. -/
def writeTrace (m : Machine) (s : Sinks) : Except Sink.Error Unit × Sinks :=
  if m.config.trace then
    let (result, trace) := s.trace.write (m.trace.text ++ "\n")
    (result, { s with trace })
  else (.ok (), s)

/-- Writes a printed value, if there is one. -/
def writeValue (s : Sinks) : Option UInt8 → Except Sink.Error Unit × Sinks
  | some value =>
    let (result, out) := s.out.write (value.toNat.repr ++ "\n")
    (result, { s with out })
  | none => (.ok (), s)

/-- The machine with one more instruction counted. -/
def tick (m : Machine) : Machine := { m with cycles := m.cycles + 1 }

/-- **One step.** -/
def step (m : Machine) (s : Sinks) : Outcome Progress :=
  match m.writeTrace s with
  | (.error e, s) => ⟨.error e.fault, m, s⟩
  | (.ok (), s) =>
    match m.fetch with
    | .error e => ⟨.error e, m, s⟩
    | .ok i =>
      match m.execute i with
      | .error e => ⟨.error e, m.tick, s⟩
      | .ok effect =>
        match writeValue s effect.printed with
        | (.error e, s) => ⟨.error e.fault, m.tick, s⟩
        | (.ok (), s) =>
          ⟨.ok (if effect.halts then .halted else .running), effect.machine.tick, s⟩

end Machine

end ByteMachine
