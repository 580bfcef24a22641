/-
**The program.**

Reads the files that a command line names, and prints the response to it.  A run is followed in
slices, so that what it prints can be seen before it ends.
-/

import ByteMachine.CommandLine.Dispatch

set_option relaxedAutoImplicit false
set_option autoImplicit false

namespace ByteMachine

/-- Reads a file as a text. -/
def readText (path : String) : IO (Except ReadError String) := do
  try
    match String.fromUTF8? (← IO.FS.readBinFile path) with
    | some text => return .ok text
    | none => return .error .notText
  catch
    | .noFileOrDirectory .. => return .error .notFound
    | .inappropriateType _ 20 _ => return .error .notDirectory
    | .inappropriateType _ _ _ => return .error .isDirectory
    | e => return .error (.other (toString e))

/-- Prints the texts of a response, and gives its exit code. -/
def emit (r : Response) : IO UInt32 := do
  IO.print r.stdout
  (← IO.getStdout).flush
  IO.eprint r.stderr
  return UInt32.ofNat r.exit

/-- The number of steps of a slice. -/
def sliceLength : Nat := 10000

/-- Follows a run to its end. -/
partial def follow (job : Job) (p : Palette) (m : Machine) : IO UInt32 := do
  match m.runFor sliceLength .unlimited with
  | .ended o => emit (job.report p (Machine.conclude o))
  | .interrupted m s =>
    let _ ← emit ⟨ExitCode.success, s.out.text, s.trace.text⟩
    follow job p m

end ByteMachine

open ByteMachine in
/-- The entry of the program. -/
def main (arguments : List String) : IO UInt32 := do
  match Invocation.ofArguments arguments with
  | .error r => emit r.response
  | .ok i =>
    let p : Palette := ⟨(← IO.getEnv "NO_COLOR").isNone, Config.mismatchText⟩
    let texts ← i.paths.mapM fun path => return (path, ← readText path)
    let files : Files := fun path => (texts.lookup path).getD (.error .notFound)
    match i.plan files p with
    | .answer r => emit r
    | .start job => follow job p job.machine
