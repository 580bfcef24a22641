/-
**Reading a command line.**

The arguments are read one after the other.  Before a command they may name a file to run; behind a
command they have to name its file.  An option that takes a value has it attached behind an equals
sign or in the next argument, unless that begins with a dash.  A value is looked at when the next
option or file is reached, or at the end of the group of arguments it stands in, so an argument that
is no option at all is found before a bad value in front of it.  Behind `--` every argument is a
file.

Main definitions:

* `ByteMachine.Command`, `ByteMachine.Invocation` — what a command line asks for;
* `ByteMachine.ArgumentGroup` — the arguments before a command, or those behind it;
* `ByteMachine.Invocation.ofArguments` — reading a command line.
-/

import ByteMachine.CommandLine.Rejection
import ByteMachine.Text.Similarity

set_option relaxedAutoImplicit false
set_option autoImplicit false

namespace ByteMachine

/-- **The commands.** -/
inductive Command where
  | run
  /-- Read a program and say whether it can be run. -/
  | check
  | disassemble
  deriving DecidableEq, Repr

namespace Command

/-- All commands. -/
def all : List Command := [run, check, disassemble]

/-- The name on the command line. -/
def name : Command → String
  | run => "run"
  | check => "check"
  | disassemble => "disassemble"

/-- The command of a name. -/
def ofName? (s : String) : Option Command := all.find? (·.name = s)

/-- The name of the command that shows help for another. -/
def helpName : String := "help"

/-- Whether a text looks like the name of a command. -/
def resembles (s : String) : Bool :=
  (all.map name ++ [helpName]).any (Text.similar s)

@[simp] theorem ofName?_name (c : Command) : ofName? c.name = some c := by
  cases c <;> rfl

end Command

/-- **What a command line asks for.** -/
structure Invocation where
  /-- The file before the command. -/
  input : Option String
  /-- The command with its file. -/
  command : Option (Command × String)
  /-- The options of both groups of arguments. -/
  options : Options
  deriving DecidableEq, Repr

/-! ### Single arguments -/

/-- The form of an argument. -/
inductive ArgumentForm where
  /-- The two dashes behind which only files stand. -/
  | separator
  /-- Two dashes and a name, perhaps with an attached value. -/
  | long (name : String) (value : Option String)
  /-- One dash and a letter. -/
  | short (letter : Char)
  /-- Anything else. -/
  | plain
  deriving DecidableEq, Repr

/-- The form of an argument. -/
def ArgumentForm.of (argument : String) : ArgumentForm :=
  match argument.toList with
  | ['-', '-'] => .separator
  | '-' :: '-' :: cs =>
    let name := String.ofList (cs.takeWhile (· ≠ '='))
    match cs.dropWhile (· ≠ '=') with
    | [] => .long name none
    | _ :: value => .long name (some (String.ofList value))
  | '-' :: c :: _ => .short c
  | _ => .plain

/-! ### Groups of arguments -/

/-- Where a group of arguments stands. -/
inductive GroupKind where
  /-- Before the command, if there is one. -/
  | leading
  /-- Behind the command. -/
  | trailing
  deriving DecidableEq, Repr

/-- **A group of arguments,** as far as it has been read. -/
structure ArgumentGroup where
  /-- Where it stands. -/
  kind : GroupKind
  /-- The options whose values have been looked at. -/
  options : Options
  /-- A setting whose value has not been looked at, or not been reached. -/
  pending : Option (Setting × Option String)
  file : Option String
  deriving DecidableEq, Repr

namespace ArgumentGroup

/-- Nothing has been read. -/
def empty (kind : GroupKind) : ArgumentGroup := ⟨kind, .none, none, none⟩

/-- Gives a setting its value, unless it has one. -/
def assign (g : ArgumentGroup) (s : Setting) (value : String) :
    Except Rejection ArgumentGroup :=
  if s.given g.options then .error (.repeated s.label)
  else
    match s.assign value g.options with
    | .ok options => .ok { g with options }
    | .error .empty => .error (.missingValue s)
    | .error (.invalid reason) => .error (.badValue s value reason)

/-- Looks at the value that has not been looked at. -/
def settle (g : ArgumentGroup) : Except Rejection ArgumentGroup :=
  match g.pending with
  | none => .ok g
  | some (s, none) => .error (.missingValue s)
  | some (s, some value) => { g with pending := none }.assign s value

/-- Whether the next argument may be a value. -/
def awaitsValue (g : ArgumentGroup) : Bool :=
  match g.pending with
  | some (_, none) => true
  | _ => false

/-- Takes an argument as the value that is waited for. -/
def takeValue (g : ArgumentGroup) (value : String) : ArgumentGroup :=
  { g with pending := g.pending.map fun (s, _) => (s, some value) }

/-- Gives a switch, unless it is given. -/
def turnOn (g : ArgumentGroup) (s : Switch) : Except Rejection ArgumentGroup := do
  let g ← g.settle
  if s.given g.options then throw (.repeated s.label)
  return { g with options := s.turnOn g.options }

/-- Ends with help or the version, unless a value before it is bad. -/
def stop (g : ArgumentGroup) (r : Rejection) : Except Rejection ArgumentGroup := do
  let _ ← g.settle
  throw r

/-- An option that takes no value, which may not have one attached. -/
def withoutValue (label : String) (value : Option String)
    (next : Except Rejection ArgumentGroup) : Except Rejection ArgumentGroup :=
  match value with
  | some v => .error (.unneededValue label v)
  | none => next

/-- Reads an argument with two dashes. -/
def long (g : ArgumentGroup) (name : String) (value : Option String) :
    Except Rejection ArgumentGroup :=
  match Switch.ofName? name, Setting.ofName? name with
  | some s, _ => withoutValue s.label value (g.turnOn s)
  | none, some s => do
    let g ← g.settle
    match value with
    | some v => g.assign s v
    | none => return { g with pending := some (s, none) }
  | none, none =>
    if name = "help" then withoutValue "--help" value (g.stop .help)
    else if name = "version" ∧ g.kind = .leading then
      withoutValue "--version" value (g.stop .version)
    else .error .unknownArgument

/-- Reads an argument with one dash. -/
def short (g : ArgumentGroup) (letter : Char) : Except Rejection ArgumentGroup :=
  if letter = 'h' then g.stop .help
  else if letter = 'V' ∧ g.kind = .leading then g.stop .version
  else .error .unknownArgument

/-- Takes an argument as a file, of which there is one.  Another one before a command may be a
misspelt command. -/
def takeFile (g : ArgumentGroup) (separated : Bool) (argument : String) :
    Except Rejection ArgumentGroup :=
  match g.file with
  | none => do
    let g ← g.settle
    return { g with file := some argument }
  | some _ =>
    let isCommand := (Command.ofName? argument).isSome || argument = Command.helpName
    if g.kind = .leading ∧ !(separated && isCommand) ∧ Command.resembles argument then
      .error (.unknownCommand argument)
    else .error .unknownArgument

/-- Reads an argument behind which the group goes on; `--` is not such a one. -/
def take (g : ArgumentGroup) (argument : String) : Except Rejection ArgumentGroup :=
  match ArgumentForm.of argument with
  | .long name value => g.long name value
  | .short letter => g.short letter
  | .separator | .plain =>
    if g.awaitsValue then .ok (g.takeValue argument) else g.takeFile false argument

/-- Reads files only. -/
def takeFiles : ArgumentGroup → List String → Except Rejection ArgumentGroup
  | g, [] => g.settle
  | g, a :: more => do takeFiles (← g.takeFile true a) more

/-- Reads the arguments behind a command. -/
def readTrailing : ArgumentGroup → List String → Except Rejection ArgumentGroup
  | g, [] => g.settle
  | g, a :: more => do
    if ArgumentForm.of a = .separator then g.takeFiles more
    else readTrailing (← g.take a) more

end ArgumentGroup

/-! ### Whole command lines -/

/-- The arguments behind the help command name a command, or none at all. -/
def readHelp : List String → Rejection
  | [] => .help
  | a :: more =>
    match Command.ofName? a, more with
    | some _, [] => .help
    | some _, b :: _ => .unknownCommand b
    | none, [] => if a = Command.helpName then .help else .unknownCommand a
    | none, b :: _ => .unknownCommand (if a = Command.helpName then b else a)

/-- The command line whose leading group is `g` and whose command stands before `arguments`. -/
def readCommand (g : ArgumentGroup) (c : Command) (arguments : List String) :
    Except Rejection Invocation := do
  let behind ← (ArgumentGroup.empty .trailing).readTrailing arguments
  match behind.file with
  | none => throw .missingFile
  | some file =>
    let g ← g.settle
    return ⟨g.file, some (c, file), behind.options.override g.options⟩

/-- Reads the arguments from the leading group `g` on. -/
def readLeading : ArgumentGroup → List String → Except Rejection Invocation
  | g, [] => do
    let g ← g.settle
    return ⟨g.file, none, g.options⟩
  | g, a :: more =>
    if g.awaitsValue then next g a more
    else
      match Command.ofName? a with
      | some c => readCommand g c more
      | none => if a = Command.helpName then .error (readHelp more) else next g a more
where
  /-- Reads an argument that is no command. -/
  next (g : ArgumentGroup) (a : String) (more : List String) : Except Rejection Invocation := do
    if ArgumentForm.of a = .separator then
      let g ← g.takeFiles more
      return ⟨g.file, none, g.options⟩
    else readLeading (← g.take a) more

/-- **Reading a command line,** given without the name of the program. -/
def Invocation.ofArguments (arguments : List String) : Except Rejection Invocation :=
  readLeading (.empty .leading) arguments

end ByteMachine
