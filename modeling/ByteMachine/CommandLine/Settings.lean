/-
**The effective configuration.**

The configuration of a run is that of the configuration file, or the default one if no file is
named, with the options of the command line put over it.  Only the result has to be valid: an option
may repair what the file says, or spoil it.

Main definitions:

* `ByteMachine.Config.withOptions` — options put over a configuration;
* `ByteMachine.Options.effectiveConfig` — the configuration of a run;
* `ByteMachine.SettingsError`, `SettingsError.message` — why there is none;
* `ByteMachine.SettingsError.cause` — what is said behind that.
-/

import ByteMachine.CommandLine.Options
import ByteMachine.CommandLine.Response
import ByteMachine.Config.Json
import ByteMachine.Files

set_option relaxedAutoImplicit false
set_option autoImplicit false

namespace ByteMachine

/-- A configuration file as it has been read. -/
structure ConfigFile where
  path : String
  text : String
  deriving DecidableEq, Repr

/-- Why there is no configuration. -/
inductive SettingsError where
  /-- The configuration file cannot be read. -/
  | unreadable (path : String) (reason : ReadError)
  /-- The configuration file holds no configuration. -/
  | invalid (file : ConfigFile) (e : Json.Error)
  /-- The configuration is not valid. -/
  | rejected (e : Fault)
  deriving DecidableEq, Repr

/-- The error in words. -/
def SettingsError.message : SettingsError → String
  | unreadable path reason => "Error reading config file '" ++ path ++ "': " ++ reason.message
  | invalid file _ => "Invalid config file '" ++ file.path ++ "'"
  | rejected e => e.message

/-- What is said behind the error: of a file that holds no configuration, why it holds none. -/
def SettingsError.cause (p : Palette) : SettingsError → String
  | invalid file _ => p.cause file.text
  | unreadable _ _ | rejected _ => ""

/-- As much of the cause as is known here: in which way the values of a text have not the shape of a
configuration. -/
def Config.mismatchText (text : String) : String :=
  match Config.ofJson text with
  | .error (.mismatch m) => ": " ++ m.message
  | _ => ""

/-- A configuration with options put over it. -/
def Config.withOptions (c : Config) (o : Options) : Config where
  stackTop := o.stackTop.getD c.stackTop
  stackLimit := c.stackLimit
  maxCycles := o.maxCycles.or c.maxCycles
  overflow := o.overflow.getD c.overflow
  jumpMode := if o.legacyJumps then .pushReturn else c.jumpMode
  trace := o.trace || c.trace

namespace Options

/-- The configuration of the configuration file, if one is named. -/
def fileConfig (o : Options) (files : Files) : Except SettingsError Config :=
  match o.config with
  | .none => .ok .default
  | .some path =>
    match files path with
    | .error reason => .error (.unreadable path reason)
    | .ok text =>
      match Config.ofJson text with
      | .ok c => .ok c
      | .error e => .error (.invalid ⟨path, text⟩ e)

/-- **The configuration of a run.** -/
def effectiveConfig (o : Options) (files : Files) : Except SettingsError Config :=
  match o.fileConfig files with
  | .error e => .error e
  | .ok c =>
    match (c.withOptions o).validate with
    | .ok () => .ok (c.withOptions o)
    | .error e => .error (.rejected e)

end Options

end ByteMachine
