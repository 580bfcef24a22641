/-
**The configuration of a run, from its two sources.**

The configuration file gives all six settings, the command line some of them, and each setting has a
rule of its own for putting the two together: an option stands over the file, a switch adds to it,
and the stack limit is the file's alone.  Only what comes out is checked.  So a file that no machine
could be built from can be repaired by an option, and a good one spoiled; and once there is a
configuration, the machine that is built from it cannot fail to be.

Main definitions:

* `ByteMachine.Options.FileHolds` — the configuration that the configuration file holds;
* `ByteMachine.Options.Merges` — the rules for each of the settings;
* `ByteMachine.Job.prepareOr` — preparing a run, with another answer where no machine can be built.

Main results:

* `ByteMachine.Options.merges_iff` — the rules determine the configuration;
* `ByteMachine.Options.effectiveConfig_eq_ok_iff` — **which configuration there is, and when**;
* `ByteMachine.Job.prepareOr_eq` — a machine can be built from it, whatever would be said if not;
* `ByteMachine.effective_configuration_is_merged_and_checked` — all of this together.
-/

import ByteMachine.Proofs.CommandLine.Running
import ByteMachine.Proofs.Config.Members

set_option relaxedAutoImplicit false
set_option autoImplicit false

namespace ByteMachine

variable {o : Options} {files : Files} {f f' c : Config}

/-- A value that is given, or else another one. -/
theorem eq_getD {α : Type} {given : Option α} {a b : α} (hgiven : ∀ x, given = some x → a = x)
    (hleft : given = none → a = b) : a = given.getD b := by
  cases given with
  | none => exact hleft rfl
  | some x => exact hgiven x rfl

theorem JumpMode.eq_of_iff {m n : JumpMode} (h : m = .pushReturn ↔ n = .pushReturn) : m = n := by
  cases m <;> cases n <;> simp_all

namespace Options

/-! ### The two sources -/

/-- **The configuration file holds the configuration,** or none is named and it is the default. -/
inductive FileHolds (o : Options) (files : Files) : Config → Prop
  | unnamed (hconfig : o.config = .none) : FileHolds o files .default
  | named {path text : String} {f : Config} (hconfig : o.config = some path)
      (hread : files path = .ok text) (hjson : Config.ofJson text = .ok f) : FileHolds o files f

/-- **The options, put over the configuration `f`, give `c`.** -/
structure Merges (o : Options) (f c : Config) : Prop where
  maxCycles_given : ∀ n, o.maxCycles = some n → c.maxCycles = some n
  maxCycles_left : o.maxCycles = .none → c.maxCycles = f.maxCycles
  stackTop_given : ∀ top, o.stackTop = some top → c.stackTop = top
  stackTop_left : o.stackTop = .none → c.stackTop = f.stackTop
  overflow_given : ∀ policy, o.overflow = some policy → c.overflow = policy
  overflow_left : o.overflow = .none → c.overflow = f.overflow
  stackLimit : c.stackLimit = f.stackLimit
  trace : c.trace = true ↔ o.trace = true ∨ f.trace = true
  jumpMode : c.jumpMode = .pushReturn ↔ o.legacyJumps = true ∨ f.jumpMode = .pushReturn

theorem fileHolds_iff : o.FileHolds files f ↔ o.fileConfig files = .ok f := by
  constructor
  · intro h
    cases h with
    | unnamed hconfig => rw [fileConfig, hconfig]
    | named hconfig hread hjson =>
        rw [fileConfig, hconfig]
        simp only [hread, hjson]
  · intro h
    unfold fileConfig at h
    split at h
    · rename_i hconfig
      cases h
      exact .unnamed hconfig
    · rename_i path hconfig
      split at h
      · cases h
      · rename_i text hread
        split at h
        · rename_i f hjson
          cases h
          exact .named hconfig hread hjson
        · cases h

theorem FileHolds.unique (h : o.FileHolds files f) (h' : o.FileHolds files f') : f = f' := by
  rw [fileHolds_iff] at h h'
  exact Except.ok.inj (h.symm.trans h')

/-! ### Putting them together -/

theorem merges_withOptions (o : Options) (f : Config) : o.Merges f (f.withOptions o) where
  maxCycles_given n h := by rw [Config.withOptions, h]; rfl
  maxCycles_left h := by rw [Config.withOptions, h]; rfl
  stackTop_given top h := by rw [Config.withOptions, h]; rfl
  stackTop_left h := by rw [Config.withOptions, h]; rfl
  overflow_given policy h := by rw [Config.withOptions, h]; rfl
  overflow_left h := by rw [Config.withOptions, h]; rfl
  stackLimit := rfl
  trace := Bool.or_eq_true_iff
  jumpMode := by
    unfold Config.withOptions
    cases o.legacyJumps <;> simp

/-- **The rules determine the configuration.** -/
theorem merges_iff : o.Merges f c ↔ c = f.withOptions o := by
  constructor
  · intro h
    have hcycles : c.maxCycles = o.maxCycles.or f.maxCycles := by
      cases hgiven : o.maxCycles with
      | none => exact h.maxCycles_left hgiven
      | some n => exact h.maxCycles_given n hgiven
    have htrace : c.trace = (o.trace || f.trace) := by
      rw [Bool.eq_iff_iff, Bool.or_eq_true]
      exact h.trace
    have hjump : c.jumpMode = (f.withOptions o).jumpMode :=
      JumpMode.eq_of_iff (h.jumpMode.trans (merges_withOptions o f).jumpMode.symm)
    obtain ⟨stackTop, stackLimit, maxCycles, overflow, jumpMode, trace⟩ := c
    rw [Config.withOptions, Config.mk.injEq]
    exact ⟨eq_getD h.stackTop_given h.stackTop_left, h.stackLimit, hcycles,
      eq_getD h.overflow_given h.overflow_left, hjump, htrace⟩
  · rintro rfl
    exact merges_withOptions o f

/-! ### Checking the result -/

theorem effectiveConfig_of_fileHolds (h : o.FileHolds files f) :
    o.effectiveConfig files =
      ((f.withOptions o).validate.map fun _ => f.withOptions o).mapError .rejected := by
  rw [effectiveConfig, fileHolds_iff.1 h]
  dsimp only
  cases (f.withOptions o).validate <;> rfl

/-- **Which configuration there is, and when:** the file holds one, and with the options put over it
the stack limit is below the stack top. -/
theorem effectiveConfig_eq_ok_iff :
    o.effectiveConfig files = .ok c ↔
      ∃ f, o.FileHolds files f ∧ o.Merges f c ∧ c.stackLimit < c.stackTop := by
  constructor
  · intro h
    have hvalid := Config.validate_eq_ok_iff.1 (validate_of_effectiveConfig h)
    cases hfile : o.fileConfig files with
    | error e =>
        rw [effectiveConfig, hfile] at h
        cases h
    | ok f =>
        have hholds := fileHolds_iff.2 hfile
        rw [effectiveConfig_of_fileHolds hholds] at h
        refine ⟨f, hholds, merges_iff.2 ?_, hvalid⟩
        cases hcheck : (f.withOptions o).validate with
        | error e =>
            rw [hcheck] at h
            cases h
        | ok u =>
            rw [hcheck] at h
            exact (Except.ok.inj h).symm
  · rintro ⟨f, hholds, hmerges, hvalid⟩
    obtain rfl := merges_iff.1 hmerges
    rw [effectiveConfig_of_fileHolds hholds, Config.validate_eq_ok_iff.2 hvalid]
    rfl

/-- The check is made on the stack top of the option, if one is given. -/
theorem exists_effectiveConfig_iff :
    (∃ c, o.effectiveConfig files = .ok c) ↔
      ∃ f, o.FileHolds files f ∧ f.stackLimit < o.stackTop.getD f.stackTop := by
  constructor
  · rintro ⟨c, h⟩
    obtain ⟨f, hholds, hmerges, hvalid⟩ := effectiveConfig_eq_ok_iff.1 h
    obtain rfl := merges_iff.1 hmerges
    exact ⟨f, hholds, hvalid⟩
  · rintro ⟨f, hholds, hvalid⟩
    exact ⟨_, effectiveConfig_eq_ok_iff.2 ⟨f, hholds, merges_withOptions o f, hvalid⟩⟩

/-- A configuration without room for a stack is rejected with both of its bounds. -/
theorem effectiveConfig_of_le (h : o.FileHolds files f)
    (hle : o.stackTop.getD f.stackTop ≤ f.stackLimit) :
    o.effectiveConfig files = .error (.rejected (.invalidConfig
      ("stack_limit (" ++ Numeral.hexAddress 2 f.stackLimit.toNat ++
        ") must be below stack_top (" ++
        Numeral.hexAddress 2 (o.stackTop.getD f.stackTop).toNat ++ ")"))) := by
  rw [effectiveConfig_of_fileHolds h, Config.validate, if_neg]
  · rfl
  · exact UInt8.not_lt.2 hle

end Options

/-! ### Building the machine -/

/-- **Preparing a run,** with any answer where no machine can be built from the configuration. -/
def Job.prepareOr (answer : Fault → Response) (files : Files) (p : Palette) (options : Options)
    (file : String) : Except Response Job :=
  match options.effectiveConfig files with
  | .error e => .error ⟨ExitCode.usage, "", p.error (e.message ++ e.cause p)⟩
  | .ok config =>
    match Program.load files file with
    | .error e => .error (e.response p)
    | .ok program =>
      match Machine.ofConfig config with
      | .error e => .error (answer e)
      | .ok machine =>
        match machine.loadProgram program with
        | .error e =>
          .error ⟨ExitCode.usage, "", p.error ("Cannot load '" ++ file ++ "': " ++ e.message)⟩
        | .ok machine => .ok ⟨machine, program, file, options⟩

/-- **The answer is never given.** -/
theorem Job.prepareOr_eq (answer : Fault → Response) (files : Files) (p : Palette) (o : Options)
    (file : String) : prepareOr answer files p o file = prepare files p o file := by
  unfold prepareOr prepare
  cases hc : o.effectiveConfig files with
  | error e => rfl
  | ok c =>
      dsimp only
      cases Program.load files file with
      | error e => rfl
      | ok program =>
          dsimp only
          cases hmachine : Machine.ofConfig c with
          | error e =>
              rw [ofConfig_of_effectiveConfig hc] at hmachine
              cases hmachine
          | ok machine => cases machine.loadProgram program <;> rfl

/-- **The configuration of a run is put together from file and options, and then checked.**  There
is one exactly if the configuration file, where one is named, can be read and holds a configuration,
and the stack limit of this is below the stack top of the option, or of the file if there is none.
Each setting follows its own rule.  As only the result is checked, an option repairs a file whose
stack top is too low, and spoils a good one, and is then told both bounds.  From the configuration
of a run a machine can be built, so whatever might be answered if it could not, a run is prepared in
the same way. -/
theorem effective_configuration_is_merged_and_checked (o : Options) (files : Files) :
    ((∃ c, o.effectiveConfig files = .ok c) ↔
      ∃ f, o.FileHolds files f ∧ f.stackLimit < o.stackTop.getD f.stackTop) ∧
    (∀ c, o.effectiveConfig files = .ok c ↔
      ∃ f, o.FileHolds files f ∧ o.Merges f c ∧ c.stackLimit < c.stackTop) ∧
    (∀ f top, o.FileHolds files f → o.stackTop = some top →
      f.stackTop ≤ f.stackLimit → f.stackLimit < top → ∃ c, o.effectiveConfig files = .ok c) ∧
    (∀ f top, o.FileHolds files f → o.stackTop = some top →
      f.stackLimit < f.stackTop → top ≤ f.stackLimit →
      o.effectiveConfig files = .error (.rejected (.invalidConfig
        ("stack_limit (" ++ Numeral.hexAddress 2 f.stackLimit.toNat ++
          ") must be below stack_top (" ++ Numeral.hexAddress 2 top.toNat ++ ")")))) ∧
    (∀ c, o.effectiveConfig files = .ok c → Machine.ofConfig c = .ok (.fresh c)) ∧
    ∀ (answer : Fault → Response) (p : Palette) (file : String),
      Job.prepareOr answer files p o file = Job.prepare files p o file := by
  refine ⟨Options.exists_effectiveConfig_iff, fun c => Options.effectiveConfig_eq_ok_iff,
    fun f top hholds htop _ hlt => ?_, fun f top hholds htop _ hle => ?_,
    fun c hc => Job.ofConfig_of_effectiveConfig hc,
    fun answer p file => Job.prepareOr_eq answer files p o file⟩
  · refine Options.exists_effectiveConfig_iff.2 ⟨f, hholds, ?_⟩
    rw [htop]
    exact hlt
  · have hrejected := Options.effectiveConfig_of_le hholds (by rw [htop]; exact hle)
    rwa [htop] at hrejected

/-- Two files: one whose stack top is below its stack limit, and one that holds the default. -/
def lowAndGood : Files
  | "low" => .ok "\x7b\"stack_top\":8,\"stack_limit\":9\x7d"
  | "good" => .ok "\x7b\x7d"
  | _ => .error .notFound

/-- Options that name a file and a stack top. -/
def withStackTop (file : String) (top : UInt8) : Options :=
  { Options.none with config := some file, stackTop := some top }

/-- The low file is repaired by a stack top of 16, and the good one is spoiled by one of 0. -/
theorem repairs_low_and_spoils_good :
    (∃ c, (withStackTop "low" 16).effectiveConfig lowAndGood = .ok c ∧ c.stackTop = 16 ∧
      c.stackLimit = 9 ∧ Machine.ofConfig c = .ok (.fresh c)) ∧
    (withStackTop "good" 0).effectiveConfig lowAndGood = .error (.rejected
      (.invalidConfig "stack_limit (0x00) must be below stack_top (0x00)")) := by
  have hlowText : String.ofList (Json.Frame.bare.object [Config.stackFrom 8, Config.stackTo 9]) =
      "\x7b\"stack_top\":8,\"stack_limit\":9\x7d" := by decide
  have hgoodText : String.ofList (Json.Frame.bare.object []) = "\x7b\x7d" := by decide
  have hgives : Config.Gives [Config.stackFrom 8, Config.stackTo 9] [.stackTop 8, .stackLimit 9] :=
    ⟨.cons ⟨rfl, .stackTop 8⟩ (.cons ⟨rfl, .stackLimit 9⟩ .nil), by decide⟩
  have hlow : (withStackTop "low" 16).FileHolds lowAndGood
      { Config.default with stackTop := 8, stackLimit := 9 } := by
    refine .named rfl rfl ?_
    rw [← hlowText]
    exact Config.ofJson_of_gives hgives .bare
  have hgood : (withStackTop "good" 0).FileHolds lowAndGood .default := by
    refine .named rfl rfl ?_
    rw [← hgoodText]
    exact Config.ofJson_of_gives ⟨.nil, by decide⟩ .bare
  obtain ⟨-, hiff, hrepair, -, hbuilds, -⟩ :=
    effective_configuration_is_merged_and_checked (withStackTop "low" 16) lowAndGood
  obtain ⟨-, -, -, hspoil, -⟩ :=
    effective_configuration_is_merged_and_checked (withStackTop "good" 0) lowAndGood
  obtain ⟨c, hc⟩ := hrepair _ 16 hlow rfl (by decide) (by decide)
  obtain ⟨f, hholds, hmerges, -⟩ := (hiff c).1 hc
  obtain rfl := hlow.unique hholds
  exact ⟨⟨c, hc, hmerges.stackTop_given 16 rfl, hmerges.stackLimit, hbuilds c hc⟩,
    hspoil _ 0 hgood rfl (by decide) (by decide)⟩

end ByteMachine
