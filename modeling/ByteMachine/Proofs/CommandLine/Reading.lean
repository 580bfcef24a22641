/-
**How a command line is read.**

An argument that can be read is a switch, a setting with its value or in front of it, a value that
is waited for, or the file.  All of them but the value settle first what is still open: they look at
the value in front of them.  So it makes no difference when a good value is looked at.  Which
arguments can be read, and when a group goes on or a command begins, is said here once; what is
given on a command line follows from that.

Main definitions:

* `ByteMachine.ArgumentGroup.Takes` — how an argument is read;
* `ByteMachine.IsArgument` — the group in front of a command goes on.

Main results:

* `ByteMachine.ArgumentGroup.take_eq_ok_iff` — **the arguments that can be read**;
* `ByteMachine.ArgumentGroup.exists_of_takeFiles` — of files there is one at most;
* `ByteMachine.readCommand_eq_ok_iff` — the command lines that have a command;
* `ByteMachine.ArgumentGroup.take_of_settle`, `readLeading_of_settle` — **a value may be looked at
  early**.
-/

import ByteMachine.CommandLine.Arguments
import ByteMachine.Proofs.Machine.Operations

set_option relaxedAutoImplicit false
set_option autoImplicit false

namespace ByteMachine

/-! ### Values that have not been looked at -/

/-- A value gives no switch. -/
theorem Options.given_of_assign {s : Switch} {o o' : Options} {u : Setting} {value : String}
    (h : u.assign value o = .ok o') : s.given o' = s.given o := by
  cases u <;> simp only [Setting.assign] at h <;> split at h <;> cases h <;> cases s <;> rfl

namespace ArgumentGroup

/-- **The group with a switch turned on.** -/
def preset (g : ArgumentGroup) (s : Switch) : ArgumentGroup :=
  { g with options := s.turnOn g.options }

variable {g g' g₁ : ArgumentGroup} {s : Switch} {u : Setting} {a value : String}
  {more : List String}

/-- What giving a setting its value changes. -/
theorem exists_of_assign (h : g.assign u value = .ok g') :
    ∃ o, u.assign value g.options = .ok o ∧ g' = { g with options := o } := by
  unfold assign at h
  split at h
  · cases h
  · split at h
    · rename_i o ho
      exact ⟨o, ho, (Except.ok.inj h).symm⟩
    · cases h
    · cases h

/-- A value has been looked at: none is left, and only the options are others; those that take no
value are given as before. -/
theorem exists_of_settle (h : g.settle = .ok g₁) :
    g.awaitsValue = false ∧ ∃ o, g₁ = ⟨g.kind, o, none, g.file⟩ ∧
      ∀ s : Switch, s.given o = s.given g.options := by
  obtain ⟨kind, options, pending, file⟩ := g
  match pending, h with
  | none, h => exact ⟨rfl, options, (Except.ok.inj h).symm, fun _ => rfl⟩
  | some (u, some value), h =>
      obtain ⟨o, ho, rfl⟩ := exists_of_assign (g := ⟨kind, options, none, file⟩) h
      exact ⟨rfl, o, rfl, fun _ => Options.given_of_assign ho⟩

theorem settle_of_settle (h : g.settle = .ok g₁) : g₁.settle = .ok g₁ := by
  obtain ⟨-, o, rfl, -⟩ := exists_of_settle h
  rfl

/-! ### A value may be looked at early -/

theorem takeFile_of_settle (h : g.settle = .ok g₁) (separated : Bool) (a : String) :
    g₁.takeFile separated a = g.takeFile separated a := by
  have hagain := settle_of_settle h
  obtain ⟨-, o, rfl, -⟩ := exists_of_settle h
  simp only [takeFile, h, hagain]

theorem take_of_settle (h : g.settle = .ok g₁) (a : String) : g₁.take a = g.take a := by
  have hagain := settle_of_settle h
  have hfile := takeFile_of_settle h false a
  obtain ⟨hawaits, o, rfl, -⟩ := exists_of_settle h
  have hnone : awaitsValue ⟨g.kind, o, none, g.file⟩ = false := rfl
  simp only [take, long, short, turnOn, stop, h, hagain, hfile, hawaits, hnone,
    Bool.false_eq_true, if_false]

theorem takeFiles_of_settle (h : g.settle = .ok g₁) (more : List String) :
    g₁.takeFiles more = g.takeFiles more := by
  cases more with
  | nil => exact (settle_of_settle h).trans h.symm
  | cons a more => rw [takeFiles, takeFiles, takeFile_of_settle h]

theorem readTrailing_of_settle (h : g.settle = .ok g₁) (more : List String) :
    g₁.readTrailing more = g.readTrailing more := by
  cases more with
  | nil => exact (settle_of_settle h).trans h.symm
  | cons a more => rw [readTrailing, readTrailing, takeFiles_of_settle h, take_of_settle h]

/-! ### Arguments -/

/-- **How an argument is read.** -/
inductive Takes (g : ArgumentGroup) (a : String) : ArgumentGroup → Prop
  /-- A switch that is not given yet. -/
  | switch {name : String} {t : Switch} {g₁ : ArgumentGroup}
      (hform : ArgumentForm.of a = .long name none) (hname : Switch.ofName? name = some t)
      (hg : g.settle = .ok g₁) (hnew : t.given g₁.options = false) : Takes g a (g₁.preset t)
  /-- A setting with its value. -/
  | setting {name value : String} {u : Setting} {g₁ g₂ : ArgumentGroup}
      (hform : ArgumentForm.of a = .long name (some value))
      (hswitch : Switch.ofName? name = none) (hname : Setting.ofName? name = some u)
      (hg : g.settle = .ok g₁) (hvalue : g₁.assign u value = .ok g₂) : Takes g a g₂
  /-- A setting whose value comes next. -/
  | announces {name : String} {u : Setting} {g₁ : ArgumentGroup}
      (hform : ArgumentForm.of a = .long name none) (hswitch : Switch.ofName? name = none)
      (hname : Setting.ofName? name = some u) (hg : g.settle = .ok g₁) :
      Takes g a { g₁ with pending := some (u, none) }
  /-- A value that is waited for. -/
  | value (hform : ArgumentForm.of a = .separator ∨ ArgumentForm.of a = .plain)
      (hawaits : g.awaitsValue = true) : Takes g a (g.takeValue a)
  /-- The first file. -/
  | file {g₁ : ArgumentGroup}
      (hform : ArgumentForm.of a = .separator ∨ ArgumentForm.of a = .plain)
      (hawaits : g.awaitsValue = false) (hfile : g.file = none) (hg : g.settle = .ok g₁) :
      Takes g a { g₁ with file := some a }

theorem withoutValue_eq_ok_iff {label : String} {value : Option String}
    {next : Except Rejection ArgumentGroup} :
    withoutValue label value next = .ok g' ↔ value = none ∧ next = .ok g' := by
  cases value <;> simp [withoutValue]

theorem turnOn_eq_ok_iff :
    g.turnOn s = .ok g' ↔
      ∃ g₁, g.settle = .ok g₁ ∧ s.given g₁.options = false ∧ g₁.preset s = g' := by
  unfold turnOn
  rw [bind_eq_ok_iff]
  refine exists_congr fun g₁ => and_congr_right fun _ => ?_
  split
  · rename_i hgiven
    simp only [hgiven, Bool.true_eq_false, false_and, iff_false]
    exact nofun
  · rename_i hnew
    simp only [hnew, true_and]
    exact pure_eq_ok_iff

/-- Help and the version end the reading. -/
theorem stop_ne_ok {r : Rejection} : g.stop r ≠ .ok g' := by
  unfold stop
  cases g.settle <;> exact nofun

theorem takeFile_eq_ok_iff {separated : Bool} :
    g.takeFile separated a = .ok g' ↔
      g.file = none ∧ ∃ g₁, g.settle = .ok g₁ ∧ { g₁ with file := some a } = g' := by
  unfold takeFile
  cases g.file with
  | none => simp only [bind_eq_ok_iff, pure_eq_ok_iff, true_and]
  | some b =>
      simp only [reduceCtorEq, false_and, iff_false]
      split <;> exact nofun

theorem takes_of_long {name : String} {value : Option String}
    (hform : ArgumentForm.of a = .long name value) (h : g.long name value = .ok g') :
    Takes g a g' := by
  unfold long at h
  split at h
  · rename_i t _ hname
    obtain ⟨rfl, hturn⟩ := withoutValue_eq_ok_iff.1 h
    obtain ⟨g₁, hg, hnew, rfl⟩ := turnOn_eq_ok_iff.1 hturn
    exact .switch hform hname hg hnew
  · rename_i u hswitch hname
    obtain ⟨g₁, hg, hvalue⟩ := bind_eq_ok_iff.1 h
    cases value with
    | some v => exact .setting hform hswitch hname hg hvalue
    | none =>
        obtain rfl := pure_eq_ok_iff.1 hvalue
        exact .announces hform hswitch hname hg
  · split at h
    · exact absurd (withoutValue_eq_ok_iff.1 h).2 stop_ne_ok
    · split at h
      · exact absurd (withoutValue_eq_ok_iff.1 h).2 stop_ne_ok
      · cases h

theorem takes_of_plain (hform : ArgumentForm.of a = .separator ∨ ArgumentForm.of a = .plain)
    (h : (if g.awaitsValue then .ok (g.takeValue a) else g.takeFile false a) = .ok g') :
    Takes g a g' := by
  cases hawaits : g.awaitsValue with
  | true =>
      rw [hawaits, if_pos rfl] at h
      obtain rfl := Except.ok.inj h
      exact .value hform hawaits
  | false =>
      rw [hawaits, if_neg Bool.false_ne_true] at h
      obtain ⟨hfile, g₁, hg, rfl⟩ := takeFile_eq_ok_iff.1 h
      exact .file hform hawaits hfile hg

theorem Takes.take_eq (h : Takes g a g') : g.take a = .ok g' := by
  unfold take
  cases h with
  | switch hform hname hg hnew =>
      simp only [hform, long, hname]
      exact turnOn_eq_ok_iff.2 ⟨_, hg, hnew, rfl⟩
  | setting hform hswitch hname hg hvalue =>
      simp only [hform, long, hswitch, hname]
      exact bind_eq_ok_iff.2 ⟨_, hg, hvalue⟩
  | announces hform hswitch hname hg =>
      simp only [hform, long, hswitch, hname]
      exact bind_eq_ok_iff.2 ⟨_, hg, rfl⟩
  | value hform hawaits =>
      rcases hform with hform | hform <;> simp only [hform, hawaits, if_true]
  | file hform hawaits hfile hg =>
      have htake : g.takeFile false a = .ok _ := takeFile_eq_ok_iff.2 ⟨hfile, _, hg, rfl⟩
      rcases hform with hform | hform <;>
        simp only [hform, hawaits, Bool.false_eq_true, if_false, htake]

/-- **The arguments that can be read.** -/
theorem take_eq_ok_iff : g.take a = .ok g' ↔ Takes g a g' := by
  refine ⟨fun h => ?_, Takes.take_eq⟩
  unfold take at h
  split at h
  · rename_i hform
    exact takes_of_long hform h
  · unfold short at h
    split at h
    · exact absurd h stop_ne_ok
    · split at h
      · exact absurd h stop_ne_ok
      · cases h
  · rename_i hform
    exact takes_of_plain (.inl hform) h
  · rename_i hform
    exact takes_of_plain (.inr hform) h

/-- Of files there is one at most. -/
theorem exists_of_takeFiles (h : g.takeFiles more = .ok g') :
    ∃ g₁, g.settle = .ok g₁ ∧ (more = [] ∧ g' = g₁ ∨
      ∃ a, more = [a] ∧ g.file = none ∧ g' = { g₁ with file := some a }) := by
  cases more with
  | nil => exact ⟨g', h, .inl ⟨rfl, rfl⟩⟩
  | cons a more =>
      rw [takeFiles] at h
      obtain ⟨g₂, htake, hmore⟩ := bind_eq_ok_iff.1 h
      obtain ⟨hfile, g₁, hg, rfl⟩ := takeFile_eq_ok_iff.1 htake
      cases more with
      | nil =>
          obtain ⟨-, o, rfl, -⟩ := exists_of_settle hg
          exact ⟨_, hg, .inr ⟨a, rfl, hfile, (Except.ok.inj hmore).symm⟩⟩
      | cons b more =>
          rw [takeFiles] at hmore
          obtain ⟨g₃, hsecond, -⟩ := bind_eq_ok_iff.1 hmore
          exact nomatch (takeFile_eq_ok_iff.1 hsecond).1

end ArgumentGroup

/-! ### Whole command lines -/

variable {g g₁ : ArgumentGroup} {c : Command} {a : String} {more : List String} {i : Invocation}

/-- The group in front of a command goes on with the argument: it waits for a value, or the argument
is no command. -/
def IsArgument (g : ArgumentGroup) (a : String) : Prop :=
  g.awaitsValue = true ∨ Command.ofName? a = none ∧ a ≠ Command.helpName

theorem readLeading_of_command (hg : g.awaitsValue = false) (hc : Command.ofName? a = some c)
    (more : List String) : readLeading g (a :: more) = readCommand g c more := by
  rw [readLeading, hg]
  simp only [Bool.false_eq_true, if_false, hc]

theorem readLeading_of_argument (h : IsArgument g a) (more : List String) :
    readLeading g (a :: more) = readLeading.next g a more := by
  rw [readLeading]
  cases hg : g.awaitsValue with
  | true => rfl
  | false =>
      obtain ⟨hnone, hhelp⟩ := h.resolve_left (by simp [hg])
      simp only [Bool.false_eq_true, if_false, hnone, if_neg hhelp]

/-- An argument is a command, or the group in front of it goes on. -/
theorem command_or_isArgument (h : readLeading g (a :: more) = .ok i) :
    (∃ c, g.awaitsValue = false ∧ Command.ofName? a = some c) ∨ IsArgument g a := by
  cases hg : g.awaitsValue with
  | true => exact .inr (.inl hg)
  | false =>
      cases hc : Command.ofName? a with
      | some c => exact .inl ⟨c, rfl, rfl⟩
      | none =>
          refine .inr (.inr ⟨hc, fun hhelp => ?_⟩)
          rw [readLeading, hg] at h
          simp only [Bool.false_eq_true, if_false, hc, if_pos hhelp, reduceCtorEq] at h

/-- **The command lines that have a command.** -/
theorem readCommand_eq_ok_iff :
    readCommand g c more = .ok i ↔
      ∃ behind file g₁, (ArgumentGroup.empty .trailing).readTrailing more = .ok behind ∧
        behind.file = some file ∧ g.settle = .ok g₁ ∧
        ⟨g₁.file, some (c, file), behind.options.override g₁.options⟩ = i := by
  unfold readCommand
  rw [bind_eq_ok_iff]
  refine exists_congr fun behind => ?_
  cases behind.file with
  | none => simp
  | some file =>
      simp only [bind_eq_ok_iff, pure_eq_ok_iff, Option.some.injEq]
      constructor
      · rintro ⟨hbehind, g₁, hg, rfl⟩
        exact ⟨file, g₁, hbehind, rfl, hg, rfl⟩
      · rintro ⟨_, g₁, hbehind, rfl, hg, rfl⟩
        exact ⟨hbehind, g₁, hg, rfl⟩

theorem readCommand_of_settle (h : g.settle = .ok g₁) (c : Command) (more : List String) :
    readCommand g₁ c more = readCommand g c more := by
  rw [readCommand, readCommand, ArgumentGroup.settle_of_settle h, h]

/-- **A value may be looked at early.** -/
theorem readLeading_of_settle (h : g.settle = .ok g₁) (more : List String) :
    readLeading g₁ more = readLeading g more := by
  cases more with
  | nil => rw [readLeading, readLeading, ArgumentGroup.settle_of_settle h, h]
  | cons a more =>
      have hnext : readLeading.next g₁ a more = readLeading.next g a more := by
        rw [readLeading.next, readLeading.next, ArgumentGroup.takeFiles_of_settle h,
          ArgumentGroup.take_of_settle h]
      obtain ⟨hawaits, o, rfl, -⟩ := ArgumentGroup.exists_of_settle h
      rw [readLeading, readLeading, hawaits, hnext]
      simp only [readCommand_of_settle h]
      rfl

end ByteMachine
