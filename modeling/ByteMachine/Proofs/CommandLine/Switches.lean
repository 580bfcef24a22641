/-
**A switch more on the command line.**

A switch may stand anywhere in front of the two dashes behind which only files follow, except where
a value is waited for.  It changes nothing about how the other arguments are read: a value is looked
at a little earlier, which makes no difference where it is a good one, and nothing but the same
switch asks whether the switch is given.  So where a command line can be read with a switch more, it
asks for the same with the switch turned on.

Main definitions:

* `ByteMachine.Invocation.preset` — what is asked for, with a switch turned on.

Main results:

* `ByteMachine.ArgumentGroup.Takes.preset` — a switch given before an argument;
* `ByteMachine.readLeading_preset` — **a switch given before the rest of a command line**;
* `ByteMachine.Invocation.ofArguments_cons` — a switch can be given in front of a command line;
* `ByteMachine.Invocation.ofArguments_insert` — **a command line with a switch more**.
-/

import ByteMachine.CommandLine.Dispatch
import ByteMachine.Proofs.CommandLine.Reading

set_option relaxedAutoImplicit false
set_option autoImplicit false

namespace ByteMachine

/-! ### Options -/

namespace Options

variable (s t : Switch) (o : Options)

theorem given_turnOn_self : s.given (s.turnOn o) = true := by
  cases s <;> rfl

theorem given_turnOn_of_ne {s t : Switch} (h : t ≠ s) (o : Options) :
    t.given (s.turnOn o) = t.given o := by
  cases s <;> cases t <;> first | rfl | exact absurd rfl h

theorem given_turnOn_of_given {s : Switch} {o : Options} (h : s.given o = true) :
    s.given (t.turnOn o) = true := by
  by_cases hst : s = t
  · subst hst
    exact given_turnOn_self s o
  · rw [given_turnOn_of_ne hst, h]

/-- A switch that is given can be given again. -/
theorem turnOn_of_given {s : Switch} {o : Options} (h : s.given o = true) : s.turnOn o = o := by
  obtain ⟨trace, legacyJumps, legacyExit, json, maxCycles, stackTop, overflow, config⟩ := o
  cases s <;> cases h <;> rfl

theorem turnOn_comm : s.turnOn (t.turnOn o) = t.turnOn (s.turnOn o) := by
  cases s <;> cases t <;> rfl

/-- No setting asks for a switch. -/
theorem setting_given_turnOn (u : Setting) : u.given (s.turnOn o) = u.given o := by
  cases u <;> cases s <;> rfl

theorem assign_turnOn (u : Setting) (value : String) :
    u.assign value (s.turnOn o) = (u.assign value o).map s.turnOn := by
  cases u <;> simp only [Setting.assign] <;> split <;> cases s <;> rfl

theorem turnOn_override (upper lower : Options) :
    (s.turnOn upper).override lower = s.turnOn (upper.override lower) := by
  cases s <;> simp [Switch.turnOn, override]

theorem override_turnOn (upper lower : Options) :
    upper.override (s.turnOn lower) = s.turnOn (upper.override lower) := by
  cases s <;> simp [Switch.turnOn, override]

theorem given_override (upper lower : Options) :
    s.given (upper.override lower) = (s.given upper || s.given lower) := by
  cases s <;> rfl

end Options

/-! ### A switch given before a group goes on -/

namespace ArgumentGroup

variable {g g' g₁ : ArgumentGroup} {s : Switch} {u : Setting} {a value : String}
  {more x y : List String}

theorem assign_preset (g : ArgumentGroup) (s : Switch) (u : Setting) (value : String) :
    (g.preset s).assign u value = (g.assign u value).map (·.preset s) := by
  unfold assign
  rw [show (g.preset s).options = s.turnOn g.options from rfl, Options.setting_given_turnOn,
    Options.assign_turnOn]
  split
  · rfl
  · cases u.assign value g.options with
    | ok o => rfl
    | error e => cases e <;> rfl

theorem settle_preset (g : ArgumentGroup) (s : Switch) :
    (g.preset s).settle = g.settle.map (·.preset s) := by
  obtain ⟨kind, options, pending, file⟩ := g
  match pending with
  | none => rfl
  | some (u, none) => rfl
  | some (u, some value) => exact assign_preset ⟨kind, options, none, file⟩ s u value

/-- A value that has been looked at gives no switch. -/
theorem given_of_settle (h : g.settle = .ok g₁) (s : Switch) :
    s.given g₁.options = s.given g.options := by
  obtain ⟨-, o, rfl, hgiven⟩ := exists_of_settle h
  exact hgiven s

/-- A switch stays given. -/
theorem Takes.given (h : Takes g a g') (hs : s.given g.options = true) :
    s.given g'.options = true := by
  cases h with
  | switch _ _ hg => exact Options.given_turnOn_of_given _ ((given_of_settle hg s).trans hs)
  | setting _ _ _ hg hvalue =>
      obtain ⟨o, ho, rfl⟩ := exists_of_assign hvalue
      exact (Options.given_of_assign ho).trans ((given_of_settle hg s).trans hs)
  | announces _ _ _ hg => exact (given_of_settle hg s).trans hs
  | value => exact hs
  | file _ _ _ hg => exact (given_of_settle hg s).trans hs

theorem settle_preset_of_settle (h : g.settle = .ok g₁) (s : Switch) :
    (g.preset s).settle = .ok (g₁.preset s) := by
  rw [settle_preset, h]
  rfl

theorem preset_comm (g : ArgumentGroup) (s t : Switch) :
    (g.preset s).preset t = (g.preset t).preset s := by
  simp only [preset, Options.turnOn_comm t s]

/-- **A switch given before an argument** changes nothing else about it, unless it is the same
switch. -/
theorem Takes.preset (h : Takes g a g') (s : Switch) :
    Takes (g.preset s) a (g'.preset s) ∨
      s.given g'.options = true ∧ ∃ r, (g.preset s).take a = .error r := by
  cases h with
  | @switch name t g₁ hform hname hg hnew =>
      have hg' := settle_preset_of_settle hg s
      by_cases hts : t = s
      · subst hts
        refine .inr ⟨Options.given_turnOn_self t _, .repeated t.label, ?_⟩
        have hgiven : t.given (g₁.preset t).options = true := Options.given_turnOn_self t _
        simp only [take, hform, long, hname, withoutValue, turnOn, hg']
        exact if_pos hgiven
      · rw [preset_comm]
        exact .inl (.switch hform hname hg' ((Options.given_turnOn_of_ne hts _).trans hnew))
  | setting hform hswitch hname hg hvalue =>
      refine .inl (.setting hform hswitch hname (settle_preset_of_settle hg s) ?_)
      rw [assign_preset, hvalue]
      rfl
  | announces hform hswitch hname hg =>
      exact .inl (.announces hform hswitch hname (settle_preset_of_settle hg s))
  | value hform hawaits => exact .inl (.value hform hawaits)
  | file hform hawaits hfile hg =>
      exact .inl (.file (g := g.preset s) hform hawaits hfile (settle_preset_of_settle hg s))

theorem takeFiles_given (h : g.takeFiles more = .ok g') (hs : s.given g.options = true) :
    s.given g'.options = true := by
  obtain ⟨g₁, hg, ⟨rfl, rfl⟩ | ⟨a, rfl, hfile, rfl⟩⟩ := exists_of_takeFiles h <;>
    exact (given_of_settle hg s).trans hs

theorem takeFiles_preset (h : g.takeFiles more = .ok g') (s : Switch) :
    (g.preset s).takeFiles more = .ok (g'.preset s) := by
  obtain ⟨g₁, hg, ⟨rfl, rfl⟩ | ⟨a, rfl, hfile, rfl⟩⟩ := exists_of_takeFiles h
  · exact settle_preset_of_settle hg s
  · have hg' := settle_preset_of_settle hg s
    have htake : (g.preset s).takeFile true a = .ok { g₁.preset s with file := some a } :=
      takeFile_eq_ok_iff.2 ⟨hfile, _, hg', rfl⟩
    obtain ⟨-, o, rfl, -⟩ := exists_of_settle hg
    rw [takeFiles, htake]
    rfl

theorem readTrailing_given (h : g.readTrailing more = .ok g') (hs : s.given g.options = true) :
    s.given g'.options = true := by
  induction more generalizing g with
  | nil => exact (given_of_settle h s).trans hs
  | cons a more ih =>
      rw [readTrailing] at h
      split at h
      · exact takeFiles_given h hs
      · obtain ⟨g₁, htake, hmore⟩ := bind_eq_ok_iff.1 h
        exact ih hmore ((take_eq_ok_iff.1 htake).given hs)

/-- **A switch given before the rest of a group** changes nothing else about it, unless it is given
there once more. -/
theorem readTrailing_preset (h : g.readTrailing more = .ok g') (s : Switch) :
    (g.preset s).readTrailing more = .ok (g'.preset s) ∨
      s.given g'.options = true ∧ ∃ r, (g.preset s).readTrailing more = .error r := by
  induction more generalizing g with
  | nil => exact .inl (settle_preset_of_settle h s)
  | cons a more ih =>
      rw [readTrailing] at h ⊢
      split at h
      · rename_i hform
        rw [if_pos hform]
        exact .inl (takeFiles_preset h s)
      · rename_i hform
        rw [if_neg hform]
        obtain ⟨g₁, htake, hmore⟩ := bind_eq_ok_iff.1 h
        rcases (take_eq_ok_iff.1 htake).preset s with hpreset | ⟨hgiven, r, hr⟩
        · rw [hpreset.take_eq]
          exact ih hmore
        · rw [hr]
          exact .inr ⟨readTrailing_given hmore hgiven, r, rfl⟩

/-! ### A switch more in a group -/

/-- The label of a switch is read as this switch. -/
theorem form_label (s : Switch) : ArgumentForm.of s.label = .long s.name none := by
  cases s <;> decide +kernel

theorem label_ne_separator (s : Switch) : ArgumentForm.of s.label ≠ .separator := by
  rw [form_label]
  exact nofun

/-- Giving a switch looks at the value in front of it. -/
theorem exists_of_take_label (h : g.take s.label = .ok g') :
    ∃ g₁, g.settle = .ok g₁ ∧ g' = g₁.preset s := by
  have htakes := take_eq_ok_iff.1 h
  cases htakes with
  | @switch name t g₁ hform hname hg hnew =>
      obtain ⟨rfl, -⟩ := ArgumentForm.long.inj ((form_label s).symm.trans hform)
      obtain rfl := Option.some.inj ((Switch.ofName?_name s).symm.trans hname)
      exact ⟨g₁, hg, rfl⟩
  | setting hform => exact nomatch (form_label s).symm.trans hform
  | announces hform hswitch =>
      obtain ⟨rfl, -⟩ := ArgumentForm.long.inj ((form_label s).symm.trans hform)
      exact nomatch (Switch.ofName?_name s).symm.trans hswitch
  | value hform =>
      rw [form_label] at hform
      exact nomatch hform
  | file hform =>
      rw [form_label] at hform
      exact nomatch hform

/-- Where only files stand, there is no room for one more argument. -/
theorem takeFiles_insert (h : g.takeFiles (x ++ y) = .ok g') (hfile : g'.file ≠ none) :
    g.takeFiles (x ++ a :: y) ≠ .ok g₁ := by
  intro h'
  obtain ⟨g₂, hg, ⟨hnil, -⟩ | ⟨b, hsingle, hnone, -⟩⟩ := exists_of_takeFiles h'
  · exact absurd hnil (by simp)
  · obtain ⟨rfl, rfl⟩ : x = [] ∧ y = [] := by
      cases x with
      | nil => exact ⟨rfl, (List.cons.inj hsingle).2⟩
      | cons c x => simp at hsingle
    obtain ⟨-, o, rfl, -⟩ := exists_of_settle h
    exact hfile hnone

/-- **A group with a switch more** that has its file. -/
theorem readTrailing_insert (h : g.readTrailing (x ++ y) = .ok g') (hfile : g'.file ≠ none)
    (h' : g.readTrailing (x ++ s.label :: y) = .ok g₁) : g₁ = g'.preset s := by
  induction x generalizing g with
  | nil =>
      rw [List.nil_append, readTrailing, if_neg (label_ne_separator s)] at h'
      obtain ⟨g₂, htake, hmore⟩ := bind_eq_ok_iff.1 h'
      obtain ⟨g₃, hg, rfl⟩ := exists_of_take_label htake
      rw [List.nil_append, ← readTrailing_of_settle hg] at h
      rcases readTrailing_preset h s with hpreset | ⟨-, r, hr⟩
      · exact Except.ok.inj (hmore.symm.trans hpreset)
      · cases hmore.symm.trans hr
  | cons a x ih =>
      rw [List.cons_append, readTrailing] at h h'
      split at h
      · rename_i hform
        rw [if_pos hform] at h'
        exact absurd h' (takeFiles_insert h hfile)
      · rename_i hform
        rw [if_neg hform] at h'
        obtain ⟨g₂, htake, hmore⟩ := bind_eq_ok_iff.1 h
        obtain ⟨g₃, htake', hmore'⟩ := bind_eq_ok_iff.1 h'
        obtain rfl := Except.ok.inj (htake.symm.trans htake')
        exact ih hmore hmore'

end ArgumentGroup

/-! ### Whole command lines -/

/-- **What is asked for, with a switch turned on.** -/
def Invocation.preset (i : Invocation) (s : Switch) : Invocation :=
  { i with options := s.turnOn i.options }

variable {g g₁ : ArgumentGroup} {s : Switch} {c : Command} {a : String} {more x y : List String}
  {i i' : Invocation}

theorem isArgument_label (g : ArgumentGroup) (s : Switch) : IsArgument g s.label := by
  refine .inr ?_
  cases s <;> decide

/-- A switch given in front of a command changes nothing else. -/
theorem readCommand_preset (h : readCommand g c more = .ok i) (s : Switch) :
    readCommand (g.preset s) c more = .ok (i.preset s) := by
  obtain ⟨behind, file, g₁, hbehind, hfile, hg, rfl⟩ := readCommand_eq_ok_iff.1 h
  refine readCommand_eq_ok_iff.2
    ⟨behind, file, _, hbehind, hfile, ArgumentGroup.settle_preset_of_settle hg s, ?_⟩
  simp only [ArgumentGroup.preset, Invocation.preset, Options.override_turnOn]

/-- A switch in front of a command stays given. -/
theorem readCommand_given (h : readCommand g c more = .ok i) (hs : s.given g.options = true) :
    s.given i.options = true := by
  obtain ⟨behind, file, g₁, hbehind, hfile, hg, rfl⟩ := readCommand_eq_ok_iff.1 h
  rw [Options.given_override, ArgumentGroup.given_of_settle hg, hs, Bool.or_true]

theorem readLeading_given (h : readLeading g more = .ok i) (hs : s.given g.options = true) :
    s.given i.options = true := by
  induction more generalizing g with
  | nil =>
      rw [readLeading] at h
      obtain ⟨g₁, hg, hi⟩ := bind_eq_ok_iff.1 h
      obtain rfl := pure_eq_ok_iff.1 hi
      exact (ArgumentGroup.given_of_settle hg s).trans hs
  | cons a more ih =>
      rcases command_or_isArgument h with ⟨c, hawaits, hc⟩ | hargument
      · rw [readLeading_of_command hawaits hc] at h
        exact readCommand_given h hs
      · rw [readLeading_of_argument hargument, readLeading.next] at h
        split at h
        · obtain ⟨g₁, hfiles, hi⟩ := bind_eq_ok_iff.1 h
          obtain rfl := pure_eq_ok_iff.1 hi
          exact ArgumentGroup.takeFiles_given hfiles hs
        · obtain ⟨g₁, htake, hmore⟩ := bind_eq_ok_iff.1 h
          exact ih hmore ((ArgumentGroup.take_eq_ok_iff.1 htake).given hs)

/-- **A switch given before the rest of a command line** changes nothing else about it, unless it is
given there once more. -/
theorem readLeading_preset (h : readLeading g more = .ok i) (s : Switch) :
    readLeading (g.preset s) more = .ok (i.preset s) ∨
      s.given i.options = true ∧ ∃ r, readLeading (g.preset s) more = .error r := by
  induction more generalizing g with
  | nil =>
      rw [readLeading] at h
      obtain ⟨g₁, hg, hi⟩ := bind_eq_ok_iff.1 h
      obtain rfl := pure_eq_ok_iff.1 hi
      rw [readLeading, ArgumentGroup.settle_preset_of_settle hg s]
      exact .inl rfl
  | cons a more ih =>
      rcases command_or_isArgument h with ⟨c, hawaits, hc⟩ | hargument
      · rw [readLeading_of_command hawaits hc] at h
        rw [readLeading_of_command (g := g.preset s) hawaits hc]
        exact .inl (readCommand_preset h s)
      · have hargument' : IsArgument (g.preset s) a := hargument
        rw [readLeading_of_argument hargument, readLeading.next] at h
        rw [readLeading_of_argument hargument', readLeading.next]
        split at h
        · rename_i hform
          obtain ⟨g₁, hfiles, hi⟩ := bind_eq_ok_iff.1 h
          obtain rfl := pure_eq_ok_iff.1 hi
          rw [if_pos hform, ArgumentGroup.takeFiles_preset hfiles s]
          exact .inl rfl
        · rename_i hform
          obtain ⟨g₁, htake, hmore⟩ := bind_eq_ok_iff.1 h
          rw [if_neg hform]
          rcases (ArgumentGroup.take_eq_ok_iff.1 htake).preset s with hpreset | ⟨hgiven, r, hr⟩
          · rw [hpreset.take_eq]
            exact ih hmore
          · rw [hr]
            exact .inr ⟨readLeading_given hmore hgiven, r, rfl⟩

/-- Behind a command as well, a switch more is turned on and changes nothing else. -/
theorem readCommand_insert (h : readCommand g c (x ++ y) = .ok i)
    (h' : readCommand g c (x ++ s.label :: y) = .ok i') : i' = i.preset s := by
  obtain ⟨behind, file, g₁, hbehind, hfile, hg, rfl⟩ := readCommand_eq_ok_iff.1 h
  obtain ⟨behind', file', g₂, hbehind', hfile', hg', rfl⟩ := readCommand_eq_ok_iff.1 h'
  obtain rfl := Except.ok.inj (hg.symm.trans hg')
  obtain rfl := ArgumentGroup.readTrailing_insert hbehind (by simp [hfile]) hbehind'
  obtain rfl := Option.some.inj (hfile.symm.trans hfile')
  simp only [ArgumentGroup.preset, Invocation.preset, Options.turnOn_override]

/-- **The rest of a command line with a switch more,** if there is anything to do. -/
theorem readLeading_insert (h : readLeading g (x ++ y) = .ok i) (htask : i.task ≠ .askForFile)
    (h' : readLeading g (x ++ s.label :: y) = .ok i') : i' = i.preset s := by
  induction x generalizing g with
  | nil =>
      rw [List.nil_append, readLeading_of_argument (isArgument_label g s), readLeading.next,
        if_neg (ArgumentGroup.label_ne_separator s)] at h'
      obtain ⟨g₁, htake, hmore⟩ := bind_eq_ok_iff.1 h'
      obtain ⟨g₂, hg, rfl⟩ := ArgumentGroup.exists_of_take_label htake
      rw [List.nil_append, ← readLeading_of_settle hg] at h
      rcases readLeading_preset h s with hpreset | ⟨-, r, hr⟩
      · exact Except.ok.inj (hmore.symm.trans hpreset)
      · cases hmore.symm.trans hr
  | cons a x ih =>
      rw [List.cons_append] at h h'
      rcases command_or_isArgument h with ⟨c, hawaits, hc⟩ | hargument
      · rw [readLeading_of_command hawaits hc] at h h'
        exact readCommand_insert h h'
      · rw [readLeading_of_argument hargument, readLeading.next] at h h'
        split at h
        · rename_i hform
          rw [if_pos hform] at h'
          obtain ⟨g₁, hfiles, hi⟩ := bind_eq_ok_iff.1 h
          obtain ⟨g₂, hfiles', -⟩ := bind_eq_ok_iff.1 h'
          obtain rfl := pure_eq_ok_iff.1 hi
          refine absurd hfiles' (ArgumentGroup.takeFiles_insert hfiles fun hnone => htask ?_)
          simp only [Invocation.task, hnone]
        · rename_i hform
          rw [if_neg hform] at h'
          obtain ⟨g₁, htake, hmore⟩ := bind_eq_ok_iff.1 h
          obtain ⟨g₂, htake', hmore'⟩ := bind_eq_ok_iff.1 h'
          obtain rfl := Except.ok.inj (htake.symm.trans htake')
          exact ih hmore hmore'

namespace Invocation

/-- **A switch that is not given can be given in front of a command line,** which then asks for the
same with the switch turned on. -/
theorem ofArguments_cons (h : ofArguments more = .ok i) (hnew : s.given i.options = false) :
    ofArguments (s.label :: more) = .ok (i.preset s) := by
  have htake : (ArgumentGroup.empty .leading).take s.label =
      .ok ((ArgumentGroup.empty .leading).preset s) :=
    (ArgumentGroup.Takes.switch (ArgumentGroup.form_label s) (Switch.ofName?_name s) rfl
      (by cases s <;> rfl)).take_eq
  rw [ofArguments, readLeading_of_argument (isArgument_label _ s), readLeading.next,
    if_neg (ArgumentGroup.label_ne_separator s), htake]
  rcases readLeading_preset h s with hpreset | ⟨hgiven, -⟩
  · exact hpreset
  · exact absurd hgiven (by simp [hnew])

/-- **A command line with a switch more,** wherever this stands, asks for the same with the switch
turned on. -/
theorem ofArguments_insert (h : ofArguments (x ++ y) = .ok i) (htask : i.task ≠ .askForFile)
    (h' : ofArguments (x ++ s.label :: y) = .ok i') : i' = i.preset s :=
  readLeading_insert h htask h'

end Invocation

end ByteMachine
