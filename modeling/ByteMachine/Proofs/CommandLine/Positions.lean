/-
**Options may stand anywhere.**

An option and its value stay together, in one argument or in two.  Apart from that the options of a
command line may be given in any order, in front of a command, between the command and its file, and
behind the file; and a file that is to be run needs no command.  A value may look like a command or
like a file: where it is waited for, it is neither.  Two groups are read on the way, each of which
asks for itself whether an option is given twice, and the options of one are put over those of the
other.  None of this matters if no option is given twice: then every option adds its own part to
what is given, and the parts do not overlap.

Main definitions:

* `ByteMachine.GivenOption` — an option as it is given, with its words;
* `ByteMachine.GivenOption.options`, `optionsOf` — the part that it adds, and all parts together;
* `ByteMachine.ArgumentGroup.Passes` — words that a group takes without coming to its end.

Main results:

* `ByteMachine.GivenOption.optionsOf_perm` — **the order does not matter**;
* `ByteMachine.ArgumentGroup.exists_passes_words` — how a group takes options;
* `ByteMachine.GivenOption.options_may_stand_anywhere` — **the positions do not matter**.
-/

import ByteMachine.Proofs.CommandLine.Reporting
import Mathlib.Data.List.Nodup

set_option relaxedAutoImplicit false
set_option autoImplicit false

namespace ByteMachine

/-! ### Parts of options -/

namespace Options

theorem override_assoc (a b c : Options) :
    (a.override b).override c = a.override (b.override c) := by
  simp [override, Bool.or_assoc, Option.or_assoc]

/-- Options that do not give the same setting can be put over each other in both ways. -/
theorem override_comm {a b : Options}
    (h : ∀ u : Setting, u.given a = true → u.given b = false) : a.override b = b.override a := by
  have hor : ∀ {α : Type} {x y : Option α}, (x.isSome = true → y.isSome = false) →
      x.or y = y.or x := by
    intro α x y hxy
    cases x <;> cases y <;> simp_all
  simp only [override, Options.mk.injEq]
  exact ⟨Bool.or_comm _ _, Bool.or_comm _ _, Bool.or_comm _ _, Bool.or_comm _ _, hor (h .maxCycles),
    hor (h .stackTop), hor (h .overflow), hor (h .config)⟩

theorem setting_given_override (u : Setting) (upper lower : Options) :
    u.given (upper.override lower) = (u.given upper || u.given lower) := by
  cases u <;> simp [Setting.given, override]

/-- A value does not depend on what else is given. -/
theorem assign_eq (u : Setting) (value : String) (o : Options) :
    u.assign value o = (u.assign value none).map (·.override o) := by
  cases u <;> simp only [Setting.assign] <;> split <;> simp [Except.map, none, override]

/-- A value gives its own setting only. -/
theorem eq_of_given_assign {u t : Setting} {value : String} {o : Options}
    (h : u.assign value none = .ok o) (ht : t.given o = true) : t = u := by
  cases u <;> simp only [Setting.assign] at h <;> split at h <;> cases h <;> cases t <;>
    first | rfl | cases ht

end Options

/-- **An option as it is given:** a switch, or a setting with its value, which is attached behind an
equals sign or comes in the next argument. -/
inductive GivenOption where
  | switch (s : Switch)
  | setting (u : Setting) (value : String) (attached : Bool)
  deriving DecidableEq, Repr

namespace GivenOption

/-- The arguments that make the option. -/
def words : GivenOption → List String
  | switch s => [s.label]
  | setting u value true => ["--" ++ u.name ++ "=" ++ value]
  | setting u value false => ["--" ++ u.name, value]

/-- The arguments that make options, one after the other. -/
def wordsOf (os : List GivenOption) : List String := os.flatMap words

/-- Which option it is. -/
def key : GivenOption → Switch ⊕ Setting
  | switch s => .inl s
  | setting u _ _ => .inr u

/-- **The option is valid:** a setting takes the value, and a value in an argument of its own does
not look like an option. -/
def Valid : GivenOption → Prop
  | switch _ => True
  | setting u value attached =>
    (∃ o, u.assign value .none = .ok o) ∧ (attached = false → ArgumentForm.of value = .plain)

/-- **What is given by the option alone.** -/
def options : GivenOption → Options
  | switch s => s.turnOn .none
  | setting u value _ => (u.assign value .none).toOption.getD .none

/-- Whether the option of a key is given. -/
def given (k : Switch ⊕ Setting) (o : Options) : Bool := k.elim (·.given o) (·.given o)

/-- Options put over others, one after the other. -/
def stacked (os : List GivenOption) (o : Options) : Options :=
  os.foldl (fun o x => x.options.override o) o

/-- **What is given by options together.** -/
def optionsOf (os : List GivenOption) : Options := stacked os .none

variable {x y : GivenOption} {os os' : List GivenOption} {o : Options}

theorem assign_of_valid {u : Setting} {value : String} {attached : Bool}
    (h : Valid (setting u value attached)) (o : Options) :
    u.assign value o = .ok ((options (setting u value attached)).override o) := by
  obtain ⟨⟨o', ho'⟩, -⟩ := h
  rw [Options.assign_eq, options, ho']
  rfl

theorem given_none (k : Switch ⊕ Setting) : given k .none = false := by
  rcases k with s | u
  · cases s <;> rfl
  · cases u <;> rfl

theorem given_override (k : Switch ⊕ Setting) (upper lower : Options) :
    given k (upper.override lower) = (given k upper || given k lower) := by
  rcases k with s | u
  · exact Options.given_override s upper lower
  · exact Options.setting_given_override u upper lower

theorem given_turnOn_none {s : Switch} {k : Switch ⊕ Setting}
    (h : given k (s.turnOn .none) = true) : k = .inl s := by
  rcases k with t | u
  · cases s <;> cases t <;> first | rfl | cases h
  · cases s <;> cases u <;> cases h

/-- An option alone gives nothing but itself. -/
theorem key_of_given {k : Switch ⊕ Setting} (h : given k x.options = true) : k = x.key := by
  cases x with
  | switch s => exact given_turnOn_none h
  | setting u value attached =>
      cases ho : u.assign value .none with
      | error e =>
          rw [options, ho] at h
          exact absurd ((given_none k).symm.trans h) Bool.false_ne_true
      | ok o =>
          rw [options, ho] at h
          rcases k with s | t
          · have hnone : given (.inl s) o = given (.inl s) .none := Options.given_of_assign ho
            exact absurd ((given_none _).symm.trans (hnone.symm.trans h)) Bool.false_ne_true
          · exact congrArg Sum.inr (Options.eq_of_given_assign ho h)

/-- Different options do not overlap. -/
theorem override_left_comm (h : x.key ≠ y.key) (o : Options) :
    x.options.override (y.options.override o) = y.options.override (x.options.override o) := by
  have hcomm : x.options.override y.options = y.options.override x.options := by
    refine Options.override_comm fun u hx => ?_
    rw [← Bool.not_eq_true]
    intro hy
    exact h ((key_of_given (k := .inr u) hx).symm.trans (key_of_given (k := .inr u) hy))
  rw [← Options.override_assoc, hcomm, Options.override_assoc]

/-- What is given by others and by options put over them. -/
theorem mem_of_given_stacked {k : Switch ⊕ Setting} (h : given k (stacked os o) = true) :
    given k o = true ∨ k ∈ os.map key := by
  induction os generalizing o with
  | nil => exact .inl h
  | cons x os ih =>
      rcases ih h with hgiven | hmem
      · rw [given_override, Bool.or_eq_true] at hgiven
        rcases hgiven with hx | ho
        · exact .inr (List.mem_map.2 ⟨x, List.mem_cons_self, (key_of_given hx).symm⟩)
        · exact .inl ho
      · exact .inr (List.mem_cons_of_mem _ hmem)

theorem stacked_append (os os' : List GivenOption) (o : Options) :
    stacked (os ++ os') o = stacked os' (stacked os o) :=
  List.foldl_append

theorem stacked_override (os : List GivenOption) (a b : Options) :
    stacked os (a.override b) = (stacked os a).override b := by
  induction os generalizing a with
  | nil => rfl
  | cons x os ih => exact (congrArg (stacked os) (Options.override_assoc _ _ _).symm).trans (ih _)

/-- What is given in front of others and by these. -/
theorem optionsOf_append (os os' : List GivenOption) :
    optionsOf (os ++ os') = (optionsOf os').override (optionsOf os) := by
  rw [optionsOf, stacked_append, optionsOf, ← stacked_override, Options.none_override]
  rfl

/-- **The order of different options does not matter.** -/
theorem optionsOf_perm (hnodup : (os.map key).Nodup) (h : os.Perm os') :
    optionsOf os = optionsOf os' := by
  refine h.foldl_eq' (fun x hx y hy o => ?_) Options.none
  by_cases hkey : x.key = y.key
  · obtain rfl := List.inj_on_of_nodup_map hnodup hx hy hkey
    rfl
  · exact (override_left_comm hkey o).symm

end GivenOption

/-! ### Words that a group takes -/

theorem Command.ofName?_eq_none_iff {a : String} :
    ofName? a = none ↔ ∀ c : Command, a ≠ c.name := by
  have hall : ∀ c : Command, c ∈ all := by
    intro c
    cases c <;> decide
  rw [ofName?, List.find?_eq_none]
  constructor
  · intro h c hc
    exact h c (hall c) (decide_eq_true hc.symm)
  · intro h c _ hc
    exact h c (of_decide_eq_true hc).symm

/-- An argument that begins with a dash is no command. -/
theorem isArgument_of_dash {g : ArgumentGroup} {a : String} (h : a.toList.head? = some '-') :
    IsArgument g a := by
  refine .inr ⟨Command.ofName?_eq_none_iff.2 fun c => ?_, ?_⟩
  · rintro rfl
    cases c <;> exact absurd h (by decide)
  · rintro rfl
    exact absurd h (by decide)

theorem form_setting (u : Setting) : ArgumentForm.of ("--" ++ u.name) = .long u.name none := by
  cases u <;> decide +kernel

theorem form_attached (u : Setting) (value : String) :
    ArgumentForm.of ("--" ++ u.name ++ "=" ++ value) = .long u.name (some value) := by
  cases u <;> simp [ArgumentForm.of, Setting.name, String.toList_append]

/-- An argument that does not begin with a dash is a value or a file. -/
theorem form_plain {a : String} (h : a.toList.head? ≠ some '-') : ArgumentForm.of a = .plain := by
  unfold ArgumentForm.of
  split <;> simp_all

namespace ArgumentGroup

variable {g g' g₁ g₂ : ArgumentGroup} {a : String} {ws more : List String} {x : GivenOption}
  {os : List GivenOption}

/-- **The group takes words** without coming to its end: each of them can be read, and none is a
command or the two dashes behind which only files stand. -/
inductive Passes : ArgumentGroup → List String → ArgumentGroup → Prop
  | nil (g : ArgumentGroup) : Passes g [] g
  | cons {g g₁ g₂ : ArgumentGroup} {a : String} {ws : List String} (hargument : IsArgument g a)
      (hform : ArgumentForm.of a ≠ .separator) (htakes : Takes g a g₁) (hmore : Passes g₁ ws g₂) :
      Passes g (a :: ws) g₂

theorem Passes.append (h : Passes g ws g₁) (h' : Passes g₁ more g₂) : Passes g (ws ++ more) g₂ := by
  induction h with
  | nil => exact h'
  | cons hargument hform htakes _ ih => exact .cons hargument hform htakes (ih h')

theorem Passes.readTrailing_eq (h : Passes g ws g') (more : List String) :
    g.readTrailing (ws ++ more) = g'.readTrailing more := by
  induction h with
  | nil => rfl
  | cons _ hform htakes _ ih =>
      rw [List.cons_append, readTrailing, if_neg hform, htakes.take_eq]
      exact ih

theorem Passes.readLeading_eq (h : Passes g ws g') (more : List String) :
    readLeading g (ws ++ more) = readLeading g' more := by
  induction h with
  | nil => rfl
  | cons hargument hform htakes _ ih =>
      rw [List.cons_append, readLeading_of_argument hargument, readLeading.next, if_neg hform,
        htakes.take_eq]
      exact ih

/-- The value of a setting that is not given yet. -/
theorem assign_of_valid {u : Setting} {value : String} {attached : Bool}
    (hvalid : (GivenOption.setting u value attached).Valid) (hnew : u.given g.options = false) :
    g.assign u value = .ok { g with
      options := (GivenOption.setting u value attached).options.override g.options } := by
  rw [assign, hnew, if_neg Bool.false_ne_true, GivenOption.assign_of_valid hvalid]

/-- **How a group takes an option** that is not given yet. -/
theorem exists_passes_words (hvalid : x.Valid) (hg : g.settle = .ok g₁)
    (hnew : GivenOption.given x.key g₁.options = false) :
    ∃ g', Passes g x.words g' ∧
      g'.settle = .ok { g₁ with options := x.options.override g₁.options } := by
  obtain ⟨-, o, rfl, -⟩ := exists_of_settle hg
  cases x with
  | switch s =>
      refine ⟨_, .cons (isArgument_label g s) (label_ne_separator s)
        (.switch (form_label s) (Switch.ofName?_name s) hg hnew) (.nil _), ?_⟩
      rw [GivenOption.options, Options.turnOn_override, Options.none_override]
      rfl
  | setting u value attached =>
      have hswitch : Switch.ofName? u.name = none := by cases u <;> rfl
      cases attached with
      | true =>
          refine ⟨_, .cons (isArgument_of_dash (by simp)) (by rw [form_attached]; exact nofun)
            (.setting (form_attached u value) hswitch (Setting.ofName?_name u) hg
              (assign_of_valid hvalid hnew)) (.nil _), rfl⟩
      | false =>
          have hplain := hvalid.2 rfl
          refine ⟨_, .cons (isArgument_of_dash (by simp)) (by rw [form_setting]; exact nofun)
            (.announces (form_setting u) hswitch (Setting.ofName?_name u) hg)
            (.cons (.inl rfl) (by rw [hplain]; exact nofun) (.value (.inr hplain) rfl)
              (.nil _)), ?_⟩
          exact assign_of_valid (g := ⟨g.kind, o, none, g.file⟩) hvalid hnew

/-- **How a group takes options** that are not given yet, each of them once. -/
theorem exists_passes_flatMap_words (hvalid : ∀ x ∈ os, x.Valid)
    (hnodup : (os.map GivenOption.key).Nodup) (hg : g.settle = .ok g₁)
    (hnew : ∀ x ∈ os, GivenOption.given x.key g₁.options = false) :
    ∃ g', Passes g (GivenOption.wordsOf os) g' ∧
      g'.settle = .ok { g₁ with options := GivenOption.stacked os g₁.options } := by
  induction os generalizing g g₁ with
  | nil => exact ⟨g, .nil g, hg⟩
  | cons x os ih =>
      rw [List.map_cons, List.nodup_cons] at hnodup
      obtain ⟨hx, hos⟩ := List.forall_mem_cons.1 hvalid
      obtain ⟨hxnew, hosnew⟩ := List.forall_mem_cons.1 hnew
      obtain ⟨g₂, hpass, hg₂⟩ := exists_passes_words hx hg hxnew
      have hnew₂ : ∀ y ∈ os,
          GivenOption.given y.key (x.options.override g₁.options) = false := by
        intro y hy
        rw [GivenOption.given_override, hosnew y hy, Bool.or_false, ← Bool.not_eq_true]
        intro hgiven
        exact hnodup.1 (GivenOption.key_of_given hgiven ▸ List.mem_map_of_mem hy)
      obtain ⟨g₃, hmore, hg₃⟩ := ih hos hnodup.2 hg₂ hnew₂
      exact ⟨g₃, hpass.append hmore, hg₃⟩

/-- **How a group takes its file** between options. -/
theorem exists_passes_file (kind : GroupKind) {file : String} {os os' : List GivenOption}
    (hvalid : ∀ x ∈ os ++ os', x.Valid) (hnodup : ((os ++ os').map GivenOption.key).Nodup)
    (hplain : ArgumentForm.of file = .plain) (hname : Command.ofName? file = none)
    (hhelp : file ≠ Command.helpName) :
    ∃ g', Passes (.empty kind)
        (GivenOption.wordsOf os ++ file :: GivenOption.wordsOf os') g' ∧
      g'.settle = .ok ⟨kind, GivenOption.optionsOf (os ++ os'), none, some file⟩ := by
  obtain ⟨hos, hos'⟩ := List.forall_mem_append.1 hvalid
  rw [List.map_append, List.nodup_append'] at hnodup
  obtain ⟨hnodup, hnodup', hdisjoint⟩ := hnodup
  obtain ⟨g₁, hfront, hg₁⟩ := exists_passes_flatMap_words (g := .empty kind) hos hnodup rfl
    fun x _ => GivenOption.given_none x.key
  obtain ⟨hawaits, o, ho, -⟩ := exists_of_settle hg₁
  have hnone : g₁.file = none := (congrArg ArgumentGroup.file ho).symm
  have hnew : ∀ x ∈ os', GivenOption.given x.key (GivenOption.optionsOf os) = false := by
    intro x hx
    rw [← Bool.not_eq_true]
    intro hgiven
    rcases GivenOption.mem_of_given_stacked hgiven with hnothing | hmem
    · exact absurd ((GivenOption.given_none x.key).symm.trans hnothing) Bool.false_ne_true
    · exact hdisjoint hmem (List.mem_map_of_mem hx)
  obtain ⟨g₂, hback, hg₂⟩ := exists_passes_flatMap_words
    (g := ⟨kind, GivenOption.optionsOf os, none, some file⟩) hos' hnodup' rfl hnew
  refine ⟨g₂, hfront.append (.cons (.inr ⟨hname, hhelp⟩) (by rw [hplain]; exact nofun)
    (.file (.inr hplain) hawaits hnone hg₁) hback), ?_⟩
  have hoptions : GivenOption.optionsOf (os ++ os') =
      GivenOption.stacked os' (GivenOption.optionsOf os) := GivenOption.stacked_append os os' .none
  rw [hoptions]
  exact hg₂

end ArgumentGroup

/-! ### Whole command lines -/

namespace Invocation

variable {a b c os : List GivenOption} {file : String}

/-- **A command with its file and options** in front of it, behind it and behind the file. -/
theorem ofArguments_of_command (command : Command) (hvalid : ∀ x ∈ a ++ (b ++ c), x.Valid)
    (hnodup : ((a ++ (b ++ c)).map GivenOption.key).Nodup)
    (hplain : ArgumentForm.of file = .plain) (hname : Command.ofName? file = none)
    (hhelp : file ≠ Command.helpName) :
    ofArguments (GivenOption.wordsOf a ++
        command.name :: (GivenOption.wordsOf b ++ file :: GivenOption.wordsOf c)) =
      .ok ⟨none, some (command, file), GivenOption.optionsOf (a ++ (b ++ c))⟩ := by
  obtain ⟨ha, hbc⟩ := List.forall_mem_append.1 hvalid
  rw [List.map_append, List.nodup_append'] at hnodup
  obtain ⟨g₁, hfront, hg₁⟩ := ArgumentGroup.exists_passes_flatMap_words (g := .empty .leading) ha
    hnodup.1 rfl fun x _ => GivenOption.given_none x.key
  obtain ⟨g₂, hback, hg₂⟩ := ArgumentGroup.exists_passes_file .trailing hbc hnodup.2.1
    hplain hname hhelp
  obtain ⟨hawaits, -⟩ := ArgumentGroup.exists_of_settle hg₁
  have htrailing := hback.readTrailing_eq []
  rw [List.append_nil, ArgumentGroup.readTrailing, hg₂] at htrailing
  rw [ofArguments, hfront.readLeading_eq, readLeading_of_command hawaits (Command.ofName?_name _),
    readCommand_eq_ok_iff, GivenOption.optionsOf_append]
  exact ⟨_, file, _, htrailing, rfl, hg₁, rfl⟩

/-- **A file without a command,** with options in front of it and behind it. -/
theorem ofArguments_of_file (hvalid : ∀ x ∈ a ++ b, x.Valid)
    (hnodup : ((a ++ b).map GivenOption.key).Nodup)
    (hplain : ArgumentForm.of file = .plain) (hname : Command.ofName? file = none)
    (hhelp : file ≠ Command.helpName) :
    ofArguments (GivenOption.wordsOf a ++ file :: GivenOption.wordsOf b) =
      .ok ⟨some file, none, GivenOption.optionsOf (a ++ b)⟩ := by
  obtain ⟨g, hpass, hg⟩ := ArgumentGroup.exists_passes_file .leading hvalid hnodup hplain hname
    hhelp
  have hleading := hpass.readLeading_eq []
  rw [List.append_nil] at hleading
  rw [ofArguments, hleading, readLeading, hg]
  rfl

end Invocation

namespace GivenOption

/-- **Options may stand anywhere.**  Valid options, each of which is given at most once, are put in
front of the command that runs a file, between the command and the file, and behind the file, in any
order; or in front of the file and behind it, where there is no command.  All of these command lines
give the same options and name the same file, and the response to all of them is the same.  The file
must not begin with a dash and must not have the name of a command; the values may. -/
theorem options_may_stand_anywhere (files : Files) (p : Palette) {os : List GivenOption}
    (hvalid : ∀ x ∈ os, x.Valid) (hnodup : (os.map key).Nodup) {file : String}
    (hdash : file.toList.head? ≠ some '-') (hname : ∀ c : Command, file ≠ c.name)
    (hhelp : file ≠ Command.helpName) :
    (∀ a b c : List GivenOption, (a ++ (b ++ c)).Perm os →
      Invocation.ofArguments (wordsOf a ++ Command.run.name :: (wordsOf b ++ file :: wordsOf c)) =
        .ok ⟨none, some (.run, file), optionsOf os⟩ ∧
      respond files p (wordsOf a ++ Command.run.name :: (wordsOf b ++ file :: wordsOf c)) =
        respond files p (wordsOf os ++ [file])) ∧
    ∀ a b : List GivenOption, (a ++ b).Perm os →
      Invocation.ofArguments (wordsOf a ++ file :: wordsOf b) = .ok ⟨some file, none, optionsOf os⟩ ∧
      respond files p (wordsOf a ++ file :: wordsOf b) = respond files p (wordsOf os ++ [file]) := by
  have hplain := form_plain hdash
  have hnone := Command.ofName?_eq_none_iff.2 hname
  have hvalid' : ∀ {l : List GivenOption}, l.Perm os → ∀ x ∈ l, x.Valid :=
    fun hperm x hx => hvalid x (hperm.mem_iff.1 hx)
  have hnodup' : ∀ {l : List GivenOption}, l.Perm os → (l.map key).Nodup :=
    fun hperm => (hperm.map _).nodup_iff.2 hnodup
  have hoptions : ∀ {l : List GivenOption}, l.Perm os → optionsOf l = optionsOf os :=
    fun hperm => optionsOf_perm (hnodup' hperm) hperm
  have hrespond : ∀ {arguments : List String} {i : Invocation},
      Invocation.ofArguments arguments = .ok i → i.task = .run file →
      respond files p arguments = Job.answer p (Job.prepare files p i.options file) :=
    fun h htask => respond_eq_answer files p h htask
  have hall := Invocation.ofArguments_of_file (a := os) (b := []) (by simpa using hvalid)
    (by simpa using hnodup) hplain hnone hhelp
  rw [List.append_nil] at hall
  refine ⟨fun a b c hperm => ?_, fun a b hperm => ?_⟩
  · have hcommand := Invocation.ofArguments_of_command .run (hvalid' hperm) (hnodup' hperm) hplain
      hnone hhelp
    rw [hoptions hperm] at hcommand
    exact ⟨hcommand, (hrespond hcommand rfl).trans (hrespond hall rfl).symm⟩
  · have hfile := Invocation.ofArguments_of_file (hvalid' hperm) (hnodup' hperm) hplain hnone hhelp
    rw [hoptions hperm] at hfile
    exact ⟨hfile, (hrespond hfile rfl).trans (hrespond hall rfl).symm⟩

/-- A configuration file with the name of the command, and two more options. -/
def runAsConfig : List GivenOption :=
  [.setting .config "run" false, .switch .json, .setting .overflow "trap" true]

/-- The first `run` is the value of the setting, the second one the command. -/
theorem file_named_as_command_is_configuration :
    Invocation.ofArguments ["--config", "run", "run", "--json", "a", "--overflow=trap"] =
        .ok ⟨none, some (.run, "a"),
          { Options.none with json := true, overflow := some .trap, config := some "run" }⟩ ∧
      Invocation.ofArguments ["--overflow=trap", "a", "--config", "run", "--json"] =
        .ok ⟨some "a", none,
          { Options.none with json := true, overflow := some .trap, config := some "run" }⟩ ∧
      respond faultyFiles .plain ["--config", "run", "run", "--json", "a", "--overflow=trap"] =
        respond faultyFiles .plain ["--overflow=trap", "a", "--config", "run", "--json"] := by
  have hvalid : ∀ x ∈ runAsConfig, x.Valid := by
    intro x hx
    simp only [runAsConfig, List.mem_cons, List.not_mem_nil, or_false] at hx
    rcases hx with rfl | rfl | rfl
    · exact ⟨⟨_, rfl⟩, fun _ => by decide⟩
    · trivial
    · exact ⟨⟨_, rfl⟩, nofun⟩
  obtain ⟨hcommand, hfile⟩ := options_may_stand_anywhere faultyFiles .plain hvalid (by decide)
    (show "a".toList.head? ≠ some '-' by decide) (fun c => by cases c <;> decide) (by decide)
  obtain ⟨hrun, hrunResponse⟩ := hcommand [.setting .config "run" false] [.switch .json]
    [.setting .overflow "trap" true] (.refl _)
  obtain ⟨hbare, hbareResponse⟩ := hfile [.setting .overflow "trap" true]
    [.setting .config "run" false, .switch .json] (by decide)
  exact ⟨hrun, hbare, hrunResponse.trans hbareResponse.symm⟩

end GivenOption

end ByteMachine
