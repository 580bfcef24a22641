/-
**Configurations written as JSON objects.**

A configuration is read from an object by taking its members into a draft, one after the other, and
giving every field that is still missing its default.  Fields that are all different and have values
of their own kinds can therefore stand in any order, with any blanks, and in any spelling.  Anything
more makes the object fail, and the first thing that is wrong says how: an unknown name and a name
that is already there at once, a value that does not fit as soon as it is read.  This last is also
why a member in front of the one that it repeats may fail for its own value, before the repetition
is seen.

Main definitions:

* `ByteMachine.Config.Gives` — members that give distinct fields values of their own kinds.

Main results:

* `ByteMachine.Config.ofJson_object` — **an object is read as a fold over its members**;
* `ByteMachine.Config.foldlM_of_gives` — members of fields that are not there yet are all taken;
* `ByteMachine.Config.json_object_is_read_by_its_members` — **what objects are configurations**.
-/

import ByteMachine.Proofs.Config.Entries
import ByteMachine.Proofs.Json.Objects
import Mathlib.Data.List.Forall2

set_option relaxedAutoImplicit false
set_option autoImplicit false

namespace ByteMachine

namespace Config

open Json (Reader Reads Member Frame Error Oversized)

/-! ### Reading members -/

section Members

variable {m : Member} {d : Draft} {f : Field} {e : Entry} {cs : List Char}

/-- A name of no field is refused at once. -/
theorem reads_readMember_unknown {name : String} (h : Field.ofName? name = none) (d : Draft)
    (cs : List Char) : Reads (readMember name d) cs
      (.error (.mismatch (.unknownField name (Field.all.map (·.name))))) := by
  intro rest hrest
  rw [readMember, h]
  rfl

/-- So is a name that is already there. -/
theorem reads_readMember_duplicate (h : d.has f = true) (cs : List Char) :
    Reads (readMember f.name d) cs (.error (.mismatch (.duplicateField f.name))) := by
  intro rest hrest
  rw [readMember, Field.ofName?_name]
  dsimp only
  rw [if_pos h]
  rfl

/-- Otherwise the value is read and put into the draft. -/
theorem reads_readMember {r : Except Error Entry} (hname : m.name = f.name) (h : d.has f = false)
    (hr : Reads f.readEntry m.value r) :
    Reads (readMember m.name d) m.behindName (r.map d.put) := by
  rw [hname, readMember, Field.ofName?_name]
  dsimp only
  rw [if_neg (by rw [h]; exact Bool.false_ne_true)]
  refine m.reads_behindName fun rest hrest => ?_
  rw [Field.read_eq, f.skipsBlanks_readEntry.map d.put]
  exact hr.map d.put rest hrest

theorem Field.exists_name_of_ofName? {name : String} {f : Field} (h : ofName? name = some f) :
    name = f.name := by
  have hfound := List.find?_some h
  exact (of_decide_eq_true hfound).symm

theorem exists_reads_readMember (m : Member) (d : Draft) :
    ∃ r, Reads (readMember m.name d) m.behindName r := by
  cases hname : Field.ofName? m.name with
  | none => exact ⟨_, reads_readMember_unknown hname d _⟩
  | some f =>
      have hname := Field.exists_name_of_ofName? hname
      cases hhas : d.has f with
      | true =>
          rw [hname]
          exact ⟨_, reads_readMember_duplicate hhas _⟩
      | false =>
          obtain ⟨r, hr, -⟩ := exists_reads_readEntry f m.isValue
          exact ⟨_, reads_readMember hname hhas hr⟩

/-- **An object is read as a fold over its members,** up to the first one that is refused. -/
theorem ofJson_object (o : Frame) (ms : List Member) :
    ofJson (String.ofList (o.object ms)) =
      (ms.foldlM (Member.verdict readMember) .empty).map Draft.complete := by
  refine Json.whole_eq o.after ?_
  have hmembers : Json.members readMember .empty
        (o.inside.val ++ (Json.membersText ms ++ '}' :: o.after.val)) =
      (ms.foldlM (Member.verdict readMember) .empty).map fun d => (d, '}' :: o.after.val) :=
    Json.members_membersText (fun m _ d => exists_reads_readMember m d) o.inside _ _
  rw [read, Frame.object, Json.bind_of_ok (Json.look_blanks o.before rfl _)]
  change (Json.members readMember .empty >>= fun d => Json.symbol '}' >>= fun _ => pure d.complete)
    (o.inside.val ++ (Json.membersText ms ++ '}' :: o.after.val)) = _
  cases hfold : ms.foldlM (Member.verdict readMember) Draft.empty with
  | error e =>
      rw [hfold] at hmembers
      exact Json.bind_of_error hmembers
  | ok d =>
      rw [hfold] at hmembers
      rw [Json.bind_of_ok hmembers, Json.bind_of_ok (Json.symbol_cons rfl _)]
      rfl

/-! ### Members that give entries -/

/-- **The member gives the entry:** it has the name of the field, and writes the value. -/
structure Entry.GivenBy (e : Entry) (m : Member) : Prop where
  name : m.name = e.field.name
  writes : e.Writes m.value

/-- **The members give these entries,** which are of distinct fields. -/
structure Gives (ms : List Member) (es : List Entry) : Prop where
  each : List.Forall₂ Entry.GivenBy es ms
  nodup : (es.map Entry.field).Nodup

theorem verdict_of_givenBy (h : e.GivenBy m) (hd : d.has e.field = false) :
    m.verdict readMember d = .ok (d.put e) :=
  m.verdict_eq (reads_readMember h.name hd (reads_readEntry h.writes))

theorem verdict_of_unknown (h : ∀ f : Field, m.name ≠ f.name) (d : Draft) :
    m.verdict readMember d =
      .error (.mismatch (.unknownField m.name (Field.all.map (·.name)))) := by
  refine m.verdict_eq (reads_readMember_unknown ?_ d _)
  cases hname : Field.ofName? m.name with
  | none => rfl
  | some f => exact absurd (Field.exists_name_of_ofName? hname) (h f)

theorem verdict_of_has (hname : m.name = f.name) (h : d.has f = true) :
    m.verdict readMember d = .error (.mismatch (.duplicateField m.name)) := by
  refine m.verdict_eq ?_
  rw [hname]
  exact reads_readMember_duplicate h _

/-- **Members of fields that are not there yet are all put into the draft.** -/
theorem foldlM_of_gives {ms : List Member} {es : List Entry} (h : Gives ms es)
    (hd : ∀ e ∈ es, d.has e.field = false) :
    ms.foldlM (Member.verdict readMember) d = .ok (d.putAll es) := by
  obtain ⟨heach, hnodup⟩ := h
  induction heach generalizing d with
  | nil => rfl
  | @cons e m es ms he _ ih =>
      obtain ⟨hnot, hes⟩ := List.nodup_cons.1 hnodup
      rw [List.foldlM_cons, verdict_of_givenBy he (hd e List.mem_cons_self)]
      have hne : ∀ e' ∈ es, e'.field ≠ e.field := fun e' he' hsame =>
        hnot (hsame ▸ List.mem_map_of_mem he')
      refine ih (fun e' he' => ?_) hes
      exact Draft.has_put_eq_false (hne e' he') (hd e' (List.mem_cons_of_mem e he'))

/-- Members that give entries make a configuration. -/
theorem ofJson_of_gives {ms : List Member} {es : List Entry} (h : Gives ms es) (o : Frame) :
    ofJson (String.ofList (o.object ms)) = .ok (Draft.empty.putAll es).complete := by
  rw [ofJson_object, foldlM_of_gives h fun e _ => Draft.has_empty e.field]
  rfl

/-- Members that give all the entries of a configuration make it, in any order. -/
theorem ofJson_of_perm {ms : List Member} {fs : List Field} {c : Config} (hperm : fs.Perm Field.all)
    (heach : List.Forall₂ Entry.GivenBy (fs.map c.entry) ms) (o : Frame) :
    ofJson (String.ofList (o.object ms)) = .ok c := by
  have hfields : (fs.map c.entry).map Entry.field = fs := by
    rw [List.map_map]
    exact List.map_id'' (fun f => c.field_entry f) fs
  have hnodup : ((fs.map c.entry).map Entry.field).Nodup := by
    rw [hfields, hperm.nodup_iff]
    decide
  rw [ofJson_of_gives ⟨heach, hnodup⟩ o]
  refine congrArg Except.ok (ext_entry fun f => ?_)
  have hf : f ∈ fs := by
    rw [hperm.mem_iff]
    cases f <;> decide
  have hfound := find?_of_mem hnodup (List.mem_map_of_mem (f := c.entry) hf)
  rw [field_entry] at hfound
  rw [entry_complete_putAll Draft.empty hnodup, hfound]
  rfl

/-- Of members that give entries, the first ones give the first entries. -/
theorem Gives.exists_append {ms₁ ms₂ : List Member} {es : List Entry} (h : Gives (ms₁ ++ ms₂) es) :
    ∃ es₁ es₂, es = es₁ ++ es₂ ∧ Gives ms₁ es₁ ∧ Gives ms₂ es₂ ∧
      ∀ e₁ ∈ es₁, ∀ e₂ ∈ es₂, e₁.field ≠ e₂.field := by
  obtain ⟨heach, hnodup⟩ := h
  have htake := List.forall₂_take_append es ms₁ ms₂ heach
  have hdrop := List.forall₂_drop_append es ms₁ ms₂ heach
  have hes := (List.take_append_drop ms₁.length es).symm
  rw [hes, List.map_append, List.nodup_append] at hnodup
  refine ⟨_, _, hes, ⟨htake, hnodup.1⟩, ⟨hdrop, hnodup.2.1⟩, fun e₁ h₁ e₂ h₂ => ?_⟩
  exact hnodup.2.2 _ (List.mem_map_of_mem h₁) _ (List.mem_map_of_mem h₂)

/-- The name of a member is the name of the field of its entry. -/
theorem Gives.exists_entry {ms : List Member} {es : List Entry} (h : Gives ms es) (hm : m ∈ ms) :
    ∃ e ∈ es, e.GivenBy m := by
  obtain ⟨heach, -⟩ := h
  induction heach with
  | nil => cases hm
  | @cons e m' es ms he _ ih =>
      rcases List.mem_cons.1 hm with rfl | hm
      · exact ⟨e, List.mem_cons_self, he⟩
      · obtain ⟨e', he', hgiven⟩ := ih hm
        exact ⟨e', List.mem_cons_of_mem e he', hgiven⟩

/-- **The first member that is refused decides.** -/
theorem foldlM_of_verdict_error {ms₁ ms₂ : List Member} {es : List Entry} {x : Error}
    (h : Gives ms₁ es) (hd : ∀ e ∈ es, d.has e.field = false)
    (hm : m.verdict readMember (d.putAll es) = .error x) :
    (ms₁ ++ m :: ms₂).foldlM (Member.verdict readMember) d = .error x := by
  rw [List.foldlM_append, foldlM_of_gives h hd]
  change (m :: ms₂).foldlM (Member.verdict readMember) (d.putAll es) = _
  rw [List.foldlM_cons, hm]
  rfl

theorem ofJson_of_verdict_error {ms₁ ms₂ : List Member} {es : List Entry} {x : Error}
    (h : Gives ms₁ es) (o : Frame) (hm : m.verdict readMember (Draft.empty.putAll es) = .error x) :
    ofJson (String.ofList (o.object (ms₁ ++ m :: ms₂))) = .error x := by
  rw [ofJson_object, foldlM_of_verdict_error h (fun e _ => Draft.has_empty e.field) hm]
  rfl

/-- A member that repeats one in front of it is refused for that. -/
theorem ofJson_of_repeated_behind {ms₁ ms₂ : List Member} {es : List Entry} (h : Gives ms₁ es)
    (o : Frame) (hm : ∃ m' ∈ ms₁, m'.name = m.name) :
    ofJson (String.ofList (o.object (ms₁ ++ m :: ms₂))) =
      .error (.mismatch (.duplicateField m.name)) := by
  obtain ⟨m', hm', hname⟩ := hm
  obtain ⟨e, he, hgiven⟩ := h.exists_entry hm'
  have hhas : (Draft.empty.putAll es).has e.field = true :=
    (Draft.has_putAll _ es _).2 (.inl (List.mem_map_of_mem he))
  exact ofJson_of_verdict_error h o (verdict_of_has (hname ▸ hgiven.name) hhas)

/-- The member of a field that is not there yet is judged by its value alone. -/
theorem verdict_of_not_has {r : Except Error Entry} (hname : m.name = f.name) (h : d.has f = false)
    (hr : Reads f.readEntry m.value r) : m.verdict readMember d = r.map d.put :=
  m.verdict_eq (reads_readMember hname h hr)

/-- So is the only member of an object. -/
theorem ofJson_singleton {r : Except Error Entry} (hname : m.name = f.name)
    (hr : Reads f.readEntry m.value r) (o : Frame) :
    ofJson (String.ofList (o.object [m])) = r.map fun e => (Draft.empty.put e).complete := by
  rw [ofJson_object, List.foldlM_cons, verdict_of_not_has hname (Draft.has_empty f) hr]
  cases r <;> rfl

/-- Behind a member that has been read, the one that it repeats is refused for that. -/
theorem foldlM_of_repeated {ms : List Member} {es : List Entry} {m' : Member} (h : Gives ms es)
    (hd : ∀ e ∈ es, d.has e.field = false) (hm' : m' ∈ ms) (hname : m'.name = e.field.name) :
    ms.foldlM (Member.verdict readMember) (d.put e) =
      .error (.mismatch (.duplicateField m'.name)) := by
  obtain ⟨ms₁, ms₂, rfl⟩ := List.append_of_mem hm'
  obtain ⟨es₁, es₂, rfl, h₁, h₂, hne⟩ := h.exists_append
  obtain ⟨e', he', hgiven⟩ := h₂.exists_entry List.mem_cons_self
  have hfield : e'.field = e.field := Field.name_injective (hgiven.name.symm.trans hname)
  refine foldlM_of_verdict_error h₁ (fun e₁ he₁ => ?_) (verdict_of_has hname ?_)
  · have hother : e₁.field ≠ e.field := hfield ▸ hne e₁ he₁ e' he'
    exact Draft.has_put_eq_false hother (hd e₁ (List.mem_append_left es₂ he₁))
  · exact (Draft.has_putAll _ es₁ _).2 (.inr ((d.has_put e _).2 (.inl rfl)))

/-- **A member in front of the one that it repeats** fails for its own value, if that fails alone,
and otherwise for the repetition. -/
theorem ofJson_of_repeated_in_front {ms₁ ms₂ : List Member} {es : List Entry}
    (h : Gives (ms₁ ++ ms₂) es) (o : Frame) (hm : ∃ m' ∈ ms₂, m'.name = m.name) :
    ∃ x, ofJson (String.ofList (o.object (ms₁ ++ m :: ms₂))) = .error x ∧
      (ofJson (String.ofList (o.object [m])) = .error x ∨
        x = .mismatch (.duplicateField m.name) ∧
          ∃ c, ofJson (String.ofList (o.object [m])) = .ok c) := by
  obtain ⟨m', hm', hname⟩ := hm
  obtain ⟨es₁, es₂, -, h₁, h₂, hne⟩ := h.exists_append
  obtain ⟨e', he', hgiven⟩ := h₂.exists_entry hm'
  have hfield : m.name = e'.field.name := hname.symm.trans hgiven.name
  have hnot := Draft.has_putAll_eq_false (fun e₁ he₁ => hne e₁ he₁ e' he')
    (Draft.has_empty e'.field)
  obtain ⟨r, hr, hentry, -⟩ := exists_reads_readEntry e'.field m.isValue
  have hverdict := verdict_of_not_has hfield hnot hr
  rw [ofJson_singleton hfield hr o]
  cases r with
  | error x => exact ⟨x, ofJson_of_verdict_error h₁ o hverdict, .inl rfl⟩
  | ok e =>
      refine ⟨_, ?_, .inr ⟨rfl, _, rfl⟩⟩
      have hrepeated : m'.name = e.field.name := hentry e rfl ▸ hgiven.name
      have hd : ∀ e₂ ∈ es₂, (Draft.empty.putAll es₁).has e₂.field = false := fun e₂ he₂ =>
        Draft.has_putAll_eq_false (fun e₁ he₁ => hne e₁ he₁ e₂ he₂) (Draft.has_empty e₂.field)
      rw [ofJson_object, List.foldlM_append,
        foldlM_of_gives h₁ fun e _ => Draft.has_empty e.field]
      change Except.map _ (List.foldlM _ (Draft.empty.putAll es₁) (m :: ms₂)) = _
      rw [List.foldlM_cons, hverdict]
      change Except.map _ (List.foldlM _ ((Draft.empty.putAll es₁).put e) ms₂) = _
      rw [foldlM_of_repeated h₂ hd hm' hrepeated, hname]
      rfl

/-- **The only member of an object is refused for its value,** if its field takes it for JSON. -/
theorem isData_of_singleton {x : Error} (hname : m.name = f.name) (hv : f.Recognizes m.value)
    (o : Frame) (h : ofJson (String.ofList (o.object [m])) = .error x) : x.IsData := by
  obtain ⟨r, hr, -, hjudges⟩ := exists_reads_readEntry f m.isValue
  rw [ofJson_singleton hname hr o] at h
  exact (hjudges hv).map _ x h

/-- A member that is replaced by one with an integer out of range fails. -/
theorem exists_error_of_integer {ms₁ ms₂ : List Member} {es : List Entry} {m₀ : Member}
    {bound : Nat} {k : Int} (h : Gives (ms₁ ++ m₀ :: ms₂) es) (o : Frame)
    (hname₀ : m₀.name = f.name) (hname : m.name = f.name) (hf : f.greatest? = some bound)
    (hv : m.value = Json.integerText k) (hk : ¬(0 ≤ k ∧ k ≤ bound)) :
    ∃ x, ofJson (String.ofList (o.object (ms₁ ++ m :: ms₂))) = .error x ∧
      (¬Oversized m.value → x.IsData) := by
  obtain ⟨es₁, es₂, -, h₁, h₂, hne⟩ := h.exists_append
  obtain ⟨e₀, he₀, hgiven⟩ := h₂.exists_entry List.mem_cons_self
  have hfield : e₀.field = f := Field.name_injective (hgiven.name.symm.trans hname₀)
  have hnot := Draft.has_putAll_eq_false (fun e₁ he₁ => hfield ▸ hne e₁ he₁ e₀ he₀)
    (Draft.has_empty f)
  obtain ⟨x, hx, hdata⟩ := exists_reads_readEntry_integerText hf hk
  rw [← hv] at hx hdata
  exact ⟨x, ofJson_of_verdict_error h₁ o (verdict_of_not_has hname hnot hx), hdata⟩

end Members

/-! ### Objects and configurations -/

/-- **What JSON objects are configurations.**  Members that give distinct fields values of their own
kinds, in any order, any spelling and with any blanks, are read as the configuration with these
values and with defaults for the other fields.  So all six fields of a configuration, however they
are written, are read as this configuration.

One more member at any place makes the object fail: for its name, if that is the name of no field;
for the repetition, if it stands behind the member whose name it repeats; and if it stands in front
of that, for its own value, if it fails alone, and otherwise for the repetition.  Alone it can only
fail for what the value is, and not for the text, if its field takes the value for JSON.  An integer
that is replaced by one out of the range of its field makes the object fail too. -/
theorem json_object_is_read_by_its_members (o : Frame) :
    (∀ ms es, Gives ms es → ∃ c, ofJson (String.ofList (o.object ms)) = .ok c ∧
      ∀ f, c.entry f = (es.find? fun e => e.field = f).getD (default.entry f)) ∧
    (∀ ms (fs : List Field) (c : Config), fs.Perm Field.all →
      List.Forall₂ Entry.GivenBy (fs.map c.entry) ms →
      ofJson (String.ofList (o.object ms)) = .ok c) ∧
    (∀ ms₁ ms₂ m es, Gives (ms₁ ++ ms₂) es → (∀ f : Field, m.name ≠ f.name) →
      ofJson (String.ofList (o.object (ms₁ ++ m :: ms₂))) =
        .error (.mismatch (.unknownField m.name (Field.all.map (·.name))))) ∧
    (∀ ms₁ ms₂ m es, Gives (ms₁ ++ ms₂) es → (∃ m' ∈ ms₁, m'.name = m.name) →
      ofJson (String.ofList (o.object (ms₁ ++ m :: ms₂))) =
        .error (.mismatch (.duplicateField m.name))) ∧
    (∀ ms₁ ms₂ m es, Gives (ms₁ ++ ms₂) es → (∃ m' ∈ ms₂, m'.name = m.name) →
      ∃ x, ofJson (String.ofList (o.object (ms₁ ++ m :: ms₂))) = .error x ∧
        (ofJson (String.ofList (o.object [m])) = .error x ∨
          x = .mismatch (.duplicateField m.name) ∧
            ∃ c, ofJson (String.ofList (o.object [m])) = .ok c)) ∧
    (∀ (m : Member) (f : Field) (x : Error), m.name = f.name → f.Recognizes m.value →
      ofJson (String.ofList (o.object [m])) = .error x → x.IsData) ∧
    ∀ ms₁ ms₂ (m₀ m : Member) es (f : Field) (bound : Nat) (k : Int), Gives (ms₁ ++ m₀ :: ms₂) es →
      m₀.name = f.name → f.greatest? = some bound → m.name = f.name →
      m.value = Json.integerText k → ¬(0 ≤ k ∧ k ≤ bound) →
      ∃ x, ofJson (String.ofList (o.object (ms₁ ++ m :: ms₂))) = .error x ∧
        (¬Oversized m.value → x.IsData) := by
  refine ⟨fun ms es h => ⟨_, ofJson_of_gives h o, entry_complete_putAll Draft.empty h.nodup⟩,
    fun ms fs c hperm heach => ofJson_of_perm hperm heach o,
    fun ms₁ ms₂ m es h hname => ?_, fun ms₁ ms₂ m es h hm => ?_,
    fun ms₁ ms₂ m es h hm => ofJson_of_repeated_in_front h o hm,
    fun m f x hname hv h => isData_of_singleton hname hv o h,
    fun ms₁ ms₂ m₀ m es f bound k h hname₀ hf hname hv hk =>
      exists_error_of_integer h o hname₀ hname hf hv hk⟩
  · obtain ⟨es₁, es₂, -, h₁, -⟩ := h.exists_append
    exact ofJson_of_verdict_error h₁ o (verdict_of_unknown hname _)
  · obtain ⟨es₁, es₂, -, h₁, -⟩ := h.exists_append
    exact ofJson_of_repeated_behind h₁ o hm

/-- A trace is asked for. -/
def traceAsked : Member := .bare "trace" (by decide) .yes

/-- The stack starts at an address. -/
def stackFrom (address : Nat) : Member :=
  .bare "stack_top" (by decide) (.number (Json.isNumber_integerText address))

/-- The stack ends at an address. -/
def stackTo (address : Nat) : Member :=
  .bare "stack_limit" (by decide) (.number (Json.isNumber_integerText address))

/-- A field with a name for its value. -/
def named (field : String) (hfield : field.toList.all Json.isPlain = true) (name : String)
    (hname : name.toList.all Json.isPlain = true) : Member :=
  .bare field hfield (.text (Json.spells_self hname))

/-- All that the default configuration sets, the last field first. -/
def defaultMembers : List Member :=
  [.bare "trace" (by decide) .no, named "jump_mode" (by decide) "plain" (by decide),
    named "overflow" (by decide) "wrap" (by decide), .bare "max_cycles" (by decide) .null,
    stackTo 0, stackFrom 244]

/-- A member whose name is the name of no field. -/
def speed : Member := .bare "speed" (by decide) .null

/-- Two fields make a configuration, and all six the one that they set.  A third member with an
unknown name, with a name that stands in front of it or with one that stands behind it does not, nor
does an address that is no byte. -/
theorem two_fields_make_configuration :
    Gives [traceAsked, stackFrom 16] [.trace true, .stackTop 16] ∧
    (∃ c, ofJson (String.ofList (Frame.bare.object [traceAsked, stackFrom 16])) = .ok c ∧
      c.entry .trace = .trace true ∧ c.entry .stackTop = .stackTop 16 ∧
      c.entry .overflow = .overflow .wrap) ∧
    ofJson (String.ofList (Frame.bare.object defaultMembers)) = .ok .default ∧
    ofJson (String.ofList (Frame.bare.object [traceAsked, speed, stackFrom 16])) =
      .error (.mismatch (.unknownField "speed" (Field.all.map (·.name)))) ∧
    ofJson (String.ofList (Frame.bare.object [traceAsked, traceAsked, stackFrom 16])) =
      .error (.mismatch (.duplicateField "trace")) ∧
    (∃ x, ofJson (String.ofList (Frame.bare.object [traceAsked, stackFrom 8, stackFrom 16])) =
      .error x) ∧
    ∃ x, ofJson (String.ofList (Frame.bare.object [stackFrom 300])) = .error x ∧ x.IsData := by
  obtain ⟨hreads, hall, hunknown, hbehind, hfront, hdata, hrange⟩ :=
    json_object_is_read_by_its_members Frame.bare
  have hgives : Gives [traceAsked, stackFrom 16] [.trace true, .stackTop 16] :=
    ⟨.cons ⟨rfl, .traced⟩ (.cons ⟨rfl, .stackTop 16⟩ .nil), by decide⟩
  obtain ⟨c, hc, hentry⟩ := hreads _ _ hgives
  obtain ⟨x, hx, -⟩ := hfront [traceAsked] [stackFrom 16] (stackFrom 8) _ hgives
    ⟨stackFrom 16, List.mem_cons_self, rfl⟩
  have hplain : (Entry.jumpMode .plain).Writes ('"' :: ("plain".toList ++ ['"'])) :=
    .jumpMode .plain (Json.spells_self (by decide))
  have hwrap : (Entry.overflow .wrap).Writes ('"' :: ("wrap".toList ++ ['"'])) :=
    .overflow .wrap (Json.spells_self (by decide))
  have hdefault : List.Forall₂ Entry.GivenBy (Field.all.reverse.map Config.default.entry)
      defaultMembers :=
    .cons ⟨rfl, .untraced⟩ (.cons ⟨rfl, hplain⟩ (.cons ⟨rfl, hwrap⟩ (.cons ⟨rfl, .unlimited⟩
      (.cons ⟨rfl, .stackLimit 0⟩ (.cons ⟨rfl, .stackTop 244⟩ .nil)))))
  have hsingle : Gives [stackFrom 16] [.stackTop 16] :=
    ⟨.cons ⟨rfl, .stackTop 16⟩ .nil, by decide⟩
  obtain ⟨y, hy, -⟩ := hrange [] [] (stackFrom 16) (stackFrom 300) _ .stackTop 255 300
    hsingle rfl rfl rfl rfl (by decide)
  have hfits : Field.stackTop.Recognizes (stackFrom 300).value := by
    rintro ⟨-, e, he⟩
    cases he.symm.trans (Json.reads_number_toDigits (n := 300) (by decide)).self
  exact ⟨hgives, ⟨c, hc, hentry .trace, hentry .stackTop, hentry .overflow⟩,
    hall defaultMembers _ .default (List.reverse_perm _) hdefault,
    hunknown [traceAsked] [stackFrom 16] speed _ hgives (by intro f; cases f <;> decide),
    hbehind [traceAsked] [stackFrom 16] traceAsked _ hgives ⟨traceAsked, List.mem_cons_self, rfl⟩,
    ⟨x, hx⟩, y, hy, hdata (stackFrom 300) .stackTop y rfl hfits hy⟩

/-- A policy that is a number, which is no name. -/
def numberAsPolicy : Member := .bare "overflow" (by decide) (.number (Json.isNumber_integerText 5))

/-- A policy. -/
def trapPolicy : Member := named "overflow" (by decide) "trap" (by decide)

/-- In front of the policy that it repeats the number fails, but not with an error about a value:
for a field with names for values it is no JSON. -/
theorem number_in_front_of_policy_is_malformed :
    Gives [trapPolicy] [.overflow .trap] ∧ numberAsPolicy.name = trapPolicy.name ∧
      String.ofList (Frame.bare.object [numberAsPolicy, trapPolicy]) =
        "\x7b\"overflow\":5,\"overflow\":\"trap\"\x7d" ∧
      ofJson "\x7b\"overflow\":5,\"overflow\":\"trap\"\x7d" = .error .malformed ∧
      ¬Error.malformed.IsData := by
  have hwrites : (Entry.overflow .trap).Writes trapPolicy.value :=
    .overflow .trap (Json.spells_self (by decide))
  have htext : String.ofList (Frame.bare.object [numberAsPolicy, trapPolicy]) =
      "\x7b\"overflow\":5,\"overflow\":\"trap\"\x7d" := by decide
  have hrefused : Reads Field.overflow.readEntry numberAsPolicy.value (.error .malformed) :=
    (Json.reads_variant_malformed rfl (by decide) (by decide) []).map Entry.overflow
  refine ⟨⟨.cons ⟨rfl, hwrites⟩ .nil, by decide⟩, rfl, htext, ?_, ?_⟩
  · rw [← htext]
    exact ofJson_of_verdict_error ⟨.nil, by decide⟩ .bare (verdict_of_not_has rfl rfl hrefused)
  · rintro ⟨m, hm⟩
    cases hm

end Config

end ByteMachine