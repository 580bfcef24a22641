/-
**Snapshots written as JSON objects.**

An object is a snapshot exactly if each of the five fields has one member, no less and no more, and
the value of this member is read as the field of the snapshot.  The order of the members plays no
part in it, and neither do members of other names, which are read past whatever value they have.

Main definitions:

* `ByteMachine.Snapshot.named` — the members of a field;
* `ByteMachine.Snapshot.Collects` — what becomes of the entry of a field when its members are read.

Main results:

* `ByteMachine.Snapshot.ofJson_object` — **an object is read as a fold over its members**;
* `ByteMachine.Snapshot.foldlM_eq_ok` — and these are read field by field;
* `ByteMachine.Snapshot.ofJson_object_eq_ok` — **which objects are a snapshot**.
-/

import ByteMachine.Proofs.Json.Objects
import ByteMachine.Proofs.Json.Skipping
import ByteMachine.Proofs.Snapshot.Entries

set_option relaxedAutoImplicit false
set_option autoImplicit false

namespace ByteMachine

namespace Snapshot

open Json (Reads Member Frame Error)

variable {m : Member} {ms : List Member} {d : Draft} {f : Field} {e : Entry} {s : Snapshot}

/-! ### Reading members -/

/-- A member of another name is read past. -/
theorem reads_readMember_unknown (h : Field.ofName? m.name = none) (d : Draft) :
    Reads (readMember m.name d) m.behindName (.ok d) := by
  rw [readMember, h]
  exact m.reads_behindName fun rest hrest =>
    Json.bind_of_ok (Json.skip_append m.isValue m.beforeValue hrest)

/-- A field that is already there is refused at once. -/
theorem reads_readMember_duplicate (h : d.has f = true) (cs : List Char) :
    Reads (readMember f.name d) cs (.error (.mismatch (.duplicateField f.name))) := by
  intro rest _
  rw [readMember, Field.ofName?_name]
  dsimp only
  rw [if_pos h]
  rfl

/-- Otherwise the value is read and put into the draft. -/
theorem reads_readMember {r : Except Error Entry} (hname : m.name = f.name) (h : d.has f = false)
    (hr : Reads f.readEntry m.value r) :
    Reads (readMember m.name d) m.behindName (r.map d.put) := by
  rw [hname, readMember, Field.ofName?_name]
  dsimp only
  rw [if_neg (by rw [h]; exact Bool.false_ne_true)]
  refine m.reads_behindName fun rest hrest => ?_
  rw [Field.read_eq, f.skipsBlanks_readEntry.map d.put]
  exact hr.map d.put rest hrest

theorem exists_reads_readMember (m : Member) (d : Draft) :
    ∃ r, Reads (readMember m.name d) m.behindName r := by
  cases hname : Field.ofName? m.name with
  | none => exact ⟨_, reads_readMember_unknown hname d⟩
  | some f =>
      have hname := Field.exists_name_of_ofName? hname
      cases hhas : d.has f with
      | true =>
          rw [hname]
          exact ⟨_, reads_readMember_duplicate hhas _⟩
      | false =>
          obtain ⟨r, hr, -⟩ := exists_reads_readEntry f m.isValue
          exact ⟨_, reads_readMember hname hhas hr⟩

/-- What is made of a draft behind the last member. -/
def Draft.outcome (d : Draft) : Except Error Snapshot :=
  match d.complete with
  | .ok s => .ok s
  | .error f => .error (.mismatch (.missingField f.name))

theorem Draft.outcome_eq_ok : d.outcome = .ok s ↔ d.complete = .ok s := by
  rw [outcome]
  cases d.complete with
  | ok s' => rw [Except.ok.injEq, Except.ok.injEq]
  | error f => exact ⟨nofun, nofun⟩

/-- **An object is read as a fold over its members,** up to the first one that is refused. -/
theorem ofJson_object (o : Frame) (ms : List Member) :
    ofJson (String.ofList (o.object ms)) =
      (ms.foldlM (Member.verdict readMember) .empty).bind Draft.outcome := by
  refine Json.whole_eq o.after ?_
  have hmembers : Json.members readMember .empty
        (o.inside.val ++ (Json.membersText ms ++ '}' :: o.after.val)) =
      (ms.foldlM (Member.verdict readMember) .empty).map fun d => (d, '}' :: o.after.val) :=
    Json.members_membersText (fun m _ d => exists_reads_readMember m d) o.inside _ _
  rw [read, Frame.object, Json.bind_of_ok (Json.look_blanks o.before rfl _)]
  change (Json.members readMember .empty >>= fun d => ofDraft d >>= fun s =>
      Json.symbol '}' >>= fun _ => pure s)
    (o.inside.val ++ (Json.membersText ms ++ '}' :: o.after.val)) = _
  cases hfold : ms.foldlM (Member.verdict readMember) Draft.empty with
  | error e =>
      rw [hfold] at hmembers
      exact Json.bind_of_error hmembers
  | ok d =>
      rw [hfold] at hmembers
      rw [Json.bind_of_ok hmembers, ofDraft]
      dsimp only [Except.bind]
      rw [Draft.outcome]
      cases d.complete with
      | ok s =>
          change (Json.symbol '}' >>= fun _ => pure s) ('}' :: o.after.val) = _
          exact Json.bind_of_ok (Json.symbol_cons rfl _)
      | error f => rfl

/-! ### Members of one field -/

/-- **The members of a field,** which are those with its name. -/
def named (f : Field) (ms : List Member) : List Member := ms.filter fun m => m.name = f.name

theorem named_cons_of_eq (h : m.name = f.name) (ms : List Member) :
    named f (m :: ms) = m :: named f ms :=
  List.filter_cons_of_pos (decide_eq_true h)

theorem named_cons_of_ne (h : m.name ≠ f.name) (ms : List Member) :
    named f (m :: ms) = named f ms :=
  List.filter_cons_of_neg (by rw [decide_eq_true_iff]; exact h)

/-- **What becomes of the entry of a field** when its members are read: a field that is there has no
members any more, and the first member of a field that is not gives the entry. -/
def Collects (f : Field) : Option Entry → List Member → Option Entry → Prop
  | old, [], new => old = new
  | none, m :: ms, new =>
    ∃ e, Reads f.readEntry m.value (.ok e) ∧ Collects f (some e) ms new
  | some _, _ :: _, _ => False

/-- So an entry comes from exactly one member. -/
theorem collects_none_some {ms : List Member} :
    Collects f none ms (some e) ↔ ∃ m, ms = [m] ∧ Reads f.readEntry m.value (.ok e) := by
  constructor
  · intro h
    cases ms with
    | nil => cases h
    | cons m ms =>
        obtain ⟨e', he', h⟩ := h
        cases ms with
        | nil =>
            cases h
            exact ⟨m, rfl, he'⟩
        | cons m' ms => exact h.elim
  · rintro ⟨m, rfl, hm⟩
    exact ⟨e, hm, rfl⟩

/-- The first member of a field gives its entry. -/
theorem collects_cons (h : Reads f.readEntry m.value (.ok e)) {new : Option Entry} :
    Collects f none (m :: ms) new ↔ Collects f (some e) ms new := by
  constructor
  · rintro ⟨e', he', hms⟩
    cases h.unique he'
    exact hms
  · exact fun hms => ⟨e, h, hms⟩

/-- A member of another name belongs to no field. -/
theorem named_cons_of_unknown (h : Field.ofName? m.name = none) (f : Field) (ms : List Member) :
    named f (m :: ms) = named f ms := by
  refine named_cons_of_ne (fun hf => ?_) ms
  rw [hf, Field.ofName?_name] at h
  cases h

/-- **The member of a field is taken,** if the field is not there yet and the value is one of its
own, and goes to its field. -/
theorem collects_known {g : Field} (hname : m.name = g.name) (ms : List Member) (d : Draft)
    (new : Field → Option Entry) :
    (∀ f, Collects f (d.given? f) (named f (m :: ms)) (new f)) ↔
      ∃ d', m.verdict readMember d = .ok d' ∧
        ∀ f, Collects f (d'.given? f) (named f ms) (new f) := by
  cases hhas : d.given? g with
  | some e =>
      have hrefused := reads_readMember_duplicate (d := d) (f := g)
        (by rw [d.has_eq, hhas]; rfl) m.behindName
      rw [← hname] at hrefused
      rw [m.verdict_eq hrefused]
      refine ⟨fun h => ?_, fun ⟨d', hd', _⟩ => by cases hd'⟩
      have hg := h g
      rw [hhas, named_cons_of_eq hname] at hg
      exact hg.elim
  | none =>
      obtain ⟨r, hr, hfield⟩ := exists_reads_readEntry g m.isValue
      have hread := reads_readMember (d := d) hname (by rw [d.has_eq, hhas]; rfl) hr
      rw [m.verdict_eq hread]
      cases r with
      | error x =>
          refine ⟨fun h => ?_, fun ⟨d', hd', _⟩ => by cases hd'⟩
          have hg := h g
          rw [hhas, named_cons_of_eq hname] at hg
          obtain ⟨e, he, -⟩ := hg
          cases hr.unique he
      | ok e =>
          -- the entry goes to its own field, and all others are as they were
          have hput : (∀ f, Collects f (d.given? f) (named f (m :: ms)) (new f)) ↔
              ∀ f, Collects f ((d.put e).given? f) (named f ms) (new f) := by
            refine forall_congr' fun f => ?_
            rw [Draft.given?_put, hfield e rfl]
            by_cases hf : g = f
            · subst hf
              rw [if_pos rfl, hhas, named_cons_of_eq hname]
              exact collects_cons hr
            · have hother : m.name ≠ f.name := fun hsame =>
                hf (Field.name_injective (hname.symm.trans hsame))
              rw [if_neg hf, named_cons_of_ne hother]
          rw [hput]
          exact ⟨fun h => ⟨_, rfl, h⟩, fun ⟨d', hd', h⟩ => by cases hd'; exact h⟩

/-- **Members are read field by field.** -/
theorem foldlM_eq_ok (ms : List Member) (d d' : Draft) :
    ms.foldlM (Member.verdict readMember) d = .ok d' ↔
      ∀ f, Collects f (d.given? f) (named f ms) (d'.given? f) := by
  -- induction on the members; each of them is one of the members of one field, or of none
  induction ms generalizing d with
  | nil => exact ⟨by rintro ⟨⟩ f; exact rfl, fun h => congrArg Except.ok (Draft.ext_given? h)⟩
  | cons m ms ih =>
      rw [List.foldlM_cons]
      cases hname : Field.ofName? m.name with
      | none =>
          simp only [named_cons_of_unknown hname]
          rw [m.verdict_eq (reads_readMember_unknown hname d)]
          exact ih d
      | some g =>
          rw [collects_known (Field.exists_name_of_ofName? hname)]
          cases m.verdict readMember d with
          | error x => exact ⟨nofun, fun ⟨d₁, hd₁, _⟩ => by cases hd₁⟩
          | ok d₁ =>
              refine (ih d₁).trans ⟨fun h => ⟨d₁, rfl, h⟩, ?_⟩
              rintro ⟨_, ⟨⟩, h⟩
              exact h

/-- **Which objects are a snapshot:** those in which each field has exactly one member, with its
value. -/
theorem ofJson_object_eq_ok (o : Frame) (ms : List Member) (s : Snapshot) :
    ofJson (String.ofList (o.object ms)) = .ok s ↔
      ∀ f, ∃ m, named f ms = [m] ∧ Reads f.readEntry m.value (.ok (s.entry f)) := by
  have hfull : ms.foldlM (Member.verdict readMember) Draft.empty = .ok (Draft.full s) ↔
      ∀ f, ∃ m, named f ms = [m] ∧ Reads f.readEntry m.value (.ok (s.entry f)) := by
    refine (foldlM_eq_ok ms .empty (.full s)).trans (forall_congr' fun f => ?_)
    rw [Draft.given?_empty, Draft.given?_full]
    exact collects_none_some
  rw [ofJson_object, ← hfull]
  cases ms.foldlM (Member.verdict readMember) Draft.empty with
  | error x => exact ⟨nofun, nofun⟩
  | ok d =>
      rw [Except.ok.injEq, ← Draft.complete_eq_ok]
      exact Draft.outcome_eq_ok

end Snapshot

end ByteMachine
