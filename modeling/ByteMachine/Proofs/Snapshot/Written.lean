/-
**What is written for a snapshot is read back.**

The written form is an object of five members with a line for each, and an array with a line for
each register.  Its members give the entries of the snapshot, so it is read as the snapshot, and so
is every other object in which they are found.

Main definitions:

* `ByteMachine.Snapshot.members` — **the members that are written** for a snapshot;
* `ByteMachine.Snapshot.Entry.GivenBy` — a member that gives an entry;
* `ByteMachine.Snapshot.known` — the members that have the name of a field.

Main results:

* `ByteMachine.Snapshot.toJson_eq` — the written form is an object of the written members;
* `ByteMachine.Snapshot.ofJson_of_perm` — **members that give all entries are a snapshot**;
* `ByteMachine.Snapshot.written_snapshot_is_read_back` — **what is written is read back**.
-/

import ByteMachine.Proofs.Snapshot.Members

set_option relaxedAutoImplicit false
set_option autoImplicit false

namespace ByteMachine

namespace Snapshot

open Json (Item Blanks Member Frame Error)

variable {m : Member} {ms : List Member} {f : Field} {s : Snapshot}

/-! ### The written form -/

/-- Blanks at the beginning of a line. -/
def lineStart (n : Nat) : Blanks :=
  ⟨'\n' :: List.replicate n ' ', fun c hc => by
    rcases List.mem_cons.1 hc with rfl | hc
    · rfl
    · rw [List.eq_of_mem_replicate hc]
      rfl⟩

/-- One blank. -/
def oneSpace : Blanks := ⟨[' '], fun c hc => by
  rw [List.mem_singleton.1 hc]
  rfl⟩

/-- Numbers with a line for each. -/
def numberItems : List UInt8 → List Item
  | [] => []
  | b :: bs =>
    { before := lineStart 4
      value := Nat.toDigits 10 b.toNat
      isValue := .number (.plus (Json.isMagnitude_toDigits b.toNat))
      after := if bs.isEmpty then lineStart 2 else .none } :: numberItems bs

theorem map_value_numberItems (bs : List UInt8) :
    (numberItems bs).map Item.value = bs.map fun b => Nat.toDigits 10 b.toNat := by
  induction bs with
  | nil => rfl
  | cons b bs ih => exact congrArg (_ :: ·) ih

/-- The line of a number. -/
def numberLine (b : UInt8) : String := "    " ++ b.toNat.repr

/-- Lines with commas between them are items, if the last line is ended. -/
theorem itemsText_numberItems (b : UInt8) (bs : List UInt8) :
    Json.itemsText (numberItems (b :: bs)) =
      '\n' :: ((",\n".intercalate ((b :: bs).map numberLine)).toList ++ "\n  ".toList) := by
  induction bs generalizing b with
  | nil => simp [Json.itemsText, numberItems, Json.moreItemsText, Item.text, numberLine, lineStart]
  | cons b' bs ih =>
      have hmore : Json.itemsText (numberItems (b :: b' :: bs)) =
          '\n' :: ((numberLine b).toList ++ ',' :: Json.itemsText (numberItems (b' :: bs))) := by
        simp [Json.itemsText, numberItems, Json.moreItemsText, Item.text, numberLine, lineStart,
          Blanks.none]
      rw [hmore, ih]
      simp [String.intercalate_cons_cons]

/-- **Lines of numbers are an array.** -/
theorem toList_numberLines (b : UInt8) (bs : List UInt8) :
    (numberLines ((b :: bs).map UInt8.toNat)).toList =
      Json.arrayText .none (numberItems (b :: bs)) := by
  have hlines : (fun v => "    " ++ v.repr) ∘ UInt8.toNat = numberLine := rfl
  rw [Json.arrayText, itemsText_numberItems, numberLines, List.map_map, hlines]
  simp [Blanks.none]

/-- What is written for a field is written for its entry. -/
theorem writes_fieldText (s : Snapshot) (f : Field) :
    (s.entry f).Writes (s.fieldText f).toList := by
  cases f with
  | pc =>
      rw [fieldText, Nat.toList_repr]
      exact .pc s.pc
  | flags =>
      rw [fieldText, Nat.toList_repr]
      exact .flags s.flags.bits
  | sp =>
      rw [fieldText, Nat.toList_repr]
      exact .sp s.sp
  | registers =>
      obtain ⟨b, bs, hbs⟩ := List.exists_cons_of_length_eq_add_one s.registers.length_toList
      rw [fieldText, hbs, toList_numberLines]
      refine .registers .none ?_
      rw [map_value_numberItems, ← hbs]
  | cycles =>
      rw [fieldText, Nat.toList_repr]
      exact .cycles s.cycles

/-- **The member that is written** for a field. -/
def member (s : Snapshot) (f : Field) : Member where
  before := lineStart 2
  spelling := f.name.toList
  name := f.name
  spells := Json.spells_self (by cases f <;> decide)
  beforeColon := .none
  beforeValue := oneSpace
  value := (s.fieldText f).toList
  isValue := (s.writes_fieldText f).isValue
  after := if f = .cycles then lineStart 0 else .none

/-- **The members that are written** for a snapshot. -/
def members (s : Snapshot) : List Member := Field.all.map s.member

/-- **The written form** is an object of these members. -/
theorem toJson_eq (s : Snapshot) : s.toJson = String.ofList (Frame.bare.object s.members) := by
  rw [← String.toList_inj]
  simp [toJson, members, Field.all, member, String.intercalate_cons_cons, Frame.object, Frame.bare,
    Json.membersText, Json.moreText, Member.text, Member.behindName, lineStart, oneSpace,
    Blanks.none]

/-! ### Objects and snapshots -/

/-- **The member gives the entry:** it has the name of the field, and writes the value. -/
structure Entry.GivenBy (e : Entry) (m : Member) : Prop where
  name : m.name = e.field.name
  writes : e.Writes m.value

/-- **The members of all fields,** without those of other names. -/
def known (ms : List Member) : List Member := ms.filter fun m => (Field.ofName? m.name).isSome

theorem named_known (f : Field) (ms : List Member) : named f (known ms) = named f ms := by
  rw [named, known, List.filter_filter]
  refine List.filter_congr fun m _ => ?_
  by_cases hname : m.name = f.name
  · rw [decide_eq_true hname, hname, Field.ofName?_name]
    rfl
  · rw [decide_eq_false hname, Bool.false_and]

theorem named_eq_nil (h : ∀ m ∈ ms, m.name ≠ f.name) : named f ms = [] :=
  List.filter_eq_nil_iff.2 fun m hm => by
    rw [decide_eq_true_iff]
    exact h m hm

theorem mem_named (hm : m ∈ ms) (hname : m.name = f.name) : m ∈ named f ms :=
  List.mem_filter.2 ⟨hm, decide_eq_true hname⟩

/-- Members that give entries have the names of the fields. -/
theorem map_name_of_forall₂ {fs : List Field}
    (h : List.Forall₂ Entry.GivenBy (fs.map s.entry) ms) :
    ms.map Member.name = fs.map Field.name := by
  have hnames : List.Forall₂ (fun (m : Member) (f : Field) => m.name = f.name) ms fs :=
    (List.forall₂_map_left_iff.1 h).flip.imp fun m f hm =>
      hm.name.trans (congrArg Field.name (s.field_entry f))
  rwa [← List.forall₂_eq_eq_eq, List.forall₂_map_left_iff, List.forall₂_map_right_iff]

/-- Of members that give entries of distinct fields, one gives the entry of a field. -/
theorem exists_named {fs : List Field} (h : List.Forall₂ Entry.GivenBy (fs.map s.entry) ms)
    (hnodup : fs.Nodup) (hf : f ∈ fs) :
    ∃ m, named f ms = [m] ∧ (s.entry f).Writes m.value := by
  -- induction on the fields; behind the member of the first one there is no other of it
  induction fs generalizing ms with
  | nil => cases hf
  | cons g fs ih =>
      obtain ⟨hnot, hfs⟩ := List.nodup_cons.1 hnodup
      cases h with
      | @cons _ m _ ms hm h =>
          have hname : m.name = g.name := hm.name.trans (congrArg Field.name (s.field_entry g))
          by_cases hg : g = f
          · subst hg
            have hnone : named g ms = [] := by
              refine named_eq_nil fun m' hm' hsame => hnot ?_
              have hmem := List.mem_map_of_mem (f := Member.name) hm'
              rw [map_name_of_forall₂ h, hsame] at hmem
              obtain ⟨g', hg', hfield⟩ := List.mem_map.1 hmem
              exact Field.name_injective hfield ▸ hg'
            exact ⟨m, by rw [named_cons_of_eq hname, hnone], hm.writes⟩
          · have hother : m.name ≠ f.name := fun hsame =>
              hg (Field.name_injective (hname.symm.trans hsame))
            rw [named_cons_of_ne hother]
            exact ih h hfs ((List.mem_cons.1 hf).resolve_left (Ne.symm hg))

/-- **Members that give all entries are read,** in any order, and with any others. -/
theorem ofJson_of_perm {fs : List Field} (hfits : ∀ f, (s.entry f).Fits)
    (hperm : fs.Perm Field.all)
    (h : List.Forall₂ Entry.GivenBy (fs.map s.entry) (known ms)) (o : Frame) :
    ofJson (String.ofList (o.object ms)) = .ok s := by
  rw [ofJson_object_eq_ok]
  intro f
  have hnodup : fs.Nodup := hperm.nodup_iff.2 (by decide)
  have hf : f ∈ fs := hperm.mem_iff.2 (by cases f <;> decide)
  obtain ⟨m, hm, hwrites⟩ := exists_named h hnodup hf
  rw [named_known] at hm
  have hread := reads_readEntry hwrites (hfits f)
  rw [field_entry] at hread
  exact ⟨m, hm, hread⟩

/-- The members that are written are those of all fields. -/
theorem givenBy_members (s : Snapshot) :
    List.Forall₂ Entry.GivenBy (Field.all.map s.entry) s.members := by
  rw [members, List.forall₂_map_left_iff, List.forall₂_map_right_iff, List.forall₂_same]
  exact fun f _ => ⟨congrArg Field.name (s.field_entry f).symm, s.writes_fieldText f⟩

theorem known_members (s : Snapshot) : known s.members = s.members := by
  refine List.filter_eq_self.2 fun m hm => ?_
  obtain ⟨f, -, rfl⟩ := List.mem_map.1 hm
  exact congrArg Option.isSome (Field.ofName?_name f)

/-- What is no snapshot fails. -/
theorem exists_error {source : String} (h : ∀ s, ofJson source ≠ .ok s) :
    ∃ x, ofJson source = .error x := by
  cases hsource : ofJson source with
  | ok s => exact absurd hsource (h s)
  | error x => exact ⟨x, rfl⟩

/-- An object fails if a field has no member. -/
theorem exists_error_of_missing (h : ∀ m ∈ ms, m.name ≠ f.name) (o : Frame) :
    ∃ x, ofJson (String.ofList (o.object ms)) = .error x := by
  refine exists_error fun s hs => ?_
  obtain ⟨m, hm, -⟩ := (ofJson_object_eq_ok o ms s).1 hs f
  rw [named_eq_nil h] at hm
  cases hm

/-- An object fails if a field has two members. -/
theorem exists_error_of_repeated {ms₁ ms₂ ms₃ : List Member} {m' : Member}
    (hm : m.name = f.name) (hm' : m'.name = f.name) (o : Frame) :
    ∃ x, ofJson (String.ofList (o.object (ms₁ ++ m :: (ms₂ ++ m' :: ms₃)))) = .error x := by
  refine exists_error fun s hs => ?_
  obtain ⟨m₀, hm₀, -⟩ := (ofJson_object_eq_ok o _ s).1 hs f
  have hlen := congrArg List.length hm₀
  simp only [named, List.filter_append, List.filter_cons, hm, hm', decide_true, if_true,
    List.length_append, List.length_cons, List.length_nil] at hlen
  omega

/-- An object fails if its registers are not eight. -/
theorem exists_error_of_length {inside : Blanks} {is : List Item} (hmem : m ∈ ms)
    (hm : m.name = Field.registers.name) (hvalue : m.value = Json.arrayText inside is)
    (hlen : is.length ≠ 8) (o : Frame) :
    ∃ x, ofJson (String.ofList (o.object ms)) = .error x := by
  refine exists_error fun s hs => ?_
  obtain ⟨m₀, hm₀, hread⟩ := (ofJson_object_eq_ok o ms s).1 hs .registers
  have hnamed := mem_named hmem hm
  rw [hm₀] at hnamed
  obtain rfl := List.mem_singleton.1 hnamed
  rw [hvalue] at hread
  exact hlen (length_of_reads_registers hread)

/-- **What is written for a snapshot is read back as the snapshot.**  It is an object of one member
for each field.  Any other object with these members is read as the snapshot too: in any order, with
any blanks and any spelling of the names, and with any members of other names among them.  An object
fails if a field has no member, if it has two, or if the registers are an array of any other number
of items than eight. -/
theorem written_snapshot_is_read_back (s : Snapshot) (hpc : s.pc < UInt64.size)
    (hcycles : s.cycles < UInt64.size) :
    ofJson s.toJson = .ok s ∧
    s.toJson = String.ofList (Frame.bare.object s.members) ∧
    List.Forall₂ Entry.GivenBy (Field.all.map s.entry) s.members ∧
    ∀ o : Frame,
      (∀ ms (fs : List Field), fs.Perm Field.all →
        List.Forall₂ Entry.GivenBy (fs.map s.entry) (known ms) →
        ofJson (String.ofList (o.object ms)) = .ok s) ∧
      (∀ ms (f : Field), (∀ m ∈ ms, m.name ≠ f.name) →
        ∃ x, ofJson (String.ofList (o.object ms)) = .error x) ∧
      (∀ ms₁ ms₂ ms₃ (m m' : Member) (f : Field), m.name = f.name → m'.name = f.name →
        ∃ x, ofJson (String.ofList (o.object (ms₁ ++ m :: (ms₂ ++ m' :: ms₃)))) = .error x) ∧
      ∀ ms (m : Member) inside is, m ∈ ms → m.name = Field.registers.name →
        m.value = Json.arrayText inside is → is.length ≠ 8 →
        ∃ x, ofJson (String.ofList (o.object ms)) = .error x := by
  have hfits : ∀ f, (s.entry f).Fits := by
    intro f
    cases f with
    | pc => exact hpc
    | cycles => exact hcycles
    | flags | sp | registers => trivial
  refine ⟨?_, s.toJson_eq, s.givenBy_members, fun o =>
    ⟨fun ms fs hperm h => ofJson_of_perm hfits hperm h o,
      fun ms f hnone => exists_error_of_missing hnone o,
      fun ms₁ ms₂ ms₃ m m' f hm hm' => exists_error_of_repeated hm hm' o,
      fun ms m inside is hmem hm hvalue hlen => exists_error_of_length hmem hm hvalue hlen o⟩⟩
  rw [toJson_eq]
  refine ofJson_of_perm hfits (.refl _) ?_ _
  rw [known_members]
  exact s.givenBy_members

/-- A program counter and a cycle counter with all bits set. -/
def lastState : Snapshot where
  pc := 0xFFFFFFFFFFFFFFFF
  flags := ⟨0x80⟩
  sp := 0xF4
  registers := #v[0, 1, 2, 3, 4, 5, 0xFE, 0xFF]
  cycles := 0xFFFFFFFFFFFFFFFF

/-- A member whose name is the name of no field, with an array of an object and a text. -/
def noted : Member :=
  .bare "note" (by decide) (Json.isValue_arrayText .none
    [⟨.none, _, .emptyObject .none, .none⟩,
      ⟨.none, _, .text (Json.spells_self (s := [']', '}']) rfl), .none⟩])

/-- Registers of which there are none. -/
def noRegisters : Member := .bare "registers" (by decide) (Json.isValue_arrayText .none [])

/-- Its members may be turned round behind a note, but none may be left out or given twice, and
there have to be registers. -/
theorem last_state_is_read_back :
    lastState.pc < UInt64.size ∧ lastState.cycles < UInt64.size ∧
    ofJson lastState.toJson = .ok lastState ∧
    ofJson (String.ofList (Frame.bare.object (noted :: lastState.members.reverse))) =
      .ok lastState ∧
    (∃ x, ofJson (String.ofList (Frame.bare.object lastState.members.tail)) = .error x) ∧
    (∃ x, ofJson (String.ofList (Frame.bare.object
      (lastState.member .sp :: lastState.members))) = .error x) ∧
    ∃ x, ofJson (String.ofList (Frame.bare.object [lastState.member .pc, lastState.member .flags,
      lastState.member .sp, noRegisters, lastState.member .cycles])) = .error x := by
  have hpc : lastState.pc < UInt64.size := by decide
  have hcycles : lastState.cycles < UInt64.size := by decide
  obtain ⟨hself, -, heach, hobject⟩ := written_snapshot_is_read_back lastState hpc hcycles
  obtain ⟨hperm, hmissing, hrepeated, hregisters⟩ := hobject .bare
  have hreverse : List.Forall₂ Entry.GivenBy (Field.all.reverse.map lastState.entry)
      (known (noted :: lastState.members.reverse)) := by
    have hknown : known (noted :: lastState.members.reverse) = lastState.members.reverse := rfl
    rw [hknown, List.map_reverse]
    exact List.rel_reverse heach
  exact ⟨hpc, hcycles, hself, hperm _ _ (List.reverse_perm _) hreverse,
    hmissing _ .pc (by simp [members, Field.all, member, Field.name]),
    hrepeated [] [lastState.member .pc, lastState.member .flags]
      [lastState.member .registers, lastState.member .cycles] _ (lastState.member .sp) .sp rfl rfl,
    hregisters _ noRegisters .none [] (by simp) rfl rfl (by decide)⟩

end Snapshot

end ByteMachine
