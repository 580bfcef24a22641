/-
**The fields of a configuration, as JSON writes their values.**

Each of the six fields has its own kind of values, and a reader for them.  An entry is a field with
one of its values; it can be written in one way or several, and every way is read as the entry.  Of
any other value the reader of a field makes an entry of this field too, or it refuses the value.

Entries are collected in a draft.  What has been put into it last stands, and what is missing has
its default, so entries of distinct fields make the same configuration in any order.

Main definitions:

* `ByteMachine.Config.Entry` — a field with its value, and `Entry.Writes`, the ways to write it;
* `ByteMachine.Config.Draft.put`, `Draft.putAll` — entries put into a draft;
* `ByteMachine.Config.Field.Recognizes` — values that a field does not refuse as no JSON;
* `ByteMachine.Config.Field.greatest?` — the range of a field that takes integers.

Main results:

* `ByteMachine.Config.entry_complete_putAll` — the configuration of a draft, field by field;
* `ByteMachine.Config.reads_readEntry` — **what is written for an entry is read as the entry**;
* `ByteMachine.Config.exists_reads_readEntry` — **every value is read or refused**;
* `ByteMachine.Config.exists_reads_readEntry_integerText` — an integer out of range is refused.
-/

import ByteMachine.Config.Json
import ByteMachine.Proofs.Json.Values

set_option relaxedAutoImplicit false
set_option autoImplicit false

namespace ByteMachine

namespace Config

open Json (Reader Reads IsValue Error Judges Oversized Spells)

/-! ### Entries -/

theorem Field.name_injective {f f' : Field} (h : f.name = f'.name) : f = f' := by
  have hsome := congrArg ofName? h
  rw [ofName?_name, ofName?_name] at hsome
  exact Option.some.inj hsome

/-- **A field with a value.** -/
inductive Entry where
  | stackTop (address : UInt8)
  | stackLimit (address : UInt8)
  | maxCycles (limit : Option UInt64)
  | overflow (policy : OverflowPolicy)
  | jumpMode (mode : JumpMode)
  | trace (on : Bool)
  deriving DecidableEq, Repr

variable {d : Draft} {e : Entry} {f : Field} {es : List Entry}

/-- The field of an entry. -/
def Entry.field : Entry → Field
  | stackTop _ => .stackTop
  | stackLimit _ => .stackLimit
  | maxCycles _ => .maxCycles
  | overflow _ => .overflow
  | jumpMode _ => .jumpMode
  | trace _ => .trace

/-- The entry of a field in a configuration. -/
def entry (c : Config) : Field → Entry
  | .stackTop => .stackTop c.stackTop
  | .stackLimit => .stackLimit c.stackLimit
  | .maxCycles => .maxCycles c.maxCycles
  | .overflow => .overflow c.overflow
  | .jumpMode => .jumpMode c.jumpMode
  | .trace => .trace c.trace

@[simp] theorem field_entry (c : Config) (f : Field) : (c.entry f).field = f := by
  cases f <;> rfl

/-- A configuration is its entries. -/
theorem ext_entry {c c' : Config} (h : ∀ f, c.entry f = c'.entry f) : c = c' := by
  obtain ⟨stackTop, stackLimit, maxCycles, overflow, jumpMode, trace⟩ := c
  have htop := h .stackTop
  have hlimit := h .stackLimit
  have hcycles := h .maxCycles
  have hoverflow := h .overflow
  have hjump := h .jumpMode
  have htrace := h .trace
  simp only [entry, Entry.stackTop.injEq, Entry.stackLimit.injEq, Entry.maxCycles.injEq,
    Entry.overflow.injEq, Entry.jumpMode.injEq, Entry.trace.injEq] at *
  subst htop hlimit hcycles hoverflow hjump htrace
  rfl

namespace Draft

/-- A draft with an entry put in. -/
def put (d : Draft) : Entry → Draft
  | .stackTop address => { d with stackTop := some address }
  | .stackLimit address => { d with stackLimit := some address }
  | .maxCycles limit => { d with maxCycles := some limit }
  | .overflow policy => { d with overflow := some policy }
  | .jumpMode mode => { d with jumpMode := some mode }
  | .trace on => { d with trace := some on }

theorem has_empty (f : Field) : empty.has f = false := by
  cases f <;> rfl

theorem has_put (d : Draft) (e : Entry) (f : Field) :
    (d.put e).has f = true ↔ f = e.field ∨ d.has f = true := by
  cases e <;> cases f <;> simp [put, has, Entry.field]

theorem has_put_eq_false (hne : f ≠ e.field) (hd : d.has f = false) : (d.put e).has f = false := by
  rw [Bool.eq_false_iff]
  intro hhas
  rcases (d.has_put e f).1 hhas with hsame | hhas
  · exact hne hsame
  · rw [hd] at hhas
    cases hhas

theorem entry_complete_put (d : Draft) (e : Entry) (f : Field) :
    (d.put e).complete.entry f = if e.field = f then e else d.complete.entry f := by
  cases e <;> cases f <;> rfl

/-- A draft with entries put in, one after the other. -/
def putAll (d : Draft) (es : List Entry) : Draft := es.foldl put d

theorem has_putAll (d : Draft) (es : List Entry) (f : Field) :
    (d.putAll es).has f = true ↔ f ∈ es.map Entry.field ∨ d.has f = true := by
  induction es generalizing d with
  | nil => simp [putAll]
  | cons e es ih =>
      rw [putAll, List.foldl_cons, ← putAll, ih, has_put, List.map_cons, List.mem_cons,
        or_left_comm, or_assoc]

theorem has_putAll_eq_false (hes : ∀ e ∈ es, e.field ≠ f) (hd : d.has f = false) :
    (d.putAll es).has f = false := by
  rw [Bool.eq_false_iff]
  intro hhas
  rcases (d.has_putAll es f).1 hhas with hmem | hhas
  · obtain ⟨e, he, hfield⟩ := List.mem_map.1 hmem
    exact hes e he hfield
  · rw [hd] at hhas
    cases hhas

end Draft

/-- An entry is found by its field. -/
theorem find?_of_mem (h : (es.map Entry.field).Nodup) (he : e ∈ es) :
    (es.find? fun e' => e'.field = e.field) = some e := by
  induction es with
  | nil => cases he
  | cons e' es ih =>
      obtain ⟨hnot, hes⟩ := List.nodup_cons.1 h
      rw [List.find?_cons]
      rcases List.mem_cons.1 he with rfl | he
      · rw [decide_eq_true rfl]
      · have hne : e'.field ≠ e.field := fun hsame => hnot (hsame ▸ List.mem_map_of_mem he)
        rw [decide_eq_false hne]
        exact ih hes he

/-- **The configuration of a draft,** field by field, if entries of distinct fields are put in. -/
theorem entry_complete_putAll (d : Draft) (h : (es.map Entry.field).Nodup) (f : Field) :
    (d.putAll es).complete.entry f =
      (es.find? fun e => e.field = f).getD (d.complete.entry f) := by
  induction es generalizing d with
  | nil => rfl
  | cons e es ih =>
      obtain ⟨hnot, hes⟩ := List.nodup_cons.1 h
      rw [Draft.putAll, List.foldl_cons, ← Draft.putAll, ih (d.put e) hes,
        Draft.entry_complete_put, List.find?_cons]
      by_cases hf : e.field = f
      · have hnone : (es.find? fun e => e.field = f) = none := by
          refine List.find?_eq_none.2 fun e' he' hf' => hnot ?_
          rw [hf, ← of_decide_eq_true hf']
          exact List.mem_map_of_mem he'
        rw [if_pos hf, hnone, decide_eq_true hf]
        rfl
      · rw [if_neg hf, decide_eq_false hf]

/-! ### Reading entries -/

/-- Reads the value of a field. -/
def Field.readEntry : Field → Reader Entry
  | .stackTop => .stackTop <$> Json.byte
  | .stackLimit => .stackLimit <$> Json.byte
  | .maxCycles => .maxCycles <$> Json.optional Json.word64
  | .overflow =>
    .overflow <$> Json.variant (OverflowPolicy.all.map (·.name)) OverflowPolicy.ofName?
  | .jumpMode => .jumpMode <$> Json.variant (JumpMode.all.map (·.name)) JumpMode.ofName?
  | .trace => .trace <$> Json.boolean

/-- The value of a field is read and put into the draft. -/
theorem Field.read_eq (f : Field) (d : Draft) : f.read d = d.put <$> f.readEntry := by
  funext cs
  cases f with
  | stackTop | stackLimit =>
      change Except.bind (Json.byte cs) _ = Except.bind (Except.bind (Json.byte cs) _) _
      cases Json.byte cs <;> rfl
  | maxCycles =>
      change Except.bind (Json.optional Json.word64 cs) _ =
        Except.bind (Except.bind (Json.optional Json.word64 cs) _) _
      cases Json.optional Json.word64 cs <;> rfl
  | overflow | jumpMode =>
      change Except.bind (Json.variant _ _ cs) _ =
        Except.bind (Except.bind (Json.variant _ _ cs) _) _
      cases Json.variant _ _ cs <;> rfl
  | trace =>
      change Except.bind (Json.boolean cs) _ = Except.bind (Except.bind (Json.boolean cs) _) _
      cases Json.boolean cs <;> rfl

theorem Field.skipsBlanks_readEntry (f : Field) : Json.SkipsBlanks f.readEntry := by
  cases f with
  | stackTop | stackLimit => exact ((Json.skipsBlanks_natural 255 "u8").bind _).map _
  | maxCycles => exact (Json.skipsBlanks_optional _).map _
  | overflow | jumpMode => exact (Json.skipsBlanks_variant _ _).map _
  | trace => exact Json.skipsBlanks_boolean.map _

/-- **The ways to write the value of an entry:** an integer, a word, or any spelling of a name. -/
inductive Entry.Writes : Entry → List Char → Prop
  | stackTop (address : UInt8) : Writes (.stackTop address) (Nat.toDigits 10 address.toNat)
  | stackLimit (address : UInt8) : Writes (.stackLimit address) (Nat.toDigits 10 address.toNat)
  | unlimited : Writes (.maxCycles none) ['n', 'u', 'l', 'l']
  | limited (limit : UInt64) : Writes (.maxCycles (some limit)) (Nat.toDigits 10 limit.toNat)
  | overflow (policy : OverflowPolicy) {cs : List Char} (h : Spells cs policy.name.toList) :
      Writes (.overflow policy) ('"' :: (cs ++ ['"']))
  | jumpMode (mode : JumpMode) {cs : List Char} (h : Spells cs mode.name.toList) :
      Writes (.jumpMode mode) ('"' :: (cs ++ ['"']))
  | traced : Writes (.trace true) ['t', 'r', 'u', 'e']
  | untraced : Writes (.trace false) ['f', 'a', 'l', 's', 'e']

theorem reads_word64 (n : UInt64) : Reads Json.word64 (Nat.toDigits 10 n.toNat) (.ok n) := by
  have hn : n.toNat ≤ UInt64.size - 1 := Nat.le_sub_one_of_lt n.toNat_lt
  have hread := (Json.reads_natural_toDigits hn (by decide) "u64").bind_pure UInt64.ofNat
  rwa [Except.map, UInt64.ofNat_toNat] at hread

theorem reads_name {α : Type} {known : List String} {ofName? : String → Option α} {name : String}
    {a : α} {cs : List Char} (h : Spells cs name.toList) (hname : ofName? name = some a) :
    Reads (Json.variant known ofName?) ('"' :: (cs ++ ['"'])) (.ok a) := by
  have hread := Json.reads_variant_text known ofName? h
  rwa [String.ofList_toList, Json.choiceOf, hname] at hread

/-- **What is written for an entry is read as the entry.** -/
theorem reads_readEntry {e : Entry} {v : List Char} (h : e.Writes v) :
    Reads e.field.readEntry v (.ok e) := by
  cases h with
  | stackTop address => exact (Json.reads_byte address).map Entry.stackTop
  | stackLimit address => exact (Json.reads_byte address).map Entry.stackLimit
  | unlimited => exact (Json.reads_optional_null _).map Entry.maxCycles
  | limited limit =>
      have hnumber := Json.isNumber_integerText limit.toNat
      exact (Json.reads_optional_number hnumber (reads_word64 limit)).map Entry.maxCycles
  | overflow policy h =>
      exact (reads_name h (OverflowPolicy.ofName?_name policy)).map Entry.overflow
  | jumpMode mode h => exact (reads_name h (JumpMode.ofName?_name mode)).map Entry.jumpMode
  | traced => exact Json.reads_boolean_true.map Entry.trace
  | untraced => exact Json.reads_boolean_false.map Entry.trace

/-- **The field takes the value for JSON:** a text, if it has names for values, and if not anything
but a number that is too large. -/
def Field.Recognizes (f : Field) (v : List Char) : Prop :=
  match f with
  | .overflow | .jumpMode => v.head? = some '"'
  | _ => ¬Oversized v

/-- **Every value is read as an entry of the field or refused.** -/
theorem exists_reads_readEntry (f : Field) {v : List Char} (h : IsValue v) :
    ∃ r, Reads f.readEntry v r ∧ (∀ e, r = .ok e → e.field = f) ∧ (f.Recognizes v → Judges r) := by
  have hmap : ∀ {α : Type} {x : Reader α} {recognized : Prop} (g : α → Entry),
      (∃ r, Reads x v r ∧ (recognized → Judges r)) → (∀ a, (g a).field = f) →
      ∃ r, Reads (g <$> x) v r ∧ (∀ e, r = .ok e → e.field = f) ∧ (recognized → Judges r) := by
    rintro α x recognized g ⟨r, hr, hjudges⟩ hg
    refine ⟨_, hr.map g, fun e he => ?_, fun hv => (hjudges hv).map g⟩
    cases r with
    | ok a =>
        cases he
        exact hg a
    | error e' => cases he
  have hnatural : ∀ {α : Type} (g : Nat → α) (bound : Nat) (expected : String),
      ∃ r, Reads (Json.natural bound expected >>= fun n => pure (g n)) v r ∧
        (¬Oversized v → Judges r) := by
    intro α g bound expected
    obtain ⟨r, hr, hjudges⟩ := Json.exists_reads_natural h bound expected
    exact ⟨_, hr.bind_pure g, fun hv => (hjudges hv).map g⟩
  cases f with
  | stackTop => exact hmap .stackTop (hnatural UInt8.ofNat 255 "u8") fun _ => rfl
  | stackLimit => exact hmap .stackLimit (hnatural UInt8.ofNat 255 "u8") fun _ => rfl
  | maxCycles =>
      have hword := hnatural UInt64.ofNat (UInt64.size - 1) "u64"
      exact hmap .maxCycles (Json.exists_reads_optional h hword) fun _ => rfl
  | overflow => exact hmap .overflow (Json.exists_reads_variant h _ _) fun _ => rfl
  | jumpMode => exact hmap .jumpMode (Json.exists_reads_variant h _ _) fun _ => rfl
  | trace => exact hmap .trace (Json.exists_reads_boolean h) fun _ => rfl

/-! ### Integers out of range -/

/-- The greatest integer that a field takes, if it takes integers. -/
def Field.greatest? : Field → Option Nat
  | .stackTop | .stackLimit => some 255
  | .maxCycles => some (UInt64.size - 1)
  | _ => none

/-- **An integer out of range is refused.** -/
theorem exists_reads_readEntry_integerText {bound : Nat} {k : Int} (hf : f.greatest? = some bound)
    (hk : ¬(0 ≤ k ∧ k ≤ bound)) :
    ∃ x, Reads f.readEntry (Json.integerText k) (.error x) ∧
      (¬Oversized (Json.integerText k) → x.IsData) := by
  cases f with
  | stackTop | stackLimit =>
      cases hf
      obtain ⟨x, hx, hdata⟩ := Json.exists_reads_natural_integerText hk "u8"
      exact ⟨x, (hx.bind_pure UInt8.ofNat).map _, hdata⟩
  | maxCycles =>
      cases hf
      obtain ⟨x, hx, hdata⟩ := Json.exists_reads_natural_integerText hk "u64"
      have hword := Json.reads_optional_number (Json.isNumber_integerText k)
        (hx.bind_pure UInt64.ofNat)
      exact ⟨x, hword.map Entry.maxCycles, hdata⟩
  | overflow | jumpMode | trace => cases hf

end Config

end ByteMachine
