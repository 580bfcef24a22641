/-
**The fields of a snapshot, as JSON writes their values.**

An entry is a field with a value.  Four of the five fields are numbers; the fifth is an array of
eight bytes, which is read item by item, so it is the vector `v` exactly if its items are read as
the bytes of `v`, all eight of them and no more.

Entries are collected in a draft, and a draft is complete if it has an entry of every field.

Main definitions:

* `ByteMachine.Snapshot.Entry` — a field with its value, and `Entry.Writes`, the ways to write it;
* `ByteMachine.Snapshot.Draft.put`, `Draft.given?` — entries of a draft;
* `ByteMachine.Snapshot.registersOf` — what is made of the items of an array.

Main results:

* `ByteMachine.Snapshot.registersOf_eq_ok` — **an array is read as its bytes, if it has eight**;
* `ByteMachine.Snapshot.Draft.complete_eq_ok` — a draft is complete if it has all the entries;
* `ByteMachine.Snapshot.reads_readEntry` — **what is written for an entry is read as the entry**;
* `ByteMachine.Snapshot.exists_reads_readEntry` — every value is read or refused.
-/

import ByteMachine.Proofs.Json.Arrays
import ByteMachine.Snapshot.Json
import Mathlib.Data.List.Forall2

set_option relaxedAutoImplicit false
set_option autoImplicit false

namespace ByteMachine

namespace Snapshot

open Json (Reader Reads IsValue Item Blanks Error)

/-! ### Registers -/

section Registers

variable {is : List Item} {i : Item} {bs : List UInt8} {v : List Char}

/-- Reads a byte behind others. -/
def readNext (bs : List UInt8) : Reader (List UInt8) := do return bs ++ [← Json.byte]

/-- **The items are read as these bytes.** -/
def AreBytes (bs : List UInt8) (is : List Item) : Prop :=
  List.Forall₂ (fun (b : UInt8) (i : Item) => Reads Json.byte i.value (.ok b)) bs is

theorem exists_reads_byte (h : IsValue v) : ∃ r, Reads Json.byte v r := by
  obtain ⟨r, hr, -⟩ := Json.exists_reads_natural h 255 "u8"
  exact ⟨_, hr.bind_pure UInt8.ofNat⟩

theorem reads_readNext {r : Except Error UInt8} (h : Reads Json.byte v r) (bs : List UInt8) :
    Reads (readNext bs) v (r.map fun b => bs ++ [b]) := h.bind_pure _

/-- **Items are collected exactly if they are bytes.** -/
theorem foldlM_readNext (is : List Item) (bs bs' : List UInt8) :
    is.foldlM (Item.verdict readNext) bs = .ok bs' ↔
      ∃ more, bs' = bs ++ more ∧ AreBytes more is := by
  -- induction on the items; each byte is put behind those that are there
  induction is generalizing bs with
  | nil =>
      constructor
      · rintro ⟨⟩
        exact ⟨[], (List.append_nil _).symm, .nil⟩
      · rintro ⟨_, rfl, ⟨⟩⟩
        rw [List.append_nil]
        rfl
  | cons i is ih =>
      obtain ⟨r, hr⟩ := exists_reads_byte i.isValue
      rw [List.foldlM_cons, i.verdict_eq (reads_readNext hr bs)]
      constructor
      · intro h
        cases r with
        | error e => cases h
        | ok b =>
            obtain ⟨more, rfl, hmore⟩ := (ih _).1 h
            exact ⟨b :: more, List.append_assoc .., .cons hr hmore⟩
      · rintro ⟨_, rfl, hmore⟩
        cases hmore with
        | @cons b _ more _ hb hmore =>
            obtain rfl := hr.unique hb
            exact (ih _).2 ⟨more, List.append_cons bs b more, hmore⟩

/-- What is read behind `n` items that are bytes. -/
def readEnd (n : Nat) (bs : List UInt8) : Reader (Vector UInt8 8) :=
  if h : bs.toArray.size = 8 then do
    Json.symbol ']'
    return ⟨bs.toArray, h⟩
  else throw (.mismatch (.invalidLength n "an array of length 8"))

/-- **What is made of the items of an array:** no more than eight are looked at, of which there have
to be eight, and behind them there have to be no others. -/
def registersOf (is : List Item) : Except Error (Vector UInt8 8) :=
  ((is.take 8).foldlM (Item.verdict readNext) []).bind fun bs =>
    if h : bs.toArray.size = 8 then
      if is.length ≤ 8 then .ok ⟨bs.toArray, h⟩ else .error .malformed
    else .error (.mismatch (.invalidLength (0 + min 8 is.length) "an array of length 8"))

/-- **An array is read as what is made of its items.** -/
theorem reads_readRegisters (inside : Blanks) (is : List Item) :
    Reads readRegisters (Json.arrayText inside is) (registersOf is) := by
  refine .bind_look rfl fun rest _ => ?_
  have hread : ∀ i ∈ is, ∀ bs, ∃ r, Reads (readNext bs) i.value r := fun i _ bs =>
    (exists_reads_byte i.isValue).elim fun r hr => ⟨_, reads_readNext hr bs⟩
  obtain ⟨left, hleft, hitems⟩ := Json.readsItems_itemsText 7 hread inside [] rest
  change (Json.items (List.replicate 8 readNext) [] >>= fun p => readEnd p.1 p.2)
    (inside.val ++ (Json.itemsText is ++ [']']) ++ rest) = _
  rw [List.append_assoc, List.append_assoc, List.singleton_append, registersOf]
  cases hfold : (is.take 8).foldlM (Item.verdict readNext) [] with
  | error e =>
      rw [hfold] at hitems
      exact Json.bind_of_error hitems
  | ok bs =>
      rw [hfold] at hitems
      refine (Json.bind_of_ok hitems).trans ?_
      dsimp only [Except.bind]
      rw [readEnd]
      by_cases hsize : bs.toArray.size = 8
      · rw [dif_pos hsize, dif_pos hsize]
        by_cases hlen : is.length ≤ 8
        · rw [if_pos hlen] at hleft ⊢
          exact Json.bind_of_ok hleft
        · rw [if_neg hlen] at hleft ⊢
          exact Json.bind_of_error hleft
      · rw [dif_neg hsize, dif_neg hsize]
        rfl

/-- **An array is read as its bytes,** if it has eight. -/
theorem registersOf_eq_ok (is : List Item) (v : Vector UInt8 8) :
    registersOf is = .ok v ↔ AreBytes v.toList is := by
  constructor
  · intro h
    rw [registersOf] at h
    cases hfold : (is.take 8).foldlM (Item.verdict readNext) [] with
    | error e =>
        rw [hfold] at h
        cases h
    | ok bs =>
        rw [hfold] at h
        obtain ⟨_, rfl, hbytes⟩ := (foldlM_readNext _ [] bs).1 hfold
        dsimp only [Except.bind] at h
        split at h
        · split at h
          · rename_i hlen
            cases h
            rwa [List.take_of_length_le hlen] at hbytes
          · cases h
        · cases h
  · intro h
    have hlen : is.length = 8 := h.length_eq.symm.trans v.length_toList
    have hfold := (foldlM_readNext is [] v.toList).2 ⟨v.toList, rfl, h⟩
    have hsize : v.toList.toArray.size = 8 := v.length_toList
    rw [registersOf, List.take_of_length_le (Nat.le_of_eq hlen), hfold]
    dsimp only [Except.bind]
    rw [dif_pos hsize, if_pos (Nat.le_of_eq hlen)]
    rfl

theorem skipsBlanks_readRegisters : Json.SkipsBlanks readRegisters := Json.skipsBlanks_look.bind _

/-- Every value is read as registers or refused. -/
theorem exists_reads_readRegisters (h : IsValue v) : ∃ r, Reads readRegisters v r := by
  obtain ⟨c, cs, rfl, hspace⟩ := h.exists_cons
  by_cases hc : c = '['
  · subst hc
    obtain ⟨inside, is, harray⟩ := h.exists_items
    rw [harray]
    exact ⟨_, reads_readRegisters inside is⟩
  · obtain ⟨e, he, -⟩ :=
      Json.exists_reads_invalidType (α := Vector UInt8 8) h "an array of length 8"
    refine ⟨.error e, .bind_look hspace ?_⟩
    split
    · exact absurd rfl hc
    · exact he

end Registers

/-! ### Entries -/

theorem Field.name_injective {f f' : Field} (h : f.name = f'.name) : f = f' := by
  have hsome := congrArg ofName? h
  rw [ofName?_name, ofName?_name] at hsome
  exact Option.some.inj hsome

theorem Field.exists_name_of_ofName? {name : String} {f : Field} (h : ofName? name = some f) :
    name = f.name := by
  have hfound := List.find?_some h
  exact (of_decide_eq_true hfound).symm

/-- **A field with a value.** -/
inductive Entry where
  | pc (n : Nat)
  | flags (bits : UInt8)
  | sp (address : UInt8)
  | registers (values : Vector UInt8 8)
  | cycles (n : Nat)
  deriving DecidableEq, Repr

variable {d : Draft} {e : Entry} {f : Field} {s : Snapshot} {v : List Char}

/-- The field of an entry. -/
def Entry.field : Entry → Field
  | pc _ => .pc
  | flags _ => .flags
  | sp _ => .sp
  | registers _ => .registers
  | cycles _ => .cycles

/-- The entry of a field in a snapshot. -/
def entry (s : Snapshot) : Field → Entry
  | .pc => .pc s.pc
  | .flags => .flags s.flags.bits
  | .sp => .sp s.sp
  | .registers => .registers s.registers
  | .cycles => .cycles s.cycles

@[simp] theorem field_entry (s : Snapshot) (f : Field) : (s.entry f).field = f := by
  cases f <;> rfl

namespace Draft

/-- The entry of a field in a draft. -/
def given? (d : Draft) : Field → Option Entry
  | .pc => d.pc.map .pc
  | .flags => d.flags.map .flags
  | .sp => d.sp.map .sp
  | .registers => d.registers.map .registers
  | .cycles => d.cycles.map .cycles

/-- A draft with an entry put in. -/
def put (d : Draft) : Entry → Draft
  | .pc n => { d with pc := some n }
  | .flags bits => { d with flags := some bits }
  | .sp address => { d with sp := some address }
  | .registers values => { d with registers := some values }
  | .cycles n => { d with cycles := some n }

theorem given?_empty (f : Field) : empty.given? f = none := by
  cases f <;> rfl

theorem has_eq (d : Draft) (f : Field) : d.has f = (d.given? f).isSome := by
  cases f <;> exact Option.isSome_map.symm

theorem given?_put (d : Draft) (e : Entry) (f : Field) :
    (d.put e).given? f = if e.field = f then some e else d.given? f := by
  cases e <;> cases f <;> rfl

/-- A draft is its entries. -/
theorem ext_given? {d d' : Draft} (h : ∀ f, d.given? f = d'.given? f) : d = d' := by
  have hinj : ∀ {α : Type} {g : α → Entry} {a a' : Option α}, (∀ b b', g b = g b' → b = b') →
      a.map g = a'.map g → a = a' := fun hg h => Option.map_injective (fun b b' => hg b b') h
  obtain ⟨pc, flags, sp, registers, cycles⟩ := d
  obtain ⟨pc', flags', sp', registers', cycles'⟩ := d'
  obtain rfl : pc = pc' := hinj (fun _ _ => Entry.pc.inj) (h .pc)
  obtain rfl : flags = flags' := hinj (fun _ _ => Entry.flags.inj) (h .flags)
  obtain rfl : sp = sp' := hinj (fun _ _ => Entry.sp.inj) (h .sp)
  obtain rfl : registers = registers' := hinj (fun _ _ => Entry.registers.inj) (h .registers)
  obtain rfl : cycles = cycles' := hinj (fun _ _ => Entry.cycles.inj) (h .cycles)
  rfl

/-- The draft in which all the fields of a snapshot are given. -/
def full (s : Snapshot) : Draft :=
  ⟨some s.pc, some s.flags.bits, some s.sp, some s.registers, some s.cycles⟩

theorem given?_full (s : Snapshot) (f : Field) : (full s).given? f = some (s.entry f) := by
  cases f <;> rfl

/-- **Only full drafts are complete.** -/
theorem complete_eq_ok : d.complete = .ok s ↔ d = full s := by
  constructor
  · intro h
    obtain ⟨pc, flags, sp, registers, cycles⟩ := d
    cases pc <;> cases flags <;> cases sp <;> cases registers <;> cases cycles <;> cases h
    rfl
  · rintro rfl
    rfl

end Draft

/-! ### Reading entries -/

/-- Reads the value of a field. -/
def Field.readEntry : Field → Reader Entry
  | .pc => .pc <$> Json.natural (UInt64.size - 1) "usize"
  | .flags => .flags <$> Json.byte
  | .sp => .sp <$> Json.byte
  | .registers => .registers <$> readRegisters
  | .cycles => .cycles <$> Json.natural (UInt64.size - 1) "u64"

/-- The value of a field is read and put into the draft. -/
theorem Field.read_eq (f : Field) (d : Draft) : f.read d = d.put <$> f.readEntry := by
  have hput : ∀ {α : Type} (x : Reader α) (g : α → Draft) (k : α → Entry),
      (∀ a, d.put (k a) = g a) → (x >>= fun a => pure (g a)) = d.put <$> (k <$> x) := by
    intro α x g k hg
    funext cs
    change Except.bind (x cs) _ = Except.bind (Except.bind (x cs) _) _
    cases x cs with
    | error e => rfl
    | ok p => exact congrArg Except.ok (congrArg (·, p.2) (hg p.1).symm)
  cases f <;> exact hput _ _ _ fun _ => rfl

theorem Field.skipsBlanks_readEntry (f : Field) : Json.SkipsBlanks f.readEntry := by
  cases f with
  | pc | cycles => exact (Json.skipsBlanks_natural _ _).map _
  | flags | sp => exact ((Json.skipsBlanks_natural 255 "u8").bind _).map _
  | registers => exact skipsBlanks_readRegisters.map _

/-- **The ways to write the value of an entry:** the digits of a number, or an array of them. -/
inductive Entry.Writes : Entry → List Char → Prop
  | pc (n : Nat) : Writes (.pc n) (Nat.toDigits 10 n)
  | flags (bits : UInt8) : Writes (.flags bits) (Nat.toDigits 10 bits.toNat)
  | sp (address : UInt8) : Writes (.sp address) (Nat.toDigits 10 address.toNat)
  | registers {values : Vector UInt8 8} (inside : Blanks) {is : List Item}
      (h : is.map Item.value = values.toList.map fun b => Nat.toDigits 10 b.toNat) :
      Writes (.registers values) (Json.arrayText inside is)
  | cycles (n : Nat) : Writes (.cycles n) (Nat.toDigits 10 n)

theorem Entry.Writes.isValue (h : e.Writes v) : IsValue v := by
  cases h with
  | registers inside h => exact Json.isValue_arrayText inside _
  | _ => exact .number (.plus (Json.isMagnitude_toDigits _))

/-- **The number of an entry fits 64 bits.** -/
def Entry.Fits : Entry → Prop
  | pc n | cycles n => n < UInt64.size
  | _ => True

theorem areBytes_of_digits {bs : List UInt8} {is : List Item}
    (h : is.map Item.value = bs.map fun b => Nat.toDigits 10 b.toNat) : AreBytes bs is := by
  induction bs generalizing is with
  | nil =>
      obtain rfl := List.map_eq_nil_iff.1 h
      exact .nil
  | cons b bs ih =>
      obtain ⟨i, is, rfl, hi, his⟩ := List.map_eq_cons_iff.1 h
      refine .cons ?_ (ih his)
      rw [hi]
      exact Json.reads_byte b

/-- **What is written for an entry is read as the entry.** -/
theorem reads_readEntry (h : e.Writes v) (hfits : e.Fits) : Reads e.field.readEntry v (.ok e) := by
  have hnatural : ∀ {n : Nat} (expected : String), n < UInt64.size →
      Reads (Json.natural (UInt64.size - 1) expected) (Nat.toDigits 10 n) (.ok n) :=
    fun expected hn => Json.reads_natural_toDigits (Nat.le_sub_one_of_lt hn) (by decide) expected
  cases h with
  | pc n => exact (hnatural "usize" hfits).map Entry.pc
  | flags bits => exact (Json.reads_byte bits).map Entry.flags
  | sp address => exact (Json.reads_byte address).map Entry.sp
  | @registers values inside is h =>
      have hread := reads_readRegisters inside is
      rw [(registersOf_eq_ok is values).2 (areBytes_of_digits h)] at hread
      exact hread.map Entry.registers
  | cycles n => exact (hnatural "u64" hfits).map Entry.cycles

/-- **Every value is read as an entry of the field or refused.** -/
theorem exists_reads_readEntry (f : Field) (h : IsValue v) :
    ∃ r, Reads f.readEntry v r ∧ ∀ e, r = .ok e → e.field = f := by
  have hmap : ∀ {α : Type} {x : Reader α} (g : α → Entry), (∃ r, Reads x v r) →
      (∀ a, (g a).field = f) → ∃ r, Reads (g <$> x) v r ∧ ∀ e, r = .ok e → e.field = f := by
    rintro α x g ⟨r, hr⟩ hg
    refine ⟨_, hr.map g, fun e he => ?_⟩
    cases r with
    | ok a =>
        cases he
        exact hg a
    | error e' => cases he
  have hnatural : ∀ expected : String, ∃ r, Reads (Json.natural (UInt64.size - 1) expected) v r :=
    fun expected => (Json.exists_reads_natural h _ expected).imp fun r hr => hr.1
  cases f with
  | pc => exact hmap .pc (hnatural "usize") fun _ => rfl
  | flags => exact hmap .flags (exists_reads_byte h) fun _ => rfl
  | sp => exact hmap .sp (exists_reads_byte h) fun _ => rfl
  | registers => exact hmap .registers (exists_reads_readRegisters h) fun _ => rfl
  | cycles => exact hmap .cycles (hnatural "u64") fun _ => rfl

/-- An array that is read as an entry has eight items. -/
theorem length_of_reads_registers {inside : Blanks} {is : List Item}
    (h : Reads Field.registers.readEntry (Json.arrayText inside is) (.ok e)) : is.length = 8 := by
  have hread := ((reads_readRegisters inside is).map Entry.registers).unique h
  cases hvalues : registersOf is with
  | error x =>
      rw [hvalues] at hread
      cases hread
  | ok values =>
      have hbytes := (registersOf_eq_ok is values).1 hvalues
      exact hbytes.length_eq.symm.trans values.length_toList

end Snapshot

end ByteMachine
