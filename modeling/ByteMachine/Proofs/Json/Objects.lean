/-
**JSON objects, member by member.**

An object is read by taking its members in their order, each with what has been made of those in
front of it; the first member that is refused ends the reading.  So of the text of an object, with
blanks wherever they may stand, no more is left than a fold over its members.

Main definitions:

* `ByteMachine.Json.Member`, `Member.text` — a member with its blanks;
* `ByteMachine.Json.Frame`, `Frame.object` — **the text of an object** of any members;
* `ByteMachine.Json.Member.verdict` — what a reader of members makes of a member.

Main results:

* `ByteMachine.Json.members_membersText` — **members are read one after the other**.
-/

import ByteMachine.Proofs.Json.Values

set_option relaxedAutoImplicit false
set_option autoImplicit false

namespace ByteMachine

namespace Json

/-! ### Members -/

/-- **A member of an object:** a name in any spelling and a value, with blanks around them. -/
structure Member where
  before : Blanks
  /-- The name as it stands between its quotes. -/
  spelling : List Char
  name : String
  spells : Spells spelling name.toList
  beforeColon : Blanks
  beforeValue : Blanks
  value : List Char
  isValue : IsValue value
  after : Blanks

namespace Member

/-- What stands behind the name of a member, up to the end of the value. -/
def behindName (m : Member) : List Char :=
  m.beforeColon.val ++ ':' :: (m.beforeValue.val ++ m.value)

/-- The text of a member. -/
def text (m : Member) : List Char :=
  m.before.val ++ '"' :: (m.spelling ++ '"' :: (m.behindName ++ m.after.val))

/-- A member without blanks, of a name in which nothing has to be escaped. -/
def bare (name : String) (hname : name.toList.all isPlain = true) {value : List Char}
    (isValue : IsValue value) : Member where
  before := .none
  spelling := name.toList
  name
  spells := spells_self hname
  beforeColon := .none
  beforeValue := .none
  value
  isValue
  after := .none

theorem text_append (m : Member) (rest : List Char) :
    m.text ++ rest =
      m.before.val ++ '"' :: (m.spelling ++ '"' :: (m.behindName ++ (m.after.val ++ rest))) := by
  simp only [text, List.append_assoc, List.cons_append]

/-- Behind the colon the value is read. -/
theorem reads_behindName {α : Type} {x : Reader α} {r : Except Error α} (m : Member)
    (h : ∀ rest, Ends rest →
      x (m.beforeValue.val ++ (m.value ++ rest)) = r.map fun a => (a, rest)) :
    Reads (colon >>= fun _ => x) m.behindName r := by
  intro rest hrest
  rw [behindName, List.append_assoc, List.cons_append, List.append_assoc,
    bind_of_ok (colon_blanks m.beforeColon _)]
  exact h rest hrest

end Member

/-- Members behind another one, each with a comma in front of it. -/
def moreText : List Member → List Char
  | [] => []
  | m :: ms => ',' :: (m.text ++ moreText ms)

/-- Members with commas between them. -/
def membersText : List Member → List Char
  | [] => []
  | m :: ms => m.text ++ moreText ms

/-- **The blanks around an object** and behind its opening brace. -/
structure Frame where
  before : Blanks
  inside : Blanks
  after : Blanks

/-- No blanks at all. -/
def Frame.bare : Frame := ⟨.none, .none, .none⟩

/-- **The text of an object** with these members. -/
def Frame.object (o : Frame) (ms : List Member) : List Char :=
  o.before.val ++ '{' :: (o.inside.val ++ (membersText ms ++ '}' :: o.after.val))

/-! ### Reading members -/

section Members

variable {σ : Type} {read : String → σ → Reader σ} {m : Member} {ms : List Member} {s : σ}
  {r : Except Error σ} {rest : List Char} {fuel : Nat}

/-- **What a reader of members makes of a member,** after the values read so far. -/
def Member.verdict (read : String → σ → Reader σ) (s : σ) (m : Member) : Except Error σ :=
  (read m.name s (m.behindName ++ ['}'])).map Prod.fst

theorem Member.verdict_eq (h : Reads (read m.name s) m.behindName r) : m.verdict read s = r := by
  rw [verdict, h ['}'] (ends_cons rfl [])]
  cases r <;> rfl

/-- What stands behind a member does not go on with a number. -/
theorem ends_moreText (ms : List Member) (rest : List Char) :
    Ends (moreText ms ++ '}' :: rest) := by
  cases ms with
  | nil => exact ends_cons rfl rest
  | cons m ms => exact ends_cons rfl _

/-- The name of a member is read, and then the rest of it. -/
theorem text_behindName (m : Member) (rest : List Char) :
    text (m.spelling ++ '"' :: rest) = .ok (m.name, rest) := by
  rw [text_of_spells m.spells, String.ofList_toList]

/-- At the closing brace there are no more members. -/
theorem membersFrom_end (b : Blanks) (first : Bool) (s : σ) (rest : List Char) :
    membersFrom read (fuel + 1) first s (b.val ++ '}' :: rest) = .ok (s, '}' :: rest) := by
  have hmore : moreMembers first (b.val ++ '}' :: rest) = .ok (false, '}' :: rest) := by
    rw [moreMembers, bind_of_ok (look_blanks b rfl rest), if_pos rfl]
    rfl
  rw [membersFrom, bind_of_ok hmore]
  rfl

theorem skipsBlanks_moreMembers (first : Bool) : SkipsBlanks (moreMembers first) :=
  skipsBlanks_look.bind _

/-- The opening quote of the first member. -/
theorem moreMembers_first (b : Blanks) (rest : List Char) :
    moreMembers true (b.val ++ '"' :: rest) = .ok (true, rest) := by
  rw [moreMembers, bind_of_ok (look_blanks b rfl rest), if_neg (by decide), if_pos rfl,
    bind_of_ok (symbol_cons rfl rest)]
  rfl

/-- The comma and the opening quote of another member. -/
theorem moreMembers_comma (b b' : Blanks) (rest : List Char) :
    moreMembers false (b.val ++ ',' :: (b'.val ++ '"' :: rest)) = .ok (true, rest) := by
  rw [moreMembers, bind_of_ok (look_blanks b rfl _), if_neg (by decide), if_neg Bool.false_ne_true,
    bind_of_ok (symbol_cons rfl _), bind_of_ok (symbol_blanks b' rfl rest)]
  rfl

/-- **A member is read as the reader of members has it,** and then those behind it. -/
theorem membersFrom_of_moreMembers {first : Bool} {cs : List Char}
    (hmore : moreMembers first cs =
      .ok (true, m.spelling ++ '"' :: (m.behindName ++ (m.after.val ++ rest))))
    (hrest : Ends rest) (h : Reads (read m.name s) m.behindName r) :
    membersFrom read (fuel + 1) first s cs =
      r.bind fun s => membersFrom read fuel false s (m.after.val ++ rest) := by
  rw [membersFrom, bind_of_ok hmore, if_pos rfl, bind_of_ok (text_behindName m _)]
  have hread := h (m.after.val ++ rest) (ends_blanks m.after hrest)
  cases r with
  | ok s' => exact bind_of_ok hread
  | error e => exact bind_of_error hread

/-- **Further members are read one after the other,** up to the first one that is refused. -/
theorem membersFrom_moreText (h : ∀ m ∈ ms, ∀ s, ∃ r, Reads (read m.name s) m.behindName r)
    (hfuel : ms.length < fuel) (b : Blanks) (s : σ) (rest : List Char) :
    membersFrom read fuel false s (b.val ++ (moreText ms ++ '}' :: rest)) =
      (ms.foldlM (Member.verdict read) s).map fun s => (s, '}' :: rest) := by
  -- induction on the members; each takes one of the fuel
  induction ms generalizing fuel b s with
  | nil =>
      obtain ⟨fuel, rfl⟩ := Nat.exists_eq_add_of_lt hfuel
      exact membersFrom_end b false s rest
  | cons m ms ih =>
      rw [List.length_cons] at hfuel
      obtain ⟨fuel, rfl⟩ : ∃ k, fuel = k + 1 := ⟨fuel - 1, by omega⟩
      obtain ⟨r, hr⟩ := h m List.mem_cons_self s
      have hmore : moreMembers false (b.val ++ (moreText (m :: ms) ++ '}' :: rest)) =
          .ok (true, m.spelling ++
            '"' :: (m.behindName ++ (m.after.val ++ (moreText ms ++ '}' :: rest)))) := by
        rw [moreText, List.cons_append, List.append_assoc, m.text_append]
        exact moreMembers_comma b m.before _
      rw [membersFrom_of_moreMembers hmore (ends_moreText ms rest) hr, List.foldlM_cons,
        m.verdict_eq hr]
      cases r with
      | error e => rfl
      | ok s' =>
          exact ih (fun m' hm' => h m' (List.mem_cons_of_mem m hm')) (by omega) m.after s'

theorem length_le_moreText (ms : List Member) : ms.length ≤ (moreText ms).length := by
  induction ms with
  | nil => exact Nat.le_refl 0
  | cons m ms ih =>
      rw [moreText, List.length_cons, List.length_cons, List.length_append]
      omega

/-- **The members of an object are read one after the other,** up to the first one that is
refused. -/
theorem members_membersText (h : ∀ m ∈ ms, ∀ s, ∃ r, Reads (read m.name s) m.behindName r)
    (b : Blanks) (s : σ) (rest : List Char) :
    members read s (b.val ++ (membersText ms ++ '}' :: rest)) =
      (ms.foldlM (Member.verdict read) s).map fun s => (s, '}' :: rest) := by
  rw [members]
  cases ms with
  | nil => exact membersFrom_end b true s rest
  | cons m ms =>
      obtain ⟨r, hr⟩ := h m List.mem_cons_self s
      have hfuel : ms.length < (b.val ++ (membersText (m :: ms) ++ '}' :: rest)).length := by
        have hle := length_le_moreText ms
        simp only [membersText, List.length_append, List.length_cons]
        omega
      have hmore : moreMembers true (b.val ++ (membersText (m :: ms) ++ '}' :: rest)) =
          .ok (true, m.spelling ++
            '"' :: (m.behindName ++ (m.after.val ++ (moreText ms ++ '}' :: rest)))) := by
        rw [membersText, List.append_assoc, m.text_append]
        exact (skipsBlanks_moreMembers true b _).trans (moreMembers_first m.before _)
      rw [membersFrom_of_moreMembers hmore (ends_moreText ms rest) hr, List.foldlM_cons,
        m.verdict_eq hr]
      cases r with
      | error e => rfl
      | ok s' =>
          exact membersFrom_moreText (fun m' hm' => h m' (List.mem_cons_of_mem m hm')) hfuel m.after
            s' rest

end Members

/-! ### Whole texts -/

/-- Blanks may stand behind the value of a whole text. -/
theorem whole_eq {α : Type} {x : Reader α} {cs : List Char} {r : Except Error α} (b : Blanks)
    (h : x cs = r.map fun a => (a, b.val)) : whole x (String.ofList cs) = r := by
  rw [whole, String.toList_ofList]
  cases r with
  | ok a =>
      rw [bind_of_ok h, bind_of_ok (finish_blanks b)]
      rfl
  | error e =>
      rw [bind_of_error h]
      rfl

end Json

end ByteMachine
