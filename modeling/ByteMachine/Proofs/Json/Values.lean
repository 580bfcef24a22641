/-
**JSON values, and what readers of simple values make of them.**

The grammar of JSON, and for each of the readers of bounded numbers, truth values, optional values
and names its answer to any value of the grammar.  A value is either read up to its end or refused,
whatever stands behind it.  What refuses it says what it has found instead, so the problem is one of
the value and not of the text; but a number may be too large to be found at all, and a reader of
names takes nothing but texts and objects for JSON.

Main definitions:

* `ByteMachine.Json.IsValue`, with `AreItems` and `AreMembers` — **the grammar of JSON values**;
* `ByteMachine.Json.Error.IsData` — errors that are about the value, not about the text;
* `ByteMachine.Json.Judges` — a reader that reads a value or refuses it with such an error.

Main results:

* `ByteMachine.Json.reads_natural_toDigits`, `reads_variant_text` — values that are read;
* `ByteMachine.Json.exists_reads_natural`, `exists_reads_boolean`, `exists_reads_optional` and
  `exists_reads_variant` — **every value is read or refused**.
-/

import ByteMachine.Proofs.Json.Numbers

set_option relaxedAutoImplicit false
set_option autoImplicit false

namespace ByteMachine

namespace Json

variable {α : Type} {v cs rest : List Char} {c : Char} {n bound : Nat} {e : Error}
  {r : Except Error α} {expected : String}

/-! ### The grammar -/

mutual

/-- **The characters write a value.** -/
inductive IsValue : List Char → Prop
  | null : IsValue ['n', 'u', 'l', 'l']
  | yes : IsValue ['t', 'r', 'u', 'e']
  | no : IsValue ['f', 'a', 'l', 's', 'e']
  | number {cs : List Char} (h : IsNumber cs) : IsValue cs
  | text {cs s : List Char} (h : Spells cs s) : IsValue ('"' :: (cs ++ ['"']))
  | emptyArray (b : Blanks) : IsValue ('[' :: (b.val ++ [']']))
  | array {cs : List Char} (h : AreItems cs) : IsValue ('[' :: (cs ++ [']']))
  | emptyObject (b : Blanks) : IsValue ('{' :: (b.val ++ ['}']))
  | object {cs : List Char} (h : AreMembers cs) : IsValue ('{' :: (cs ++ ['}']))

/-- The characters write values with commas between them. -/
inductive AreItems : List Char → Prop
  | last (b b' : Blanks) {v : List Char} (h : IsValue v) : AreItems (b.val ++ (v ++ b'.val))
  | more (b b' : Blanks) {v cs : List Char} (h : IsValue v) (hs : AreItems cs) :
      AreItems (b.val ++ (v ++ (b'.val ++ ',' :: cs)))

/-- The characters write members with commas between them. -/
inductive AreMembers : List Char → Prop
  | last (b b₁ b₂ b' : Blanks) {name s v : List Char} (hname : Spells name s) (h : IsValue v) :
      AreMembers (b.val ++ '"' :: (name ++ '"' :: (b₁.val ++ ':' :: (b₂.val ++ (v ++ b'.val)))))
  | more (b b₁ b₂ b' : Blanks) {name s v cs : List Char} (hname : Spells name s) (h : IsValue v)
      (hs : AreMembers cs) :
      AreMembers (b.val ++ '"' :: (name ++ '"' :: (b₁.val ++ ':' :: (b₂.val ++
        (v ++ (b'.val ++ ',' :: cs))))))

end

/-- Whether a number begins with the character. -/
def startsNumber (c : Char) : Bool := c = '-' || isDigit c

theorem IsNumber.exists_cons (h : IsNumber v) :
    ∃ c cs, v = c :: cs ∧ startsNumber c = true := by
  cases h with
  | plus h =>
      obtain ⟨d, ds, rfl, hd⟩ := h.exists_digit
      exact ⟨d, ds, rfl, by rw [startsNumber, hd, Bool.or_true]⟩
  | minus h => exact ⟨'-', _, rfl, rfl⟩

theorem not_isSpace_of_startsNumber (h : startsNumber c = true) : isSpace c = false := by
  rw [Bool.eq_false_iff]
  intro hspace
  simp only [isSpace, Bool.or_eq_true, decide_eq_true_eq] at hspace
  rcases hspace with ((rfl | rfl) | rfl) | rfl <;> cases h

/-- A value begins with a character that is not blank. -/
theorem IsValue.exists_cons (h : IsValue v) : ∃ c cs, v = c :: cs ∧ isSpace c = false := by
  cases h with
  | number h =>
      obtain ⟨c, cs, rfl, hc⟩ := h.exists_cons
      exact ⟨c, cs, rfl, not_isSpace_of_startsNumber hc⟩
  | _ => exact ⟨_, _, rfl, by decide⟩

theorem IsValue.isNumber (h : IsValue (c :: cs)) (hc : startsNumber c = true) :
    IsNumber (c :: cs) := by
  generalize hv : c :: cs = v at h
  cases h with
  | number h => exact h
  | _ =>
      cases hv
      cases hc

/-- A value does not begin as an array ends. -/
theorem IsValue.exists_cons_ne_bracket (h : IsValue v) :
    ∃ c cs, v = c :: cs ∧ isSpace c = false ∧ c ≠ ']' := by
  cases h with
  | number h =>
      obtain ⟨c, cs, rfl, hc⟩ := h.exists_cons
      refine ⟨c, cs, rfl, not_isSpace_of_startsNumber hc, ?_⟩
      rintro rfl
      cases hc
  | _ => exact ⟨_, _, rfl, by decide, by decide⟩

/-- What a word goes on with behind its first letter. -/
def wordBehind? : Char → Option (List Char)
  | 'n' => some ['u', 'l', 'l']
  | 't' => some ['r', 'u', 'e']
  | 'f' => some ['a', 'l', 's', 'e']
  | _ => none

/-- A value that begins as a word is that word. -/
theorem IsValue.eq_of_wordBehind? {w : List Char} (h : IsValue (c :: cs))
    (hw : wordBehind? c = some w) : cs = w := by
  generalize hv : c :: cs = v at h
  cases h with
  | null | yes | no =>
      cases hv
      exact Option.some.inj hw
  | number h =>
      obtain ⟨c, cs, rfl, hc⟩ := h.exists_cons
      cases hv
      unfold wordBehind? at hw
      split at hw
      · cases hc
      · cases hc
      · cases hc
      · cases hw
  | _ =>
      cases hv
      cases hw

/-! ### Errors -/

/-- **The error is about the value:** the text is JSON so far. -/
def Error.IsData (e : Error) : Prop := ∃ m, e = .mismatch m

/-- The answer is a value, or an error about the value. -/
def Judges (r : Except Error α) : Prop := ∀ e, r = .error e → e.IsData

theorem judges_ok (a : α) : Judges (.ok a) := fun _ h => by cases h

theorem judges_mismatch (m : Mismatch) : Judges (.error (.mismatch m) : Except Error α) := by
  rintro _ ⟨⟩
  exact ⟨m, rfl⟩

theorem Judges.map {β : Type} (h : Judges r) (f : α → β) : Judges (r.map f) := by
  cases r with
  | ok a => exact judges_ok (f a)
  | error e =>
      rintro _ ⟨⟩
      exact h e rfl

/-! ### Values of another type -/

theorem found_of_startsNumber (h : startsNumber c = true) :
    found c = (do return .number (← number)) := by
  unfold found
  split
  all_goals first
    | cases h
    | exact if_pos h

/-- **A value of another type is refused,** for what it is. -/
theorem exists_reads_invalidType (h : IsValue (c :: cs)) (expected : String) :
    ∃ e, Reads (invalidType c expected : Reader α) (c :: cs) (.error e) ∧
      (¬Oversized (c :: cs) → e.IsData) := by
  generalize hv : c :: cs = v at h
  have hrefuse : ∀ {x : Reader Found} (what : Found) {v : List Char},
      found c = x → (∀ rest, Ends rest → ∃ cs, x (v ++ rest) = .ok (what, cs)) →
      ∃ e, Reads (invalidType c expected : Reader α) v (.error e) ∧ (¬Oversized v → e.IsData) := by
    rintro x what v rfl hx
    refine ⟨.mismatch (.invalidType what expected), fun rest hrest => ?_, fun _ => ⟨_, rfl⟩⟩
    obtain ⟨cs, hcs⟩ := hx rest hrest
    rw [invalidType, bind_of_ok hcs]
    rfl
  cases h with
  | null =>
      cases hv
      exact hrefuse .null rfl fun rest _ =>
        ⟨rest, bind_of_ok (word_append ['n', 'u', 'l', 'l'] rest)⟩
  | yes =>
      cases hv
      exact hrefuse (.boolean true) rfl fun rest _ =>
        ⟨rest, bind_of_ok (word_append ['t', 'r', 'u', 'e'] rest)⟩
  | no =>
      cases hv
      exact hrefuse (.boolean false) rfl fun rest _ =>
        ⟨rest, bind_of_ok (word_append ['f', 'a', 'l', 's', 'e'] rest)⟩
  | @text cs s h =>
      cases hv
      refine hrefuse (.text (String.ofList s)) rfl fun rest _ => ⟨rest, ?_⟩
      change (text >>= fun s => pure (Found.text s)) (cs ++ ['"'] ++ rest) = _
      rw [List.append_assoc, List.singleton_append, bind_of_ok (text_of_spells h rest)]
      rfl
  | emptyArray | array =>
      cases hv
      exact hrefuse .sequence rfl fun rest _ => ⟨_, rfl⟩
  | emptyObject | object =>
      cases hv
      exact hrefuse .map rfl fun rest _ => ⟨_, rfl⟩
  | number h =>
      obtain ⟨c', cs', rfl, hc⟩ := h.exists_cons
      cases hv
      have hfound := found_of_startsNumber hc
      obtain ⟨r, hr⟩ := exists_reads_number h
      cases r with
      | ok n =>
          refine hrefuse (.number n) hfound fun rest hrest => ⟨rest, ?_⟩
          rw [bind_of_ok (hr rest hrest)]
          rfl
      | error e =>
          refine ⟨e, fun rest hrest => ?_, fun hfits => absurd ⟨h, e, ?_⟩ hfits⟩
          · rw [invalidType, hfound, bind_of_error (bind_of_error (hr rest hrest))]
            rfl
          · exact hr.self

/-! ### Numbers -/

theorem skipsBlanks_natural (bound : Nat) (expected : String) :
    SkipsBlanks (natural bound expected) := skipsBlanks_look.bind _

/-- What is made of a number. -/
def naturalOf (bound : Nat) (expected : String) : Number → Except Error Nat
  | .natural n =>
    if n ≤ bound then .ok n else .error (.mismatch (.invalidValue (.natural n) expected))
  | .negative n => .error (.mismatch (.invalidValue (.negative n) expected))
  | x => .error (.mismatch (.invalidType (.number x) expected))

theorem judges_naturalOf (bound : Nat) (expected : String) (x : Number) :
    Judges (naturalOf bound expected x) := by
  cases x with
  | natural n =>
      rw [naturalOf]
      split
      · exact judges_ok n
      · exact judges_mismatch _
  | negative n | float => exact judges_mismatch _

theorem reads_natural_of_number (h : IsNumber v) {r : Except Error Number} (hr : Reads number v r)
    (bound : Nat) (expected : String) :
    Reads (natural bound expected) v (r.bind (naturalOf bound expected)) := by
  obtain ⟨c, cs, rfl, hc⟩ := h.exists_cons
  refine .bind_look (not_isSpace_of_startsNumber hc) fun rest hrest => ?_
  have hc' : (decide (c = '-') || isDigit c) = true := hc
  rw [if_pos hc']
  cases r with
  | error e => exact bind_of_error (hr rest hrest)
  | ok x =>
      rw [bind_of_ok (hr rest hrest)]
      cases x with
      | natural n =>
          change _ = (naturalOf bound expected (.natural n)).map _
          rw [naturalOf]
          dsimp only
          split <;> rfl
      | negative n | float => rfl

/-- **A natural number within the bound is read.** -/
theorem reads_natural_toDigits (hn : n ≤ bound) (hbound : bound < UInt64.size) (expected : String) :
    Reads (natural bound expected) (Nat.toDigits 10 n) (.ok n) := by
  have hread := reads_natural_of_number (.plus (isMagnitude_toDigits n))
    (reads_number_toDigits (Nat.lt_of_le_of_lt hn hbound)) bound expected
  change Reads _ _ (naturalOf bound expected (.natural n)) at hread
  rwa [naturalOf, if_pos hn] at hread

theorem reads_byte (b : UInt8) : Reads byte (Nat.toDigits 10 b.toNat) (.ok b) := by
  have hb : b.toNat ≤ 255 := Nat.le_of_lt_succ b.toNat_lt
  have hread := (reads_natural_toDigits hb (by decide) "u8").bind_pure UInt8.ofNat
  rwa [Except.map, UInt8.ofNat_toNat] at hread

/-- **Every value is read as a number or refused.** -/
theorem exists_reads_natural (h : IsValue v) (bound : Nat) (expected : String) :
    ∃ r, Reads (natural bound expected) v r ∧ (¬Oversized v → Judges r) := by
  obtain ⟨c, cs, rfl, hspace⟩ := h.exists_cons
  cases hc : startsNumber c with
  | true =>
      have hnumber := h.isNumber hc
      obtain ⟨r, hr⟩ := exists_reads_number hnumber
      refine ⟨_, reads_natural_of_number hnumber hr bound expected, fun hfits => ?_⟩
      cases r with
      | ok x => exact judges_naturalOf bound expected x
      | error e => exact absurd ⟨hnumber, e, hr.self⟩ hfits
  | false =>
      obtain ⟨e, he, hdata⟩ := exists_reads_invalidType (α := Nat) h expected
      refine ⟨.error e, .bind_look hspace ?_, fun hfits => ?_⟩
      · rw [if_neg (by rw [← startsNumber, hc]; exact Bool.false_ne_true)]
        exact he
      · rintro _ ⟨⟩
        exact hdata hfits

/-- **An integer out of range is refused.** -/
theorem exists_reads_natural_integerText {k : Int} (hk : ¬(0 ≤ k ∧ k ≤ bound))
    (expected : String) : ∃ e, Reads (natural bound expected) (integerText k) (.error e) ∧
      (¬Oversized (integerText k) → e.IsData) := by
  have hnumber := isNumber_integerText k
  obtain ⟨r, hr⟩ := exists_reads_number hnumber
  have hread := reads_natural_of_number hnumber hr bound expected
  cases r with
  | error e => exact ⟨e, hread, fun hfits => absurd ⟨hnumber, e, hr.self⟩ hfits⟩
  | ok x =>
      have hrefused : ∃ m, naturalOf bound expected x = .error (.mismatch m) := by
        cases x with
        | natural m =>
            have hvalue := eq_of_number_integerText hr.self
            rw [naturalOf, if_neg (by omega)]
            exact ⟨_, rfl⟩
        | negative m | float => exact ⟨_, rfl⟩
      obtain ⟨m, hm⟩ := hrefused
      rw [Except.bind, hm] at hread
      exact ⟨_, hread, fun _ => ⟨m, rfl⟩⟩

/-! ### Words -/

theorem reads_null {a : α} :
    Reads (word "null".toList >>= fun _ => pure a) ['n', 'u', 'l', 'l'] (.ok a) :=
  .bind (fun rest _ => word_append ['n', 'u', 'l', 'l'] rest) (reads_pure a)

theorem skipsBlanks_boolean : SkipsBlanks boolean := skipsBlanks_look.bind _

theorem reads_boolean_true : Reads boolean ['t', 'r', 'u', 'e'] (.ok true) :=
  .bind_look rfl (.bind (fun rest _ => word_append ['t', 'r', 'u', 'e'] rest) (reads_pure true))

theorem reads_boolean_false : Reads boolean ['f', 'a', 'l', 's', 'e'] (.ok false) :=
  .bind_look rfl
    (.bind (fun rest _ => word_append ['f', 'a', 'l', 's', 'e'] rest) (reads_pure false))

/-- **Every value is read as a truth value or refused.** -/
theorem exists_reads_boolean (h : IsValue v) :
    ∃ r, Reads boolean v r ∧ (¬Oversized v → Judges r) := by
  obtain ⟨c, cs, rfl, hspace⟩ := h.exists_cons
  by_cases htrue : c = 't'
  · subst htrue
    rw [h.eq_of_wordBehind? rfl]
    exact ⟨_, reads_boolean_true, fun _ => judges_ok true⟩
  · by_cases hfalse : c = 'f'
    · subst hfalse
      rw [h.eq_of_wordBehind? rfl]
      exact ⟨_, reads_boolean_false, fun _ => judges_ok false⟩
    · obtain ⟨e, he, hdata⟩ := exists_reads_invalidType (α := Bool) h "a boolean"
      refine ⟨.error e, .bind_look hspace ?_, fun hfits => ?_⟩
      · split
        · exact absurd rfl htrue
        · exact absurd rfl hfalse
        · exact he
      · rintro _ ⟨⟩
        exact hdata hfits

theorem skipsBlanks_optional (x : Reader α) : SkipsBlanks (optional x) := skipsBlanks_look.bind _

theorem reads_optional_null (x : Reader α) :
    Reads (optional x) ['n', 'u', 'l', 'l'] (.ok none) :=
  .bind_look rfl reads_null

theorem reads_optional {x : Reader α} (hspace : isSpace c = false) (hc : c ≠ 'n')
    (hx : Reads x (c :: cs) r) : Reads (optional x) (c :: cs) (r.map some) := by
  refine .bind_look hspace ?_
  rw [if_neg hc]
  exact hx.bind_pure some

/-- No number is `null`. -/
theorem reads_optional_number {x : Reader α} (h : IsNumber v) (hx : Reads x v r) :
    Reads (optional x) v (r.map some) := by
  obtain ⟨c, cs, rfl, hc⟩ := h.exists_cons
  refine reads_optional (not_isSpace_of_startsNumber hc) ?_ hx
  rintro rfl
  cases hc

/-- **Every value is read or refused where it may be missing,** if it is where it may not. -/
theorem exists_reads_optional {x : Reader α} (h : IsValue v)
    (hx : ∃ r, Reads x v r ∧ (¬Oversized v → Judges r)) :
    ∃ r, Reads (optional x) v r ∧ (¬Oversized v → Judges r) := by
  obtain ⟨c, cs, rfl, hspace⟩ := h.exists_cons
  by_cases hc : c = 'n'
  · subst hc
    rw [h.eq_of_wordBehind? rfl]
    exact ⟨_, reads_optional_null x, fun _ => judges_ok none⟩
  · obtain ⟨r, hr, hjudges⟩ := hx
    exact ⟨_, reads_optional hspace hc hr, fun hfits => (hjudges hfits).map some⟩

/-! ### Names -/

section Names

variable {known : List String} {ofName? : String → Option α} {name s : List Char} {a : α}

theorem skipsBlanks_variant (known : List String) (ofName? : String → Option α) :
    SkipsBlanks (variant known ofName?) := skipsBlanks_look.bind _

/-- What is made of a name. -/
def choiceOf (known : List String) (ofName? : String → Option α) (name : String) : Except Error α :=
  match ofName? name with
  | some a => .ok a
  | none => .error (.mismatch (.unknownVariant name known))

theorem choice_of_spells (known : List String) (ofName? : String → Option α) (h : Spells name s)
    (rest : List Char) :
    choice known ofName? (name ++ '"' :: rest) =
      (choiceOf known ofName? (String.ofList s)).map fun a => (a, rest) := by
  rw [choice, bind_of_ok (text_of_spells h rest), choiceOf]
  cases ofName? (String.ofList s) <;> rfl

/-- **A text is read as the name that it spells.** -/
theorem reads_variant_text (known : List String) (ofName? : String → Option α)
    (h : Spells name s) :
    Reads (variant known ofName?) ('"' :: (name ++ ['"']))
      (choiceOf known ofName? (String.ofList s)) := by
  refine .bind_look rfl fun rest hrest => ?_
  change choice known ofName? (name ++ ['"'] ++ rest) = _
  rw [List.append_assoc]
  exact choice_of_spells known ofName? h rest

theorem judges_choiceOf (known : List String) (ofName? : String → Option α) (name : String) :
    Judges (choiceOf known ofName? name) := by
  rw [choiceOf]
  cases ofName? name with
  | some a => exact judges_ok a
  | none => exact judges_mismatch _

/-- What is read behind a name that is known. -/
def unitBehind (a : α) : Reader α := do
  colon
  let c ← look
  if c = 'n' then word "null".toList else invalidType c "unit"
  symbol '}'
  return a

/-- Behind the first member of an object there is its end or a comma. -/
theorem AreMembers.exists_first (h : AreMembers cs) :
    ∃ (b b₁ b₂ b' : Blanks) (name s v more : List Char), Spells name s ∧ IsValue v ∧
      cs = b.val ++ '"' :: (name ++ '"' :: (b₁.val ++ ':' :: (b₂.val ++ (v ++ (b'.val ++ more))))) ∧
      (more = [] ∨ ∃ more', more = ',' :: more') := by
  cases h with
  | last b b₁ b₂ b' hname h =>
      refine ⟨b, b₁, b₂, b', _, _, _, [], hname, h, ?_, .inl rfl⟩
      rw [List.append_nil]
  | more b b₁ b₂ b' hname h hs =>
      exact ⟨b, b₁, b₂, b', _, _, _, _, hname, h, rfl, .inr ⟨_, rfl⟩⟩

/-- What stands behind the colon decides. -/
theorem unitBehind_blanks (a : α) (b₁ b₂ : Blanks) (hspace : isSpace c = false) (rest : List Char) :
    unitBehind a (b₁.val ++ ':' :: (b₂.val ++ c :: rest)) =
      ((if c = 'n' then word "null".toList else invalidType c "unit") >>= fun _ =>
        symbol '}' >>= fun _ => pure a) (c :: rest) := by
  rw [unitBehind, bind_of_ok (colon_blanks b₁ _), bind_of_ok (look_blanks b₂ hspace rest)]
  split <;> rfl

/-- The value behind a known name is `null` and ends the object, or something is wrong. -/
theorem exists_reads_unitBehind (a : α) (b₁ b₂ b' : Blanks) {v more : List Char} (h : IsValue v)
    (hmore : more = [] ∨ ∃ more', more = ',' :: more') :
    ∃ r, Reads (unitBehind a)
      (b₁.val ++ ':' :: (b₂.val ++ (v ++ (b'.val ++ (more ++ ['}']))))) r := by
  obtain ⟨c, cs, rfl, hspace⟩ := h.exists_cons
  have hends : ∀ rest, Ends (b'.val ++ (more ++ ['}'] ++ rest)) := by
    intro rest
    refine ends_blanks b' ?_
    rcases hmore with rfl | ⟨more', rfl⟩ <;> exact ends_cons rfl _
  by_cases hc : c = 'n'
  · subst hc
    rw [h.eq_of_wordBehind? rfl]
    rcases hmore with rfl | ⟨more', rfl⟩
    · refine ⟨.ok a, fun rest _ => ?_⟩
      simp only [List.append_assoc, List.cons_append, List.nil_append]
      rw [unitBehind_blanks a b₁ b₂ rfl, if_pos rfl]
      change (word ['n', 'u', 'l', 'l'] >>= _) (['n', 'u', 'l', 'l'] ++ _) = _
      rw [bind_of_ok (word_append _ _)]
      exact bind_of_ok (symbol_blanks b' rfl rest)
    · refine ⟨.error .malformed, fun rest _ => ?_⟩
      simp only [List.append_assoc, List.cons_append, List.nil_append]
      rw [unitBehind_blanks a b₁ b₂ rfl, if_pos rfl]
      change (word ['n', 'u', 'l', 'l'] >>= _) (['n', 'u', 'l', 'l'] ++ _) = _
      rw [bind_of_ok (word_append _ _)]
      exact bind_of_error (symbol_blanks_of_ne b' rfl (by decide) _)
  · obtain ⟨e, he, -⟩ := exists_reads_invalidType (α := Unit) h "unit"
    refine ⟨.error e, fun rest _ => ?_⟩
    simp only [List.append_assoc, List.cons_append]
    rw [unitBehind_blanks a b₁ b₂ hspace, if_neg hc]
    have hrefused := he _ (hends rest)
    rw [List.append_assoc] at hrefused
    exact bind_of_error hrefused

/-- Only texts and objects are taken for names. -/
theorem reads_variant_malformed (hspace : isSpace c = false) (hquote : c ≠ '"') (hbrace : c ≠ '{')
    (cs : List Char) : Reads (variant known ofName?) (c :: cs) (.error .malformed) := by
  refine .bind_look hspace ?_
  split
  · exact absurd rfl hquote
  · exact absurd rfl hbrace
  · exact reads_throw _ _

/-- An object is read as the name of its first member, if its value and its end are as they should
be. -/
theorem exists_reads_variant_object (known : List String) (ofName? : String → Option α)
    (b : Blanks) (h : Spells name s)
    (hunit : ∀ a : α, ∃ r, Reads (unitBehind a) cs r) :
    ∃ r, Reads (variant known ofName?) ('{' :: (b.val ++ '"' :: (name ++ '"' :: cs))) r := by
  have hname : ∀ rest,
      variant known ofName? ('{' :: (b.val ++ '"' :: (name ++ '"' :: cs)) ++ rest) =
        (choice known ofName? >>= unitBehind) (name ++ '"' :: (cs ++ rest)) := by
    intro rest
    rw [variant, List.cons_append, bind_of_ok (look_of_not_isSpace rfl _)]
    change (symbol '"' >>= fun _ => choice known ofName? >>= unitBehind)
      (b.val ++ '"' :: (name ++ '"' :: cs) ++ rest) = _
    simp only [List.append_assoc, List.cons_append]
    exact bind_of_ok (symbol_blanks b rfl _)
  cases hchoice : choiceOf known ofName? (String.ofList s) with
  | error e =>
      refine ⟨.error e, fun rest _ => ?_⟩
      have hrefused := choice_of_spells known ofName? h (cs ++ rest)
      rw [hchoice] at hrefused
      rw [hname, bind_of_error hrefused]
      rfl
  | ok a =>
      obtain ⟨r, hr⟩ := hunit a
      refine ⟨r, fun rest hrest => ?_⟩
      have hknown := choice_of_spells known ofName? h (cs ++ rest)
      rw [hchoice] at hknown
      rw [hname, bind_of_ok hknown]
      exact hr rest hrest

/-- **Every value is read as a name or refused.** -/
theorem exists_reads_variant (h : IsValue v) (known : List String) (ofName? : String → Option α) :
    ∃ r, Reads (variant known ofName?) v r ∧ (v.head? = some '"' → Judges r) := by
  have hmalformed : ∀ {c : Char} (cs : List Char), isSpace c = false → c ≠ '"' → c ≠ '{' →
      ∃ r, Reads (variant known ofName?) (c :: cs) r ∧
        ((c :: cs).head? = some '"' → Judges r) := fun cs hspace hquote hbrace =>
    ⟨_, reads_variant_malformed hspace hquote hbrace cs,
      fun hc => absurd (Option.some.inj hc) hquote⟩
  cases h with
  | null | yes | no | emptyArray | array => exact hmalformed _ rfl (by decide) (by decide)
  | number h =>
      obtain ⟨c, cs, rfl, hc⟩ := h.exists_cons
      refine hmalformed cs (not_isSpace_of_startsNumber hc) ?_ ?_ <;>
      · rintro rfl
        cases hc
  | text h => exact ⟨_, reads_variant_text known ofName? h, fun _ => judges_choiceOf _ _ _⟩
  | emptyObject b =>
      refine ⟨.error .malformed, .bind_look rfl fun rest _ => ?_, fun hc => by cases hc⟩
      change (symbol '"' >>= fun _ => choice known ofName? >>= unitBehind)
        (b.val ++ ['}'] ++ rest) = _
      rw [List.append_assoc, List.singleton_append,
        bind_of_error (symbol_blanks_of_ne b rfl (by decide) rest)]
      rfl
  | object h =>
      obtain ⟨b, b₁, b₂, b', name, s, v, more, hname, hv, rfl, hmore⟩ := h.exists_first
      obtain ⟨r, hr⟩ := exists_reads_variant_object known ofName? b hname fun a =>
        exists_reads_unitBehind a b₁ b₂ b' hv hmore
      refine ⟨r, ?_, fun hc => by cases hc⟩
      simp only [List.append_assoc, List.cons_append]
      exact hr

end Names

end Json

end ByteMachine
