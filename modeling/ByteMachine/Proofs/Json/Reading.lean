/-
**What readers do with a part of a text.**

A reader is given all that is left of a text, and takes a part off its front.  Here its answer is
tied to that part alone: it reads a part as a value, or refuses it with an error, if it does so
whatever stands behind it.  One thing is asked of what stands behind it, as nothing but the next
character tells where a number ends: it must not go on with one.

Readers that look ahead first pass over blanks, and a text in quotes is read as the characters that
it spells, however they are spelled.

Main definitions:

* `ByteMachine.Json.Blanks` — white space;
* `ByteMachine.Json.Reads` — **a reader reads a part of a text as a value, or with an error**;
* `ByteMachine.Json.SkipsBlanks` — readers that blanks in front make no difference to;
* `ByteMachine.Json.Spells` — the spellings of characters between quotes.

Main results:

* `ByteMachine.Json.Reads.bind_look`, `Reads.map` — how readings are put together;
* `ByteMachine.Json.text_of_spells` — **a text is read as what it spells**.
-/

import ByteMachine.Json.Shape

set_option relaxedAutoImplicit false
set_option autoImplicit false

namespace ByteMachine

namespace Json

variable {α β : Type} {x : Reader α} {f : α → Reader β} {cs rest : List Char} {a : α} {e : Error}
  {r : Except Error α} {c : Char}

/-! ### Sequences of readers -/

theorem bind_of_ok (h : x cs = .ok (a, rest)) : (x >>= f) cs = f a rest := by
  change Except.bind (x cs) _ = _
  rw [h]
  rfl

theorem bind_of_error (h : x cs = .error e) : (x >>= f) cs = .error e := by
  change Except.bind (x cs) _ = _
  rw [h]
  rfl

/-- A value that is only passed on has been read. -/
theorem exists_of_bind_pure {g : α → β} {b : β}
    (h : (x >>= fun a => pure (g a)) cs = .ok (b, rest)) : ∃ a, x cs = .ok (a, rest) ∧ g a = b := by
  cases hx : x cs with
  | error e =>
      rw [bind_of_error hx] at h
      cases h
  | ok p =>
      obtain ⟨a, rest'⟩ := p
      rw [bind_of_ok hx] at h
      cases h
      exact ⟨a, rfl, rfl⟩

/-- What comes first decides. -/
theorem bind_congr_left {cs' : List Char} (h : x cs = x cs') : (x >>= f) cs = (x >>= f) cs' := by
  change Except.bind (x cs) _ = Except.bind (x cs') _
  rw [h]

theorem word_append (w rest : List Char) : word w (w ++ rest) = .ok ((), rest) := by
  induction w with
  | nil => rfl
  | cons c w ih =>
      rw [List.cons_append, word, bind_of_ok (x := get) rfl]
      dsimp only
      rw [if_pos rfl, bind_of_ok (x := advance) rfl]
      exact ih

/-! ### Blanks -/

/-- **White space**, of any length. -/
def Blanks : Type := {cs : List Char // ∀ c ∈ cs, isSpace c = true}

/-- No white space. -/
def Blanks.none : Blanks := ⟨[], fun _ h => by cases h⟩

theorem look_of_not_isSpace (h : isSpace c = false) (rest : List Char) :
    look (c :: rest) = .ok (c, c :: rest) := by
  rw [look, List.dropWhile_cons_of_neg (by rw [h]; exact Bool.false_ne_true)]

/-- **Blanks in front make no difference to the reader.** -/
def SkipsBlanks (x : Reader α) : Prop := ∀ (b : Blanks) cs, x (b.val ++ cs) = x cs

theorem skipsBlanks_look : SkipsBlanks look := by
  intro b cs
  rw [look, List.dropWhile_append_of_pos b.property, look]

theorem SkipsBlanks.bind (h : SkipsBlanks x) (f : α → Reader β) : SkipsBlanks (x >>= f) :=
  fun b cs => bind_congr_left (h b cs)

theorem SkipsBlanks.map (h : SkipsBlanks x) (g : α → β) : SkipsBlanks (g <$> x) := by
  intro b cs
  change Except.bind (x (b.val ++ cs)) _ = Except.bind (x cs) _
  rw [h]

theorem skipsBlanks_symbol (c : Char) : SkipsBlanks (symbol c) := skipsBlanks_look.bind _

theorem symbol_cons (h : isSpace c = false) (rest : List Char) :
    symbol c (c :: rest) = .ok ((), rest) := by
  rw [symbol, bind_of_ok (look_of_not_isSpace h rest), if_pos rfl]
  rfl

theorem symbol_of_ne {d : Char} (h : isSpace d = false) (hne : d ≠ c) (rest : List Char) :
    symbol c (d :: rest) = .error .malformed := by
  rw [symbol, bind_of_ok (look_of_not_isSpace h rest), if_neg hne]
  rfl

theorem look_blanks (b : Blanks) (h : isSpace c = false) (rest : List Char) :
    look (b.val ++ c :: rest) = .ok (c, c :: rest) :=
  (skipsBlanks_look b _).trans (look_of_not_isSpace h rest)

theorem symbol_blanks (b : Blanks) (h : isSpace c = false) (rest : List Char) :
    symbol c (b.val ++ c :: rest) = .ok ((), rest) :=
  (skipsBlanks_symbol c b _).trans (symbol_cons h rest)

theorem symbol_blanks_of_ne {d : Char} (b : Blanks) (h : isSpace d = false) (hne : d ≠ c)
    (rest : List Char) : symbol c (b.val ++ d :: rest) = .error .malformed :=
  (skipsBlanks_symbol c b _).trans (symbol_of_ne h hne rest)

theorem colon_blanks (b : Blanks) (rest : List Char) :
    colon (b.val ++ ':' :: rest) = .ok ((), rest) :=
  symbol_blanks b rfl rest

theorem finish_blanks (b : Blanks) : finish b.val = .ok ((), b.val) := by
  have hnone : b.val.dropWhile isSpace = [] := by
    have hall : (b.val ++ []).dropWhile isSpace = [] := List.dropWhile_append_of_pos b.property
    rwa [List.append_nil] at hall
  rw [finish, bind_of_ok (x := get) rfl, hnone]
  rfl

/-! ### Reading a part of a text -/

/-- The character can go on with a number. -/
def continuesNumber (c : Char) : Bool := isDigit c || c == '.' || c == 'e' || c == 'E'

/-- **The text does not go on with a number.** -/
def Ends (rest : List Char) : Prop := ∀ c ∈ rest.head?, continuesNumber c = false

theorem ends_cons (h : continuesNumber c = false) (rest : List Char) : Ends (c :: rest) := by
  rintro _ ⟨⟩
  exact h

theorem ends_blanks (b : Blanks) (h : Ends rest) : Ends (b.val ++ rest) := by
  obtain ⟨cs, hspace⟩ := b
  cases cs with
  | nil => exact h
  | cons c cs =>
      refine ends_cons ?_ _
      have hc := hspace c List.mem_cons_self
      simp only [isSpace, Bool.or_eq_true, decide_eq_true_eq] at hc
      rcases hc with ((rfl | rfl) | rfl) | rfl <;> decide

/-- **The reader reads `cs` as the value, or refuses it with the error,** whatever stands behind it
that does not go on with a number. -/
def Reads (x : Reader α) (cs : List Char) (r : Except Error α) : Prop :=
  ∀ rest, Ends rest → x (cs ++ rest) = r.map fun a => (a, rest)

theorem reads_pure (a : α) : Reads (pure a) [] (.ok a) := fun _ _ => rfl

theorem reads_throw (e : Error) (cs : List Char) : Reads (throw e : Reader α) cs (.error e) :=
  fun _ _ => rfl

theorem ends_nil : Ends [] := fun _ h => by cases h

namespace Reads

/-- Nothing may stand behind it. -/
theorem self (h : Reads x cs r) : x cs = r.map fun a => (a, []) := by
  have hread := h [] ends_nil
  rwa [List.append_nil] at hread

/-- A part is read in one way. -/
theorem unique {r' : Except Error α} (h : Reads x cs r) (h' : Reads x cs r') : r = r' := by
  have hsame := h.self.symm.trans h'.self
  cases r <;> cases r' <;> cases hsame <;> rfl

theorem map (h : Reads x cs r) (g : α → β) : Reads (g <$> x) cs (r.map g) := by
  intro rest hrest
  change Except.bind (x (cs ++ rest)) _ = _
  rw [h rest hrest]
  cases r <;> rfl

theorem bind_pure (h : Reads x cs r) (g : α → β) :
    Reads (x >>= fun a => pure (g a)) cs (r.map g) := h.map g

/-- A reader that looks ahead sees the first character that is not blank. -/
theorem bind_look (hc : isSpace c = false) {f : Char → Reader α} (h : Reads (f c) (c :: cs) r) :
    Reads (look >>= f) (c :: cs) r := by
  intro rest hrest
  rw [List.cons_append, bind_of_ok (look_of_not_isSpace hc _)]
  exact h rest hrest

/-- What has been read is done with. -/
theorem bind (h : ∀ rest, Ends rest → x (cs ++ rest) = .ok (a, rest)) {s : Except Error β}
    (hf : Reads (f a) [] s) : Reads (x >>= f) cs s := by
  intro rest hrest
  rw [bind_of_ok (h rest hrest)]
  exact hf rest hrest

end Reads

/-! ### Texts -/

/-- **The characters between two quotes spell the characters of a text.**  Each of them stands for
itself, or is escaped: by a backslash and one more character, by its code in hexadecimal digits, or
by two codes if it lies beyond the first plane. -/
inductive Spells : List Char → List Char → Prop
  | nil : Spells [] []
  | plain {c : Char} {cs s : List Char} (hc : 0x20 ≤ c.toNat) (hquote : c ≠ '"') (hslash : c ≠ '\\')
      (h : Spells cs s) : Spells (c :: cs) (c :: s)
  | short {c d : Char} {cs s : List Char} (hd : shortEscape? c = some d) (h : Spells cs s) :
      Spells ('\\' :: c :: cs) (d :: s)
  | code {a b c d : Char} {n : Nat} {cs s : List Char} (hn : quad [a, b, c, d] = .ok (n, []))
      (hplane : n < 0xD800 ∨ 0xDFFF < n) (h : Spells cs s) :
      Spells ('\\' :: 'u' :: a :: b :: c :: d :: cs) (Char.ofNat n :: s)
  | codes {a b c d a' b' c' d' : Char} {n n' : Nat} {cs s : List Char}
      (hn : quad [a, b, c, d] = .ok (n, [])) (hn' : quad [a', b', c', d'] = .ok (n', []))
      (hlead : 0xD800 ≤ n ∧ n ≤ 0xDBFF) (htrail : 0xDC00 ≤ n' ∧ n' ≤ 0xDFFF) (h : Spells cs s) :
      Spells ('\\' :: 'u' :: a :: b :: c :: d :: '\\' :: 'u' :: a' :: b' :: c' :: d' :: cs)
        (Char.ofNat (0x10000 + (n - 0xD800) * 0x400 + (n' - 0xDC00)) :: s)

/-- The character need not be escaped. -/
def isPlain (c : Char) : Bool := decide (0x20 ≤ c.toNat) && c != '"' && c != '\\'

/-- A text in which nothing has to be escaped spells itself. -/
theorem spells_self {s : List Char} (h : s.all isPlain = true) : Spells s s := by
  induction s with
  | nil => exact .nil
  | cons c s ih =>
      simp only [List.all_cons, isPlain, Bool.and_eq_true, decide_eq_true_eq, bne_iff_ne] at h
      obtain ⟨⟨⟨hc, hquote⟩, hslash⟩, hs⟩ := h
      exact .plain hc hquote hslash (ih hs)

theorem quad_append {a b c d : Char} {n : Nat} (h : quad [a, b, c, d] = .ok (n, []))
    (rest : List Char) : quad (a :: b :: c :: d :: rest) = .ok (n, rest) := by
  simp only [quad] at h ⊢
  split at h
  · cases h
    rfl
  · cases h

theorem textBody_quote (rest : List Char) : textBody ('"' :: rest) = .ok ([], rest) := by
  rw [textBody]

theorem textBody_plain (hc : 0x20 ≤ c.toNat) (hquote : c ≠ '"') (hslash : c ≠ '\\') {s : List Char}
    (h : textBody cs = .ok (s, rest)) : textBody (c :: cs) = .ok (c :: s, rest) := by
  rw [textBody]
  · rw [if_neg (Nat.not_lt.2 hc), h]
    rfl
  · exact hquote
  · exact hslash

theorem textBody_escaped {more : List Char} (hc : escaped more = .ok (c, cs)) {s : List Char}
    (h : textBody cs = .ok (s, rest)) : textBody ('\\' :: more) = .ok (c :: s, rest) := by
  rw [textBody]
  split
  · rename_i e he
    rw [hc] at he
    cases he
  · rename_i d cs' hd
    rw [hc] at hd
    cases hd
    rw [h]
    rfl

theorem escaped_short {d : Char} (h : shortEscape? c = some d) (cs : List Char) :
    escaped (c :: cs) = .ok (d, cs) := by
  unfold escaped
  split
  · rename_i heq
    cases heq
  · rename_i heq
    cases heq
    cases h
  · rename_i heq
    cases heq
    rw [h]

theorem escaped_code {a b c d : Char} {n : Nat} (hn : quad [a, b, c, d] = .ok (n, []))
    (hplane : n < 0xD800 ∨ 0xDFFF < n) (cs : List Char) :
    escaped ('u' :: a :: b :: c :: d :: cs) = .ok (Char.ofNat n, cs) := by
  rw [escaped, quad_append hn]
  change (if _ then _ else if _ then _ else _) = _
  rw [if_neg (by omega), if_neg (by omega)]
  rfl

theorem escaped_codes {a b c d a' b' c' d' : Char} {n n' : Nat}
    (hn : quad [a, b, c, d] = .ok (n, [])) (hn' : quad [a', b', c', d'] = .ok (n', []))
    (hlead : 0xD800 ≤ n ∧ n ≤ 0xDBFF) (htrail : 0xDC00 ≤ n' ∧ n' ≤ 0xDFFF) (cs : List Char) :
    escaped ('u' :: a :: b :: c :: d :: '\\' :: 'u' :: a' :: b' :: c' :: d' :: cs) =
      .ok (Char.ofNat (0x10000 + (n - 0xD800) * 0x400 + (n' - 0xDC00)), cs) := by
  rw [escaped, quad_append hn]
  change (if _ then _ else if _ then _ else _) = _
  rw [if_neg (by omega), if_pos hlead, trailing, quad_append hn']
  change (if _ then _ else _) = _
  rw [if_pos htrail]
  rfl

/-- Characters up to the closing quote are read as what they spell. -/
theorem textBody_of_spells {s : List Char} (h : Spells cs s) (rest : List Char) :
    textBody (cs ++ '"' :: rest) = .ok (s, rest) := by
  induction h with
  | nil => exact textBody_quote rest
  | plain hc hquote hslash _ ih => exact textBody_plain hc hquote hslash ih
  | short hd _ ih => exact textBody_escaped (escaped_short hd _) ih
  | code hn hplane _ ih => exact textBody_escaped (escaped_code hn hplane _) ih
  | codes hn hn' hlead htrail _ ih =>
      exact textBody_escaped (escaped_codes hn hn' hlead htrail _) ih

/-- **A text is read as what it spells.** -/
theorem text_of_spells {s : List Char} (h : Spells cs s) (rest : List Char) :
    text (cs ++ '"' :: rest) = .ok (String.ofList s, rest) := by
  rw [text, textBody_of_spells h rest]
  rfl

end Json

end ByteMachine
