/-
**Values that are read past.**

A value that nobody asks for is skipped by a reader of its own, which keeps nothing of it.  It has
to find the end of every value of the grammar, however deep this is nested: texts with all their
escapes, numbers of any size, and arrays and objects with all that is in them.  It is given fuel for
that, one for each value and one for each list of items or members, and twice as many as there are
characters are always enough.

Main definitions:

* `ByteMachine.Json.Skips` — the fuel is enough for everything that is not too long for it.

Main results:

* `ByteMachine.Json.skipText_of_spells`, `skipNumber_append` — texts and numbers are skipped;
* `ByteMachine.Json.skips` — values, items and members are skipped up to their ends;
* `ByteMachine.Json.skip_append` — **every value of the grammar is read past**.
-/

import ByteMachine.Proofs.Json.Values

set_option relaxedAutoImplicit false
set_option autoImplicit false

namespace ByteMachine

namespace Json

variable {v cs ds rest whole fraction exponent : List Char} {c : Char} {fuel : Nat}

/-! ### Texts -/

theorem skipText_plain (hc : 0x20 ≤ c.toNat) (hquote : c ≠ '"') (hslash : c ≠ '\\')
    (cs : List Char) : skipText (c :: cs) = skipText cs := by
  rw [skipText]
  · exact if_neg (Nat.not_lt.2 hc)
  · exact hquote
  · exact hslash

theorem skipText_escaped {more : List Char} (h : skipEscaped more = .ok cs) :
    skipText ('\\' :: more) = skipText cs := by
  rw [skipText]
  split
  · rename_i e he
    rw [h] at he
    cases he
  · rename_i cs' hcs'
    rw [h] at hcs'
    cases hcs'
    rfl

theorem skipEscaped_short {d : Char} (h : shortEscape? c = some d) (cs : List Char) :
    skipEscaped (c :: cs) = .ok cs := by
  unfold skipEscaped
  split
  · rename_i heq
    cases heq
  · rename_i heq
    cases heq
    cases h
  · rename_i heq
    cases heq
    rw [h]
    rfl

theorem skipEscaped_code {a b c d : Char} {n : Nat} (h : quad [a, b, c, d] = .ok (n, []))
    (cs : List Char) : skipEscaped ('u' :: a :: b :: c :: d :: cs) = .ok cs := by
  rw [skipEscaped, quad_append h]
  rfl

/-- **A text is skipped up to its closing quote.** -/
theorem skipText_of_spells {s : List Char} (h : Spells cs s) (rest : List Char) :
    skipText (cs ++ '"' :: rest) = .ok rest := by
  induction h with
  | nil => rw [List.nil_append, skipText]
  | plain hc hquote hslash _ ih => exact (skipText_plain hc hquote hslash _).trans ih
  | short hd _ ih => exact (skipText_escaped (skipEscaped_short hd _)).trans ih
  | code hn _ _ ih => exact (skipText_escaped (skipEscaped_code hn _)).trans ih
  | codes hn hn' _ _ _ ih =>
      exact (skipText_escaped (skipEscaped_code hn _)).trans
        ((skipText_escaped (skipEscaped_code hn' _)).trans ih)

theorem skipping_skipText {s : List Char} (h : Spells cs s) (rest : List Char) :
    skipping skipText (cs ++ '"' :: rest) = .ok ((), rest) := by
  rw [skipping, skipText_of_spells h]
  rfl

/-! ### Numbers -/

theorem skipDigits_append (h : IsDigits ds) (hrest : ∀ c ∈ rest.head?, isDigit c = false) :
    skipDigits (ds ++ rest) = .ok rest := by
  obtain ⟨d, ds, rfl⟩ := List.exists_cons_of_ne_nil h.ne_nil
  obtain ⟨hd, hds⟩ := List.forall_mem_cons.1 h.all
  have hdrop : rest.dropWhile isDigit = rest := by
    cases rest with
    | nil => rfl
    | cons c rest => rw [List.dropWhile_cons_of_neg (by rw [hrest c rfl]; exact Bool.false_ne_true)]
  rw [List.cons_append, skipDigits, if_pos hd, List.dropWhile_append_of_pos hds, hdrop]

/-- A sign in front of the digits of an exponent makes no difference. -/
theorem skipExponent_append (he : IsExponent exponent) (hrest : Ends rest) :
    skipExponent (exponent ++ rest) = .ok rest := by
  cases he with
  | none =>
      cases rest with
      | nil => rfl
      | cons c rest =>
          have hc := hrest c rfl
          simp only [continuesNumber, Bool.or_eq_false_iff, beq_eq_false_iff_ne] at hc
          exact if_neg (not_or.2 ⟨hc.1.2, hc.2⟩)
  | @some mark sign ds hmark hsign h =>
      obtain ⟨d, ds', rfl⟩ := List.exists_cons_of_ne_nil h.ne_nil
      have hdigit := h.all d List.mem_cons_self
      have hnosign : ¬(d = '+' ∨ d = '-') := by
        rintro (rfl | rfl) <;> cases hdigit
      have hskip := skipDigits_append h hrest.no_digit
      rcases hsign with rfl | rfl | rfl
      · simp only [List.nil_append, List.cons_append, skipExponent, if_pos hmark, if_neg hnosign]
        exact hskip
      · simp only [List.cons_append, skipExponent, if_pos hmark, true_or, if_true]
        exact hskip
      · simp only [List.cons_append, skipExponent, if_pos hmark, or_true, if_true]
        exact hskip

theorem skipFraction_append (hf : IsFraction fraction) (he : IsExponent exponent)
    (hrest : Ends rest) :
    skipFraction (fraction ++ (exponent ++ rest)) = .ok (exponent ++ rest) := by
  cases hf with
  | none =>
      have hpoint := he.no_point hrest
      rw [List.nil_append]
      generalize exponent ++ rest = cs at hpoint ⊢
      unfold skipFraction
      split
      · exact absurd rfl (hpoint '.' rfl)
      · rfl
  | some h => exact skipDigits_append h (he.no_digit hrest)

/-- Skips the digits in front of a point or an exponent. -/
def skipWhole (cs : List Char) : Except Error (List Char) :=
  match cs with
  | '0' :: c :: rest => if isDigit c then .error .malformed else .ok (c :: rest)
  | _ => skipDigits cs

theorem skipNumber_eq (cs : List Char) :
    skipNumber cs = (skipWhole cs).bind fun rest => (skipFraction rest).bind skipExponent := by
  unfold skipNumber
  split
  · rename_i c rest
    rw [skipWhole]
    cases isDigit c <;> rfl
  · rename_i hother
    rw [skipWhole]
    · rfl
    · exact hother

theorem skipWhole_append (h : IsWhole whole) (hrest : ∀ c ∈ rest.head?, isDigit c = false) :
    skipWhole (whole ++ rest) = .ok rest := by
  unfold skipWhole
  split
  · rename_i c rest' heq
    obtain ⟨d, ds, rfl⟩ := List.exists_cons_of_ne_nil h.ne_nil
    obtain ⟨rfl, htail⟩ := List.cons.inj heq
    obtain rfl : ds = [] := List.length_eq_zero_iff.1 (Nat.succ.inj (h.zero rfl))
    obtain rfl : rest = c :: rest' := htail
    rw [hrest c rfl]
    rfl
  · exact skipDigits_append h.toIsDigits hrest

/-- **A number is skipped up to its end.** -/
theorem skipNumber_append (h : IsMagnitude cs) (hrest : Ends rest) :
    skipNumber (cs ++ rest) = .ok rest := by
  cases h with
  | mk hw hf he =>
      rw [List.append_assoc, List.append_assoc, skipNumber_eq,
        skipWhole_append hw (hf.no_digit he hrest)]
      change (skipFraction _).bind skipExponent = _
      rw [skipFraction_append hf he hrest]
      exact skipExponent_append he hrest

/-! ### Values -/

theorem skipsBlanks_skipValue (fuel : Nat) : SkipsBlanks (skipValue fuel) := by
  cases fuel with
  | zero => exact fun _ _ => by simp only [skipValue]; rfl
  | succ fuel =>
      rw [skipValue]
      exact skipsBlanks_look.bind _

theorem skipsBlanks_skipItems (fuel : Nat) : SkipsBlanks (skipItems fuel) := by
  cases fuel with
  | zero => exact fun _ _ => by simp only [skipItems]; rfl
  | succ fuel =>
      rw [skipItems]
      exact (skipsBlanks_skipValue fuel).bind _

theorem skipsBlanks_skipMembers (fuel : Nat) : SkipsBlanks (skipMembers fuel) := by
  cases fuel with
  | zero => exact fun _ _ => by simp only [skipMembers]; rfl
  | succ fuel =>
      rw [skipMembers]
      exact (skipsBlanks_symbol '"').bind _

theorem AreItems.exists_first (h : AreItems cs) :
    ∃ (b : Blanks) (c : Char) (more : List Char), cs = b.val ++ c :: more ∧ isSpace c = false ∧
      c ≠ ']' := by
  cases h with
  | last b b' h =>
      obtain ⟨c, cs, rfl, hspace, hc⟩ := h.exists_cons_ne_bracket
      exact ⟨b, c, _, rfl, hspace, hc⟩
  | more b b' h hs =>
      obtain ⟨c, cs, rfl, hspace, hc⟩ := h.exists_cons_ne_bracket
      exact ⟨b, c, _, rfl, hspace, hc⟩

/-- **With this fuel everything is skipped** that is not too long for it. -/
structure Skips (fuel : Nat) : Prop where
  value {v : List Char} (h : IsValue v) (hlen : 2 * v.length ≤ fuel) :
    Reads (skipValue fuel) v (.ok ())
  items {cs : List Char} (h : AreItems cs) (hlen : 2 * cs.length < fuel) (rest : List Char) :
    skipItems fuel (cs ++ ']' :: rest) = .ok ((), rest)
  members {cs : List Char} (h : AreMembers cs) (hlen : 2 * cs.length < fuel) (rest : List Char) :
    skipMembers fuel (cs ++ '}' :: rest) = .ok ((), rest)

/-- What is read behind the opening bracket or brace. -/
def skipInside (close : Char) (inside : Reader Unit) : Reader Unit := do
  if (← look) = close then advance else inside

theorem skipInside_close {close : Char} (hclose : isSpace close = false) (inside : Reader Unit)
    (b : Blanks) (rest : List Char) :
    skipInside close inside (b.val ++ close :: rest) = .ok ((), rest) := by
  rw [skipInside, bind_of_ok (look_blanks b hclose rest), if_pos rfl]
  rfl

theorem skipInside_of_ne {close : Char} (hspace : isSpace c = false) (hc : c ≠ close)
    {inside : Reader Unit} (hinside : SkipsBlanks inside) (b : Blanks) (rest : List Char) :
    skipInside close inside (b.val ++ c :: rest) = inside (b.val ++ c :: rest) := by
  rw [skipInside, bind_of_ok (look_blanks b hspace rest), if_neg hc, hinside]

theorem reads_skipValue_number (h : IsNumber v) : Reads (skipValue (fuel + 1)) v (.ok ()) := by
  rw [skipValue]
  cases h with
  | plus h =>
      obtain ⟨d, ds, rfl, hd⟩ := h.exists_digit
      have hstarts : startsNumber d = true := by rw [startsNumber, hd, Bool.or_true]
      refine .bind_look (not_isSpace_of_startsNumber hstarts) fun rest hrest => ?_
      have hskip := skipNumber_append h hrest
      split
      all_goals first
        | cases hd
        | rw [if_pos hd]
          change (skipNumber (d :: ds ++ rest)).map _ = _
          rw [hskip]
          rfl
  | @minus cs h =>
      refine .bind_look rfl fun rest hrest => ?_
      change (skipNumber (cs ++ rest)).map _ = _
      rw [skipNumber_append h hrest]
      rfl

theorem reads_skipValue_text {s : List Char} (h : Spells cs s) :
    Reads (skipValue (fuel + 1)) ('"' :: (cs ++ ['"'])) (.ok ()) := by
  rw [skipValue]
  refine .bind_look rfl fun rest _ => ?_
  change skipping skipText (cs ++ ['"'] ++ rest) = _
  rw [List.append_assoc]
  exact skipping_skipText h rest

theorem reads_skipValue_array
    (h : ∀ rest, skipInside ']' (skipItems fuel) (cs ++ ']' :: rest) = .ok ((), rest)) :
    Reads (skipValue (fuel + 1)) ('[' :: (cs ++ [']'])) (.ok ()) := by
  rw [skipValue]
  refine .bind_look rfl fun rest _ => ?_
  change skipInside ']' (skipItems fuel) (cs ++ [']'] ++ rest) = _
  rw [List.append_assoc]
  exact h rest

theorem reads_skipValue_object
    (h : ∀ rest, skipInside '}' (skipMembers fuel) (cs ++ '}' :: rest) = .ok ((), rest)) :
    Reads (skipValue (fuel + 1)) ('{' :: (cs ++ ['}'])) (.ok ()) := by
  rw [skipValue]
  refine .bind_look rfl fun rest _ => ?_
  change skipInside '}' (skipMembers fuel) (cs ++ ['}'] ++ rest) = _
  rw [List.append_assoc]
  exact h rest

namespace Skips

/-- One more of fuel is enough for a value. -/
theorem value_succ (hskips : Skips fuel) (h : IsValue v) (hlen : 2 * v.length ≤ fuel + 1) :
    Reads (skipValue (fuel + 1)) v (.ok ()) := by
  cases h with
  | null =>
      rw [skipValue]
      exact .bind_look rfl fun rest _ => word_append ['n', 'u', 'l', 'l'] rest
  | yes =>
      rw [skipValue]
      exact .bind_look rfl fun rest _ => word_append ['t', 'r', 'u', 'e'] rest
  | no =>
      rw [skipValue]
      exact .bind_look rfl fun rest _ => word_append ['f', 'a', 'l', 's', 'e'] rest
  | number h => exact reads_skipValue_number h
  | text h => exact reads_skipValue_text h
  | emptyArray b => exact reads_skipValue_array (skipInside_close rfl _ b)
  | emptyObject b => exact reads_skipValue_object (skipInside_close rfl _ b)
  | @array cs h =>
      refine reads_skipValue_array fun rest => ?_
      have hshort : 2 * cs.length < fuel := by
        rw [List.length_cons, List.length_append] at hlen
        omega
      have hitems := hskips.items h hshort rest
      obtain ⟨b, c, more, rfl, hspace, hc⟩ := h.exists_first
      rw [List.append_assoc, List.cons_append] at hitems ⊢
      exact (skipInside_of_ne hspace hc (skipsBlanks_skipItems fuel) b _).trans hitems
  | @object cs h =>
      refine reads_skipValue_object fun rest => ?_
      have hshort : 2 * cs.length < fuel := by
        rw [List.length_cons, List.length_append] at hlen
        omega
      have hmembers := hskips.members h hshort rest
      obtain ⟨b, _, _, _, _, _, _, _, -, -, rfl, -⟩ := h.exists_first
      rw [List.append_assoc, List.cons_append] at hmembers ⊢
      exact (skipInside_of_ne rfl (by decide) (skipsBlanks_skipMembers fuel) b _).trans hmembers

/-- A value with blanks around it, and what does not go on with a number. -/
theorem value_append (hskips : Skips fuel) (h : IsValue v) (hlen : 2 * v.length ≤ fuel)
    (b b' : Blanks) (hrest : Ends rest) :
    skipValue fuel (b.val ++ (v ++ (b'.val ++ rest))) = .ok ((), b'.val ++ rest) :=
  (skipsBlanks_skipValue fuel b _).trans (hskips.value h hlen _ (ends_blanks b' hrest))

/-- One more of fuel is enough for items. -/
theorem items_succ (hskips : Skips fuel) (h : AreItems cs) (hlen : 2 * cs.length < fuel + 1)
    (rest : List Char) : skipItems (fuel + 1) (cs ++ ']' :: rest) = .ok ((), rest) := by
  rw [skipItems]
  cases h with
  | @last b b' v h =>
      have hshort : 2 * v.length ≤ fuel := by
        simp only [List.length_append] at hlen
        omega
      rw [List.append_assoc, List.append_assoc,
        bind_of_ok (hskips.value_append h hshort b b' (ends_cons rfl rest)),
        bind_of_ok (look_blanks b' rfl rest)]
      rfl
  | @more b b' v cs h hs =>
      simp only [List.length_append, List.length_cons] at hlen
      rw [List.append_assoc, List.append_assoc, List.append_assoc, List.cons_append,
        bind_of_ok (hskips.value_append h (by omega) b b' (ends_cons rfl _)),
        bind_of_ok (look_blanks b' rfl _)]
      obtain ⟨c, vs, rfl, -⟩ := h.exists_cons
      exact hskips.items hs (by rw [List.length_cons] at hlen; omega) rest

/-- One more of fuel is enough for members. -/
theorem members_succ (hskips : Skips fuel) (h : AreMembers cs) (hlen : 2 * cs.length < fuel + 1)
    (rest : List Char) : skipMembers (fuel + 1) (cs ++ '}' :: rest) = .ok ((), rest) := by
  rw [skipMembers]
  cases h with
  | @last b b₁ b₂ b' name s v hname h =>
      simp only [List.length_append, List.length_cons] at hlen
      simp only [List.append_assoc, List.cons_append]
      rw [bind_of_ok (symbol_blanks b rfl _),
        bind_of_ok (skipping_skipText hname _),
        bind_of_ok (colon_blanks b₁ _),
        bind_of_ok (hskips.value_append h (by omega) b₂ b' (ends_cons rfl rest)),
        bind_of_ok (look_blanks b' rfl rest)]
      rfl
  | @more b b₁ b₂ b' name s v cs hname h hs =>
      simp only [List.length_append, List.length_cons] at hlen
      simp only [List.append_assoc, List.cons_append]
      rw [bind_of_ok (symbol_blanks b rfl _),
        bind_of_ok (skipping_skipText hname _),
        bind_of_ok (colon_blanks b₁ _),
        bind_of_ok (hskips.value_append h (by omega) b₂ b' (ends_cons rfl _)),
        bind_of_ok (look_blanks b' rfl _)]
      exact hskips.members hs (by omega) rest

end Skips

/-- **Every value is skipped,** if there is fuel enough for its length. -/
theorem skips (fuel : Nat) : Skips fuel := by
  -- induction on the fuel, of which every value and every list of items takes one
  induction fuel with
  | zero =>
      refine ⟨fun h hlen => ?_, fun h hlen => absurd hlen (Nat.not_lt_zero _),
        fun h hlen => absurd hlen (Nat.not_lt_zero _)⟩
      obtain ⟨c, cs, rfl, -⟩ := h.exists_cons
      rw [List.length_cons] at hlen
      omega
  | succ fuel ih => exact ⟨ih.value_succ, ih.items_succ, ih.members_succ⟩

/-- **Every value of the grammar is read past.** -/
theorem skip_append (h : IsValue v) (b : Blanks) (hrest : Ends rest) :
    skip (b.val ++ (v ++ rest)) = .ok ((), rest) := by
  have hlen : 2 * v.length ≤ 2 * (b.val ++ (v ++ rest)).length + 2 := by
    simp only [List.length_append]
    omega
  exact (skipsBlanks_skipValue _ b _).trans ((skips _).value h hlen rest hrest)

end Json

end ByteMachine
