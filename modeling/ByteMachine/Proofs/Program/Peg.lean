/-
**Parsing expressions.**

A parsing expression says how a text is read: choices are ordered, repetition takes as much as it
can, and what has been read is not given back to try something else.  What an expression does at a
place of a text is stated by rules, one or two for each kind of expression; they leave no choice.
What stands in front of that place is kept, so that a token knows where it was found.

Main definitions:

* `ByteMachine.Peg`, `ByteMachine.Peg.Parses` — parsing expressions and what they do;
* `ByteMachine.Peg.ReadsOne` — the expressions that read one character of a class.

Main results:

* `ByteMachine.Peg.Parses.unique` — **an expression does one thing at a place of a text**;
* `ByteMachine.Peg.ReadsOne.star`, `Peg.ReadsOne.times` — repetition over a class of characters.
-/

import ByteMachine.Proofs.Program.Format

set_option relaxedAutoImplicit false
set_option autoImplicit false

namespace ByteMachine

/-- **Parsing expressions.** -/
inductive Peg where
  | nothing
  /-- The beginning of the text. -/
  | start
  /-- The end of the text. -/
  | finish
  /-- One character of a class. -/
  | char (p : Char → Bool)
  | seq (a b : Peg)
  /-- The first one, or else the second one. -/
  | alt (a b : Peg)
  | star (a : Peg)
  /-- Reads nothing, where the expression cannot be read. -/
  | not (a : Peg)
  /-- The expression, what it reads being kept as a token. -/
  | token (a : Peg)

namespace Peg

/-- What has been read of a text, what is left, and the tokens found. -/
structure Match where
  read : List Char
  behind : List Char
  tokens : List Token

/-- **What an expression does at a place of a text:** between `before` and the rest of the text it
reads something, or it fails. -/
inductive Parses : Peg → List Char → List Char → Option Match → Prop
  | nothing (before cs : List Char) : Parses nothing before cs (some ⟨[], cs, []⟩)
  | start (cs : List Char) : Parses start [] cs (some ⟨[], cs, []⟩)
  | start_fails (c : Char) (before cs : List Char) : Parses start (c :: before) cs none
  | finish (before : List Char) : Parses finish before [] (some ⟨[], [], []⟩)
  | finish_fails (before : List Char) (c : Char) (cs : List Char) :
      Parses finish before (c :: cs) none
  | char {p : Char → Bool} (before : List Char) {c : Char} (cs : List Char) (h : p c) :
      Parses (char p) before (c :: cs) (some ⟨[c], cs, []⟩)
  | char_fails {p : Char → Bool} (before : List Char) {cs : List Char}
      (h : ∀ c ∈ cs.head?, ¬p c) : Parses (char p) before cs none
  | seq {a b : Peg} {before cs cs' x y z : List Char} {ts us : List Token}
      (ha : Parses a before cs (some ⟨x, y, ts⟩))
      (hb : Parses b (before ++ x) y (some ⟨z, cs', us⟩)) :
      Parses (seq a b) before cs (some ⟨x ++ z, cs', ts ++ us⟩)
  | seq_fails_left {a b : Peg} {before cs : List Char} (ha : Parses a before cs none) :
      Parses (seq a b) before cs none
  | seq_fails_right {a b : Peg} {before cs x y : List Char} {ts : List Token}
      (ha : Parses a before cs (some ⟨x, y, ts⟩)) (hb : Parses b (before ++ x) y none) :
      Parses (seq a b) before cs none
  | alt_left {a b : Peg} {before cs : List Char} {m : Match}
      (ha : Parses a before cs (some m)) : Parses (alt a b) before cs (some m)
  | alt_right {a b : Peg} {before cs : List Char} {r : Option Match}
      (ha : Parses a before cs none) (hb : Parses b before cs r) : Parses (alt a b) before cs r
  | star_stops {a : Peg} {before cs : List Char} (ha : Parses a before cs none) :
      Parses (star a) before cs (some ⟨[], cs, []⟩)
  | star {a : Peg} {before cs cs' x y z : List Char} {ts us : List Token}
      (ha : Parses a before cs (some ⟨x, y, ts⟩))
      (hmore : Parses (star a) (before ++ x) y (some ⟨z, cs', us⟩)) :
      Parses (star a) before cs (some ⟨x ++ z, cs', ts ++ us⟩)
  | not {a : Peg} {before cs : List Char} (ha : Parses a before cs none) :
      Parses (not a) before cs (some ⟨[], cs, []⟩)
  | not_fails {a : Peg} {before cs : List Char} {m : Match} (ha : Parses a before cs (some m)) :
      Parses (not a) before cs none
  | token {a : Peg} {before cs x y : List Char} {ts : List Token}
      (ha : Parses a before cs (some ⟨x, y, ts⟩)) :
      Parses (token a) before cs (some ⟨x, y, [⟨before, x⟩]⟩)
  | token_fails {a : Peg} {before cs : List Char} (ha : Parses a before cs none) :
      Parses (token a) before cs none

variable {a b e : Peg} {before cs behind x y : List Char} {r r' : Option Match} {p : Char → Prop}

/-- **An expression does one thing at a place of a text.** -/
theorem Parses.unique (h : e.Parses before cs r) (h' : e.Parses before cs r') : r = r' := by
  -- induction on the first derivation; the second one ends with the same rule
  induction h generalizing r' with
  | nothing => cases h'; rfl
  | start => cases h'; rfl
  | start_fails => cases h'; rfl
  | finish => cases h'; rfl
  | finish_fails => cases h'; rfl
  | char _ _ hc =>
      cases h' with
      | char => rfl
      | char_fails _ hno => exact absurd hc (hno _ rfl)
  | char_fails _ hno =>
      cases h' with
      | char _ _ hc => exact absurd hc (hno _ rfl)
      | char_fails => rfl
  | seq _ _ iha ihb =>
      cases h' with
      | seq ha hb =>
          obtain ⟨⟩ := iha ha
          obtain ⟨⟩ := ihb hb
          rfl
      | seq_fails_left ha => cases iha ha
      | seq_fails_right ha hb =>
          obtain ⟨⟩ := iha ha
          cases ihb hb
  | seq_fails_left _ iha =>
      cases h' with
      | seq ha => cases iha ha
      | seq_fails_left => rfl
      | seq_fails_right => rfl
  | seq_fails_right _ _ iha ihb =>
      cases h' with
      | seq ha hb =>
          obtain ⟨⟩ := iha ha
          cases ihb hb
      | seq_fails_left => rfl
      | seq_fails_right => rfl
  | alt_left _ iha =>
      cases h' with
      | alt_left ha => exact iha ha
      | alt_right ha => cases iha ha
  | alt_right _ _ iha ihb =>
      cases h' with
      | alt_left ha => cases iha ha
      | alt_right _ hb => exact ihb hb
  | star_stops _ iha =>
      cases h' with
      | star_stops => rfl
      | star ha => cases iha ha
  | star _ _ iha ihmore =>
      cases h' with
      | star_stops ha => cases iha ha
      | star ha hmore =>
          obtain ⟨⟩ := iha ha
          obtain ⟨⟩ := ihmore hmore
          rfl
  | not _ iha =>
      cases h' with
      | not => rfl
      | not_fails ha => cases iha ha
  | not_fails _ iha =>
      cases h' with
      | not ha => cases iha ha
      | not_fails => rfl
  | token _ iha =>
      cases h' with
      | token ha =>
          obtain ⟨⟩ := iha ha
          rfl
      | token_fails ha => cases iha ha
  | token_fails _ iha =>
      cases h' with
      | token ha => cases iha ha
      | token_fails => rfl

/-! ### Expressions made of others -/

/-- The expression, or nothing. -/
def opt (a : Peg) : Peg := alt a nothing

/-- The expression a number of times. -/
def times : Nat → Peg → Peg
  | 0, _ => nothing
  | n + 1, a => seq a (times n a)

def lit (c : Char) : Peg := char (· == c)

/-- The expression reads one character of a class. -/
structure ReadsOne (e : Peg) (p : Char → Prop) : Prop where
  reads (before : List Char) {c : Char} (cs : List Char) (h : p c) :
    e.Parses before (c :: cs) (some ⟨[c], cs, []⟩)
  fails (before : List Char) {cs : List Char} (h : ∀ c ∈ cs.head?, ¬p c) : e.Parses before cs none

theorem readsOne_char (p : Char → Bool) : (char p).ReadsOne (p ·) where
  reads before _ cs h := .char before cs h
  fails before _ h := .char_fails before h

theorem readsOne_lit (c : Char) : (lit c).ReadsOne (· = c) where
  reads before _ cs h := .char before cs (beq_iff_eq.2 h)
  fails before _ h := .char_fails before fun c hc => mt beq_iff_eq.1 (h c hc)

/-- Repetition takes all characters of the class. -/
theorem ReadsOne.star (h : e.ReadsOne p) (hx : ∀ c ∈ x, p c) (hbehind : ∀ c ∈ behind.head?, ¬p c) :
    e.star.Parses before (x ++ behind) (some ⟨x, behind, []⟩) := by
  induction x generalizing before with
  | nil => exact .star_stops (h.fails before hbehind)
  | cons c x ih =>
      obtain ⟨hc, hx⟩ := List.forall_mem_cons.1 hx
      exact .star (h.reads before _ hc) (ih hx)

theorem ReadsOne.times (h : e.ReadsOne p) (hx : ∀ c ∈ x, p c) :
    (times x.length e).Parses before (x ++ behind) (some ⟨x, behind, []⟩) := by
  induction x generalizing before with
  | nil => exact .nothing before behind
  | cons c x ih =>
      obtain ⟨hc, hx⟩ := List.forall_mem_cons.1 hx
      exact .seq (h.reads before _ hc) (ih hx)

/-- A number of characters is not read where there are fewer of the class. -/
theorem ReadsOne.times_fails (h : e.ReadsOne p) {n : Nat}
    (hno : ¬∃ x y, cs = x ++ y ∧ x.length = n ∧ ∀ c ∈ x, p c) :
    (Peg.times n e).Parses before cs none := by
  induction n generalizing before cs with
  | zero => exact absurd ⟨[], cs, rfl, rfl, List.forall_mem_nil _⟩ hno
  | succ n ih =>
      by_cases hhead : ∀ c ∈ cs.head?, ¬p c
      · exact .seq_fails_left (h.fails before hhead)
      · obtain ⟨c, cs, rfl, hc⟩ : ∃ c rest, cs = c :: rest ∧ p c := by
          cases cs with
          | nil => exact absurd nofun hhead
          | cons c cs => exact ⟨c, cs, rfl, by simpa using hhead⟩
        refine .seq_fails_right (h.reads before cs hc) (ih ?_)
        rintro ⟨x, y, rfl, rfl, hx⟩
        exact hno ⟨c :: x, y, rfl, rfl, List.forall_mem_cons.2 ⟨hc, hx⟩⟩

theorem parses_opt_fails (h : e.Parses before cs none) :
    e.opt.Parses before cs (some ⟨[], cs, []⟩) := .alt_right h (.nothing before cs)

end Peg

end ByteMachine
