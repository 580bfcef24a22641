/-
**The lines of the bytes.**

Every byte of a program is written on a line of its own: between two of them, one behind the other
in the text, a line ends.  The numbers that the program keeps for its bytes count the `\n` alone,
though.  They never decrease, and two of them are equal where all line ends in between are lone
`\r`; in a text without such line ends they increase from byte to byte.

Main definitions:

* `ByteMachine.Token.Parted` — between two bytes stands a character of some kind.

Main results:

* `ByteMachine.Written.pairwise_parted` — **a line ends between any two bytes**;
* `ByteMachine.Program.lines_increase_at_newlines` — how the line numbers go on from byte to byte;
* `ByteMachine.Program.same_line_across_carriage_return` — they need not increase.
-/

import ByteMachine.Proofs.Program.Format

set_option relaxedAutoImplicit false
set_option autoImplicit false

namespace ByteMachine

/-- **The second byte is written behind the first one,** and a character of some kind stands in
between. -/
def Token.Parted (stops : Char → Prop) (t u : Token) : Prop :=
  ∃ between, u.before = t.before ++ (t.digits ++ between) ∧ ∃ c ∈ between, stops c

variable {before cs : List Char} {lines : List SourceLine} {ts : List Token} {t u : Token}
  {stops : Char → Prop}

namespace SourceLine

theorem Ends.ne_nil {ending rest : List Char} (h : Ends ending rest) : ending ≠ [] := by
  cases h with
  | _ => exact List.cons_ne_nil _ _

/-- A line end is a lone `\r`, or holds a `\n`. -/
theorem Ends.eq_or_mem {ending rest : List Char} (h : Ends ending rest) :
    ending = ['\r'] ∨ '\n' ∈ ending := by
  cases h with
  | cr => exact .inl rfl
  | crlf | lf => exact .inr (by decide)

theorem CutsInto.eq_or_mem_ending (h : CutsInto cs lines) :
    ∀ l ∈ lines, l.ending ≠ [] → l.ending = ['\r'] ∨ '\n' ∈ l.ending := by
  induction h with
  | last content _ => exact List.forall_mem_singleton.2 fun hne => absurd rfl hne
  | line content ending rest lines _ hend _ ih =>
      exact List.forall_mem_cons.2 ⟨fun _ => hend.eq_or_mem, ih⟩

end SourceLine

/-- In front of a byte that is written on lines stands all that stands in front of these. -/
theorem Written.exists_before_eq (h : Written before lines ts) (ht : t ∈ ts) :
    ∃ x, t.before = before ++ x := by
  induction h with
  | nil => cases ht
  | cons q _ _ ih =>
      rcases List.mem_append.1 ht with ht | ht
      · obtain ⟨-, rfl⟩ := LineParts.eq_of_mem_tokens ht
        exact ⟨q.indent, rfl⟩
      · obtain ⟨x, hx⟩ := ih ht
        exact ⟨_, hx.trans (List.append_assoc _ _ _)⟩

/-- A line holds one byte at most. -/
theorem LineParts.pairwise_tokens (q : LineParts) (before : List Char) :
    (q.tokens before).Pairwise (Token.Parted stops) := by
  rw [tokens]
  split
  · exact .nil
  · exact List.pairwise_singleton _ _

/-- **A line ends between any two bytes:** if all the line ends of a text hold a character of some
kind, then such a character stands between any two bytes. -/
theorem Written.pairwise_parted (hcut : SourceLine.CutsInto cs lines) (h : Written before lines ts)
    (hstops : ∀ l ∈ lines, l.ending ≠ [] → ∃ c ∈ l.ending, stops c) :
    ts.Pairwise (Token.Parted stops) := by
  -- a byte of the first line is parted by the end of that line from all others
  induction hcut generalizing before ts with
  | last content hplain =>
      obtain ⟨⟩ | ⟨q, -, ⟨⟩⟩ := h
      rw [List.append_nil]
      exact q.pairwise_tokens before
  | line content ending rest lines hplain hend _ ih =>
      obtain ⟨⟩ | ⟨q, htext, hmore⟩ := h
      obtain rfl : q.text = content := htext
      obtain ⟨hfirst, hothers⟩ := List.forall_mem_cons.1 hstops
      obtain ⟨c, hc, hstop⟩ := hfirst hend.ne_nil
      refine List.pairwise_append.2
        ⟨q.pairwise_tokens before, ih hmore hothers, fun t ht u hu => ?_⟩
      obtain ⟨x, hx⟩ := hmore.exists_before_eq hu
      obtain ⟨-, rfl⟩ := LineParts.eq_of_mem_tokens ht
      refine ⟨q.gap ++ (q.comment ++ (ending ++ x)), ?_, c, by simp [hc], hstop⟩
      rw [hx]
      simp only [SourceLine.text, LineParts.text, List.append_assoc]

/-- Digits are on one line. -/
theorem count_newline_of_isBit {digits : List Char} (h : ∀ c ∈ digits, IsBit c) :
    digits.count '\n' = 0 :=
  List.count_eq_zero.2 fun hn => absurd (h _ hn) (by decide)

/-- The line of a byte is counted on from the one of a byte in front of it. -/
theorem Token.line_eq_of_before_eq {between : List Char}
    (hbits : ∀ c ∈ t.digits, IsBit c) (h : u.before = t.before ++ (t.digits ++ between)) :
    u.line = t.line + between.count '\n' := by
  rw [Token.line, h, List.count_append, List.count_append, count_newline_of_isBit hbits,
    Nat.zero_add, ← Nat.add_assoc, Token.line]

namespace Program

variable {source : String} {p : Program}

/-- **How the line numbers of a program go on from byte to byte.**  The program keeps the line of
each byte that is written in the text.  Between any two of these a line ends, and the number of the
second one is the number of the first one and as many more as there are `\n` in between: it is not
smaller, and it is the same only where all line ends in between are lone `\r`.  If no line of the
text ends with a lone `\r`, the line numbers increase with the address. -/
theorem lines_increase_at_newlines (h : parse source = .ok p) :
    ∃ ts, Written [] (SourceLine.cut source.toList) ts ∧
      (∀ i, p.lineOf? i = ts[i]?.map Token.line) ∧
      (ts.Pairwise fun t u => ∃ between, u.before = t.before ++ (t.digits ++ between) ∧
        (∃ c ∈ between, c = '\n' ∨ c = '\r') ∧ u.line = t.line + between.count '\n') ∧
      ((∀ l ∈ SourceLine.cut source.toList, l.ending ≠ ['\r']) → ∀ i j a b, i < j →
        p.lineOf? i = some a → p.lineOf? j = some b → a < b) := by
  obtain ⟨ts, hts, rfl⟩ := parse_eq_ok_iff.1 h
  have hcut := SourceLine.cutsInto_iff.2 (Eq.refl (SourceLine.cut source.toList))
  have hbits : ∀ t ∈ ts, ∀ c ∈ t.digits, IsBit c := fun t ht => (hts.exists_of_mem ht).1.2
  have hnext : ∀ {t u : Token} {between}, t ∈ ts → u.before = t.before ++ (t.digits ++ between) →
      u.line = t.line + between.count '\n' := fun ht hbefore =>
    Token.line_eq_of_before_eq (hts.exists_of_mem ht).1.2 hbefore
  refine ⟨ts, hts, lineOf?_literals ts, ?_, fun hlone i j a b hij ha hb => ?_⟩
  · have hends : ∀ l ∈ SourceLine.cut source.toList, l.ending ≠ [] →
        ∃ c ∈ l.ending, c = '\n' ∨ c = '\r' := by
      intro l hl hne
      rcases hcut.eq_or_mem_ending l hl hne with hcr | hmem
      · exact ⟨'\r', hcr ▸ List.mem_singleton_self _, .inr rfl⟩
      · exact ⟨'\n', hmem, .inl rfl⟩
    refine (hts.pairwise_parted hcut hends).imp_of_mem fun ht _ htu => ?_
    obtain ⟨between, hbefore, hstop⟩ := htu
    exact ⟨between, hbefore, hstop, hnext ht hbefore⟩
  · have hends : ∀ l ∈ SourceLine.cut source.toList, l.ending ≠ [] → ∃ c ∈ l.ending, c = '\n' :=
      fun l hl hne => ⟨'\n', (hcut.eq_or_mem_ending l hl hne).resolve_left (hlone l hl), rfl⟩
    rw [lineOf?_literals, Option.map_eq_some_iff] at ha hb
    obtain ⟨t, ht, rfl⟩ := ha
    obtain ⟨u, hu, rfl⟩ := hb
    obtain ⟨hi, rfl⟩ := List.getElem?_eq_some_iff.1 ht
    obtain ⟨hj, rfl⟩ := List.getElem?_eq_some_iff.1 hu
    obtain ⟨between, hbefore, c, hmem, rfl⟩ :=
      List.pairwise_iff_getElem.1 (hts.pairwise_parted hcut hends) i j hi hj hij
    rw [hnext (List.getElem_mem hi) hbefore]
    exact Nat.lt_add_of_pos_right (List.count_pos_iff.2 hmem)

/-- Three bytes, the first two of which are parted by a lone `\r`. -/
theorem lines_increase_at_second_newline :
    parse "00000001\r00000010\n00000011" = .ok ⟨[⟨1, 1⟩, ⟨2, 1⟩, ⟨3, 2⟩]⟩ ∧
      ∃ ts, Written [] (SourceLine.cut "00000001\r00000010\n00000011".toList) ts ∧
        ts.map Token.line = [1, 1, 2] := by
  have hp : parse "00000001\r00000010\n00000011" = .ok ⟨[⟨1, 1⟩, ⟨2, 1⟩, ⟨3, 2⟩]⟩ := by cbv
  obtain ⟨ts, hts, hlines, -, -⟩ := lines_increase_at_newlines hp
  refine ⟨hp, ts, hts, List.ext_getElem? fun i => ?_⟩
  rw [List.getElem?_map, ← hlines i, lineOf?, ← List.getElem?_map]
  rfl

/-- **The line numbers of a program need not increase:** two bytes have the same one where only a
lone `\r` ends the line of the first. -/
theorem same_line_across_carriage_return :
    ¬∀ (source : String) (p : Program), parse source = .ok p →
      ∀ i j a b, i < j → p.lineOf? i = some a → p.lineOf? j = some b → a < b := by
  intro hall
  have hp : parse "00000001\r00000010" = .ok ⟨[⟨1, 1⟩, ⟨2, 1⟩]⟩ := by cbv
  exact absurd (hall _ _ hp 0 1 1 1 Nat.zero_lt_one rfl rfl) (Nat.lt_irrefl 1)

end Program

end ByteMachine
