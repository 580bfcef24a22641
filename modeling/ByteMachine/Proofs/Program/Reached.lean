/-
**How far a line is read.**

A line is read over its leading blanks and, if the eight digits of a byte follow them, over these
and the blanks behind them.  So much of it has the form in any case.  The whole line has it if
nothing is left then, or a comment; or else it cannot be read, and the first character that is left
is the one that does not fit.  Lines are read up to the first one that does not have the form.

Main definitions:

* `ByteMachine.reached` — what a line is read over.

Main results:

* `ByteMachine.exists_of_readLine_eq_error` — **a line that cannot be read**;
* `ByteMachine.SourceLine.not_wellFormed_iff` — these are the lines that do not have the form;
* `ByteMachine.exists_of_readLines_eq_error` — **lines that cannot be read**.
-/

import ByteMachine.Proofs.Program.Format

set_option relaxedAutoImplicit false
set_option autoImplicit false

namespace ByteMachine

/-- The eight binary digits of a byte stand here. -/
def Grammar.ByteHere (cs : List Char) : Prop :=
  ∃ x y, cs = x ++ y ∧ x.length = 8 ∧ ∀ c ∈ x, IsBit c

theorem Grammar.byteHere_iff {cs : List Char} :
    Grammar.ByteHere cs ↔ (cs.take 8).length = 8 ∧ ∀ c ∈ cs.take 8, IsBit c := by
  constructor
  · rintro ⟨x, y, rfl, hlen, hx⟩
    rw [← hlen, List.take_left]
    exact ⟨rfl, hx⟩
  · rintro ⟨hlen, hbits⟩
    exact ⟨cs.take 8, cs.drop 8, (List.take_append_drop 8 cs).symm, hlen, hbits⟩

instance : DecidablePred Grammar.ByteHere := fun cs =>
  letI : Decidable (∀ c ∈ cs.take 8, IsBit c) := List.decidableBAll _ _
  decidable_of_iff _ Grammar.byteHere_iff.symm

/-- **How far a line is read:** over its leading blanks and, if the eight digits of a byte follow
them, over these and the blanks behind them. -/
def reached (content : List Char) : List Char :=
  let rest := content.dropWhile isBlank
  if Grammar.ByteHere rest then
    content.takeWhile isBlank ++ (rest.take 8 ++ (rest.drop 8).takeWhile isBlank)
  else content.takeWhile isBlank

variable {before content cs rest : List Char} {lines : List SourceLine} {l : SourceLine}

/-! ### One line -/

theorem not_isBlank_dropWhile (cs : List Char) :
    ∀ c ∈ (cs.dropWhile isBlank).head?, ¬isBlank c := by
  intro c hc
  have hhead := List.head?_dropWhile_not isBlank cs
  rw [Option.mem_def.1 hc] at hhead
  exact Bool.not_eq_true _ ▸ hhead

/-- What a line is read over has the form, without a comment, and what is left decides whether the
line can be read. -/
theorem exists_parts_reached (content : List Char) :
    ∃ (q : LineParts) (byte : Option UInt8) (rest : List Char),
      q.text = reached content ∧ q.comment = [] ∧ content = reached content ++ rest ∧
      readLine content = lineEnd byte rest ∧ (∀ c ∈ rest.head?, ¬isBlank c) ∧
      (q.digits = [] → ¬Grammar.ByteHere rest) := by
  have hindent : ∀ c ∈ content.takeWhile isBlank, isBlank c := fun c hc =>
    List.mem_takeWhile_imp hc
  by_cases hbyte : Grammar.ByteHere (content.dropWhile isBlank)
  · obtain ⟨digits, rest, hrest, hlen, hbits⟩ := id hbyte
    have hreached : reached content =
        content.takeWhile isBlank ++ (digits ++ rest.takeWhile isBlank) := by
      rw [reached, if_pos hbyte, hrest, ← hlen, List.take_left, List.drop_left]
    have hread : readBits digits.length 0 (digits ++ rest) = _ := readBits_append hbits 0
    refine ⟨⟨content.takeWhile isBlank, digits, rest.takeWhile isBlank, [], hindent,
      .inr ⟨hlen, hbits⟩, fun c hc => List.mem_takeWhile_imp hc, .inl rfl⟩,
      some (UInt8.ofNat (bitsValue digits)), rest.dropWhile isBlank, ?_, rfl, ?_, ?_,
      not_isBlank_dropWhile rest, ?_⟩
    · rw [hreached, LineParts.text, List.append_nil]
    · rw [hreached, List.append_assoc, List.append_assoc, List.takeWhile_append_dropWhile, ← hrest,
        List.takeWhile_append_dropWhile]
    · rw [hlen, Nat.zero_mul, Nat.zero_add] at hread
      rw [readLine, hrest, hread]
    · exact fun hnone => absurd hnone (List.ne_nil_of_length_eq_add_one hlen)
  · have hreached : reached content = content.takeWhile isBlank := if_neg hbyte
    have hread : readBits 8 0 (content.dropWhile isBlank) = none := by
      rw [Option.eq_none_iff_forall_not_mem]
      rintro ⟨v, rest⟩ hsome
      obtain ⟨digits, hdigits, hlen, hbits⟩ := exists_of_readBits hsome
      exact hbyte ⟨digits, rest, hdigits, hlen, hbits⟩
    refine ⟨⟨content.takeWhile isBlank, [], [], [], hindent, .inl rfl, List.forall_mem_nil _,
      .inl rfl⟩, none, content.dropWhile isBlank, ?_, rfl, ?_, ?_,
      not_isBlank_dropWhile content, fun _ => hbyte⟩
    · rw [hreached, LineParts.text, List.append_nil, List.append_nil, List.append_nil]
    · rw [hreached, List.takeWhile_append_dropWhile]
    · rw [readLine, hread]

/-- A line can end neither at a blank nor at any other character but the sign of a comment. -/
theorem exists_of_lineEnd_eq_error {byte : Option UInt8} {left : List Char}
    (h : lineEnd byte rest = .error left) :
    left = rest ∧ ∃ c tail, rest = c :: tail ∧ c ≠ '#' := by
  unfold lineEnd at h
  split at h
  · cases h
  · rename_i c tail
    split at h
    · cases h
    · rename_i hc
      exact ⟨(Except.error.inj h).symm, c, tail, rfl, hc⟩

/-- **A line that cannot be read** is read up to a character that is neither a blank nor the sign of
a comment; and not over eight digits only where there are none. -/
theorem exists_of_readLine_eq_error (h : readLine content = .error rest) :
    ∃ (q : LineParts) (c : Char) (tail : List Char), rest = c :: tail ∧
      content = reached content ++ c :: tail ∧ ¬isBlank c ∧ c ≠ '#' ∧
      q.text = reached content ∧ q.comment = [] ∧
      (q.digits = [] → ¬Grammar.ByteHere (c :: tail)) := by
  obtain ⟨q, byte, left, htext, hcomment, hcontent, hend, hblank, hbyte⟩ :=
    exists_parts_reached content
  obtain ⟨rfl, c, tail, rfl, hhash⟩ := exists_of_lineEnd_eq_error (hend.symm.trans h)
  exact ⟨q, c, tail, rfl, hcontent, hblank c rfl, hhash, htext, hcomment, hbyte⟩

/-- A line that does not have the form cannot be read. -/
theorem SourceLine.not_wellFormed_iff :
    ¬l.WellFormed ↔ ∃ rest, readLine l.content = .error rest := by
  constructor
  · intro hbad
    cases hline : readLine l.content with
    | ok byte => exact absurd (exists_of_readLine hline) hbad
    | error rest => exact ⟨rest, rfl⟩
  · rintro ⟨rest, hline⟩ ⟨q, htext⟩
    rw [← htext, q.readLine_text] at hline
    cases hline

/-! ### Lines -/

/-- **Reading lines stops at the first one that does not have the form,** where this is read to. -/
theorem exists_of_readLines_eq_error {p : Position}
    (h : readLines (Position.start.after before) lines = .error p) :
    ∃ good l more, lines = good ++ l :: more ∧ (∀ g ∈ good, g.WellFormed) ∧ ¬l.WellFormed ∧
      p = Position.start.after (before ++ (good.flatMap SourceLine.text ++ reached l.content)) := by
  induction lines generalizing before with
  | nil => cases h
  | cons l lines ih =>
      rw [readLines] at h
      split at h
      · rename_i rest hline
        obtain ⟨q, c, tail, rfl, hcontent, -⟩ := exists_of_readLine_eq_error hline
        have htake :
            l.content.take (l.content.length - (c :: tail).length) = reached l.content := by
          conv_lhs => rw [hcontent]
          rw [List.length_append, Nat.add_sub_cancel, List.take_left]
        obtain rfl := Except.error.inj h
        exact ⟨[], l, lines, rfl, List.forall_mem_nil _,
          SourceLine.not_wellFormed_iff.2 ⟨_, hline⟩, by rw [htake, Position.after_append]; rfl⟩
      · rename_i byte hline
        rw [← Position.after_append] at h
        split at h
        · rename_i hmore
          obtain rfl := Except.error.inj h
          obtain ⟨good, bad, more, rfl, hgood, hbad, rfl⟩ := ih hmore
          refine ⟨l :: good, bad, more, rfl,
            List.forall_mem_cons.2 ⟨exists_of_readLine hline, hgood⟩, hbad, ?_⟩
          rw [List.flatMap_cons, List.append_assoc, List.append_assoc]
        · cases h

/-- Of lines that do not all have the form there is a first one. -/
theorem exists_first_not_wellFormed (h : ¬∀ l ∈ lines, l.WellFormed) :
    ∃ good l more, lines = good ++ l :: more ∧ (∀ g ∈ good, g.WellFormed) ∧ ¬l.WellFormed := by
  cases hread : readLines (Position.start.after []) lines with
  | ok literals =>
      obtain ⟨ts, hts, -⟩ := readLines_eq_ok_iff.1 hread
      exact absurd (exists_written_iff.1 ⟨ts, hts⟩) h
  | error p =>
      obtain ⟨good, l, more, hlines, hgood, hbad, -⟩ := exists_of_readLines_eq_error hread
      exact ⟨good, l, more, hlines, hgood, hbad⟩

end ByteMachine
