/-
**A grammar of program texts.**

The form of a program text is given here once more, by a grammar of parsing expressions.  The
grammar reads a text as a whole if every line of it has the form, and finds the bytes that are
written on the lines; or else it fails.  So the texts that can be read, and what is read, are those
of the grammar.

Main definitions:

* `ByteMachine.Grammar.program` — the grammar of program texts.

Main results:

* `ByteMachine.Grammar.parses_line` — a line is read as far as it has the form;
* `ByteMachine.Grammar.parses_program_iff` — what the grammar finds in a text;
* `ByteMachine.Program.parse_eq_ok_iff_parses` — reading a text is what the grammar says;
* `ByteMachine.Program.parse_accepts_line_format` — **the texts that can be read, and how**.
-/

import ByteMachine.Proofs.Program.Peg
import ByteMachine.Proofs.Program.Reached

set_option relaxedAutoImplicit false
set_option autoImplicit false

namespace ByteMachine

namespace Grammar

open Peg

def blank : Peg := .alt (.lit ' ') (.lit '\t')

def newline : Peg := .alt (.lit '\n') (.alt (.seq (.lit '\r') (.lit '\n')) (.lit '\r'))

def byte : Peg := .token (.times 8 (.char fun c => c = '0' || c = '1'))

def comment : Peg := .seq (.lit '#') (.star (.seq (.not newline) (.char fun _ => true)))

def line : Peg := .seq (.star blank) (.seq byte.opt (.seq (.star blank) comment.opt))

def lines : Peg := .seq line (.star (.seq newline line))

/-- **The grammar of program texts.** -/
def program : Peg := .seq .start (.seq lines .finish)

variable {before cs behind content ending rest tail : List Char}
  {ls good more : List SourceLine} {l : SourceLine} {q : LineParts}

/-- Behind a line there is nothing, or a line end. -/
def EndsHere (cs : List Char) : Prop := ∀ c ∈ cs.head?, c = '\n' ∨ c = '\r'

theorem readsOne_bit : (char fun c => c = '0' || c = '1').ReadsOne IsBit where
  reads before c cs h := (readsOne_char _).reads before cs (by simpa [IsBit] using h)
  fails before cs h := (readsOne_char _).fails before (by simpa [IsBit] using h)

theorem readsOne_blank : blank.ReadsOne (isBlank ·) where
  reads before c cs h := by
    by_cases hspace : c = ' '
    · exact .alt_left ((readsOne_lit ' ').reads before cs hspace)
    · have htab : c = '\t' := by simpa [isBlank, hspace] using h
      exact .alt_right ((readsOne_lit ' ').fails before (by simpa using hspace))
        ((readsOne_lit '\t').reads before cs htab)
  fails before cs h := by
    refine .alt_right ((readsOne_lit ' ').fails before ?_) ((readsOne_lit '\t').fails before ?_)
    · rintro c hc rfl
      exact h _ hc rfl
    · rintro c hc rfl
      exact h _ hc rfl

/-! ### Line ends -/

/-- The longest line end is read. -/
theorem parses_newline (h : SourceLine.Ends ending rest) :
    newline.Parses before (ending ++ rest) (some ⟨ending, rest, []⟩) := by
  have hno : (lit '\n').Parses before ('\r' :: rest) none :=
    (readsOne_lit '\n').fails before (by simp)
  cases h with
  | crlf =>
      exact .alt_right ((readsOne_lit '\n').fails before (by simp)) (.alt_left
        (.seq ((readsOne_lit '\r').reads before _ rfl) ((readsOne_lit '\n').reads _ rest rfl)))
  | lf => exact .alt_left ((readsOne_lit '\n').reads before rest rfl)
  | cr _ hhead =>
      have hlone : (lit '\n').Parses (before ++ ['\r']) rest none := by
        refine (readsOne_lit '\n').fails _ ?_
        rintro c hc rfl
        exact hhead hc
      exact .alt_right hno (.alt_right
        (.seq_fails_right ((readsOne_lit '\r').reads before rest rfl) hlone)
        ((readsOne_lit '\r').reads before rest rfl))

theorem newline_fails (h : ∀ c ∈ cs.head?, c ≠ '\n' ∧ c ≠ '\r') :
    newline.Parses before cs none := by
  have hr : (lit '\r').Parses before cs none :=
    (readsOne_lit '\r').fails before fun c hc => (h c hc).2
  exact .alt_right ((readsOne_lit '\n').fails before fun c hc => (h c hc).1)
    (.alt_right (.seq_fails_left hr) hr)

theorem exists_parses_newline {c : Char} (h : c = '\n' ∨ c = '\r') :
    ∃ m, newline.Parses before (c :: cs) (some m) := by
  rcases h with rfl | rfl
  · exact ⟨_, parses_newline (.lf cs)⟩
  · by_cases hhead : cs.head? = some '\n'
    · obtain ⟨rest, rfl⟩ := List.head?_eq_some_iff.1 hhead
      exact ⟨_, parses_newline (.crlf rest)⟩
    · exact ⟨_, parses_newline (.cr cs hhead)⟩

/-- What a comment consists of. -/
theorem readsOne_plain :
    (Peg.seq (.not newline) (.char fun _ => true)).ReadsOne fun c => c ≠ '\n' ∧ c ≠ '\r' where
  reads before c cs h := .seq (.not (newline_fails (by simpa using h)))
    ((readsOne_char _).reads _ cs rfl)
  fails before cs h := by
    cases cs with
    | nil =>
        exact .seq_fails_right (.not (newline_fails nofun)) ((readsOne_char _).fails _ nofun)
    | cons c cs =>
        have hc : c = '\n' ∨ c = '\r' := by
          by_contra hc
          exact h c rfl (not_or.1 hc)
        obtain ⟨m, hm⟩ := exists_parses_newline hc
        exact .seq_fails_left (.not_fails hm)

/-! ### One line -/

/-- Nothing more of what follows could belong to the line. -/
structure Maximal (q : LineParts) (behind : List Char) : Prop where
  not_comment : q.comment = [] → ∀ c ∈ behind.head?, ¬isBlank c ∧ c ≠ '#'
  not_byte : q.comment = [] → q.digits = [] → ¬ByteHere behind
  ends : q.comment ≠ [] → EndsHere behind

theorem not_byteHere_of_endsHere (h : EndsHere cs) : ¬ByteHere cs := by
  rintro ⟨x, y, rfl, hlen, hx⟩
  obtain ⟨c, x, rfl⟩ := List.exists_cons_of_length_eq_add_one hlen
  have hbit := hx c List.mem_cons_self
  rcases h c rfl with rfl | rfl <;> exact absurd hbit (by decide)

theorem maximal_of_endsHere (q : LineParts) (h : EndsHere behind) : Maximal q behind where
  not_comment _ c hc := by rcases h c hc with rfl | rfl <;> decide
  not_byte _ _ := not_byteHere_of_endsHere h
  ends _ := h

theorem parses_comment (hmax : Maximal q behind) (hplain : SourceLine.Plain q.comment) :
    comment.opt.Parses before (q.comment ++ behind) (some ⟨q.comment, behind, []⟩) := by
  cases hcomment : q.comment with
  | nil =>
      exact parses_opt_fails (.seq_fails_left
        ((readsOne_lit '#').fails before fun c hc => (hmax.not_comment hcomment c hc).2))
  | cons c x =>
      rw [hcomment] at hplain
      refine .alt_left (.seq ((readsOne_lit '#').reads before _ (q.eq_of_comment hcomment))
        (readsOne_plain.star (List.forall_mem_cons.1 hplain).2 fun d hd => ?_))
      have hend := hmax.ends (by rw [hcomment]; exact List.cons_ne_nil c x) d hd
      rintro ⟨hn, hr⟩
      exact hend.elim hn hr

/-- Behind the blanks of a line no blank follows. -/
theorem not_isBlank_behind (hmax : Maximal q behind) :
    ∀ c ∈ (q.comment ++ behind).head?, ¬isBlank c := by
  cases hcomment : q.comment with
  | nil => exact fun c hc => (hmax.not_comment hcomment c hc).1
  | cons d x =>
      have hhead := q.not_isBlank_of_mem_comment
      rwa [hcomment] at hhead

theorem not_byteHere_behind (hmax : Maximal q behind) (hnone : q.digits = []) :
    ¬ByteHere (q.comment ++ behind) := by
  cases hcomment : q.comment with
  | nil => exact hmax.not_byte hcomment hnone
  | cons c x =>
      rintro ⟨y, z, heq, hlen, hy⟩
      obtain ⟨d, y, rfl⟩ := List.exists_cons_of_length_eq_add_one hlen
      obtain ⟨rfl, -⟩ := List.cons.inj heq
      have hbit := hy c List.mem_cons_self
      rw [q.eq_of_comment hcomment] at hbit
      exact absurd hbit (by decide)

/-- **A line is read as far as it has the form.** -/
theorem parses_line (hmax : Maximal q behind) (hplain : SourceLine.Plain q.comment) :
    line.Parses before (q.text ++ behind) (some ⟨q.text, behind, q.tokens before⟩) := by
  rcases q.digits_eq with hnone | ⟨hlen, hbits⟩
  · -- without digits both groups of blanks are read at once
    have hblank : ∀ c ∈ q.indent ++ q.gap, isBlank c :=
      List.forall_mem_append.2 ⟨q.blank_of_mem_indent, q.blank_of_mem_gap⟩
    have hindent : blank.star.Parses before (q.indent ++ q.gap ++ (q.comment ++ behind)) _ :=
      readsOne_blank.star hblank (not_isBlank_behind hmax)
    have hbyte : byte.opt.Parses (before ++ (q.indent ++ q.gap)) (q.comment ++ behind) _ :=
      parses_opt_fails (.token_fails (readsOne_bit.times_fails (not_byteHere_behind hmax hnone)))
    have hgap : blank.star.Parses (before ++ (q.indent ++ q.gap) ++ [])
        ([] ++ (q.comment ++ behind)) _ :=
      readsOne_blank.star (List.forall_mem_nil _) (not_isBlank_behind hmax)
    have hline : line.Parses before _ _ :=
      .seq hindent (.seq hbyte (.seq hgap (parses_comment hmax hplain)))
    rw [LineParts.text, LineParts.tokens, if_pos hnone, hnone]
    simpa only [List.append_assoc, List.nil_append] using hline
  · have hne : q.digits ≠ [] := List.ne_nil_of_length_eq_add_one hlen
    have hindent : blank.star.Parses before
        (q.indent ++ (q.digits ++ (q.gap ++ (q.comment ++ behind)))) _ :=
      readsOne_blank.star q.blank_of_mem_indent (LineParts.not_isBlank_of_mem_digits hne)
    have hdigits : (times q.digits.length (.char fun c => c = '0' || c = '1')).Parses
        (before ++ q.indent) (q.digits ++ (q.gap ++ (q.comment ++ behind))) _ :=
      readsOne_bit.times hbits
    rw [hlen] at hdigits
    have hgap : blank.star.Parses (before ++ q.indent ++ q.digits)
        (q.gap ++ (q.comment ++ behind)) _ :=
      readsOne_blank.star q.blank_of_mem_gap (not_isBlank_behind hmax)
    have hline : line.Parses before _ _ := .seq hindent
      (.seq (.alt_left (.token hdigits)) (.seq hgap (parses_comment hmax hplain)))
    rw [LineParts.text, LineParts.tokens, if_neg hne]
    simpa only [List.append_assoc, List.append_nil, List.nil_append] using hline

/-- A byte that stands in front of a line end stands on the line. -/
theorem byteHere_of_append (h : ByteHere (content ++ tail)) (htail : EndsHere tail) :
    ByteHere content := by
  obtain ⟨x, y, heq, hlen, hx⟩ := h
  obtain ⟨z, rfl, rfl⟩ | ⟨z, rfl, rfl⟩ := List.append_eq_append_iff.1 heq
  · cases z with
    | nil => exact ⟨content, [], by simp, by simpa using hlen, by simpa using hx⟩
    | cons c z =>
        have hbit := hx c (List.mem_append_right _ List.mem_cons_self)
        rcases htail c rfl with rfl | rfl <;> exact absurd hbit (by decide)
  · exact ⟨x, z, rfl, hlen, hx⟩

/-! ### All lines -/

theorem endsHere_of_ends (h : SourceLine.Ends ending rest) : EndsHere (ending ++ rest) := by
  cases h with
  | crlf => exact fun c hc => .inr (Option.some.inj hc).symm
  | lf => exact fun c hc => .inl (Option.some.inj hc).symm
  | cr => exact fun c hc => .inr (Option.some.inj hc).symm

/-- Where no line end follows a line, no more lines are read. -/
theorem parses_lines_last {ts : List Token}
    (hline : line.Parses before cs (some ⟨content, rest, ts⟩))
    (hrest : ∀ c ∈ rest.head?, c ≠ '\n' ∧ c ≠ '\r') :
    lines.Parses before cs (some ⟨content, rest, ts⟩) := by
  have hlines : lines.Parses before cs _ :=
    .seq hline (.star_stops (.seq_fails_left (newline_fails hrest)))
  simpa only [List.append_nil] using hlines

/-- Behind a line and its end, the other lines are read. -/
theorem parses_lines_cons {x y : List Char} {ts us : List Token}
    (hline : line.Parses before (content ++ (ending ++ rest))
      (some ⟨content, ending ++ rest, ts⟩))
    (hend : SourceLine.Ends ending rest)
    (hmore : lines.Parses (before ++ (content ++ ending)) rest (some ⟨x, y, us⟩)) :
    lines.Parses before (content ++ (ending ++ rest))
      (some ⟨content ++ (ending ++ x), y, ts ++ us⟩) := by
  rw [← List.append_assoc] at hmore
  -- the first of the other lines becomes the first round of the repetition
  cases hmore with
  | @seq _ _ _ _ _ x₁ _ x₂ ts₁ ts₂ hfirst hothers =>
      rw [List.append_assoc _ ending] at hothers
      have hlines : lines.Parses before _ _ :=
        .seq hline (.star (.seq (parses_newline hend) hfirst) hothers)
      simpa only [List.append_assoc, List.nil_append] using hlines

theorem plain_comment (h : SourceLine.Plain q.text) : SourceLine.Plain q.comment := by
  intro c hc
  apply h
  simp [LineParts.text, hc]

/-- Lines of the form are read to their end, and the bytes found are those written on them. -/
theorem parses_lines_of_written {ts : List Token} (hcut : SourceLine.CutsInto cs ls)
    (hts : Written before ls ts) : lines.Parses before cs (some ⟨cs, [], ts⟩) := by
  induction hcut generalizing before ts with
  | last content hplain =>
      obtain ⟨⟩ | ⟨q, htext, ⟨⟩⟩ := hts
      obtain rfl : q.text = content := htext
      have hline : line.Parses before (q.text ++ []) _ :=
        parses_line (maximal_of_endsHere q nofun) (plain_comment hplain)
      rw [List.append_nil] at hline ⊢
      exact parses_lines_last hline nofun
  | line content ending rest ls hplain hend _ ih =>
      obtain ⟨⟩ | ⟨q, htext, hmore⟩ := hts
      obtain rfl : q.text = content := htext
      have hline : line.Parses before (q.text ++ (ending ++ rest)) _ :=
        parses_line (maximal_of_endsHere q (endsHere_of_ends hend)) (plain_comment hplain)
      exact parses_lines_cons hline hend (ih hmore)

/-- **The grammar reads lines that have the form to their end,** and the first other one as far as
it is read. -/
theorem exists_parses_lines_reached (hcut : SourceLine.CutsInto cs (good ++ l :: more))
    (hgood : ∀ g ∈ good, g.WellFormed) (hbad : ¬l.WellFormed) :
    ∃ c y ts, lines.Parses before cs
      (some ⟨good.flatMap SourceLine.text ++ reached l.content, c :: y, ts⟩) := by
  generalize hls : good ++ l :: more = ls at hcut
  induction good generalizing before cs ls with
  | nil =>
      subst hls
      obtain ⟨rest, hline⟩ := SourceLine.not_wellFormed_iff.1 hbad
      obtain ⟨q, c, tail, -, hcontent, hblank, hhash, htext, hcomment, hbyte⟩ :=
        exists_of_readLine_eq_error hline
      -- behind the line stands its end, or nothing
      obtain ⟨behind, rfl, hends, hplain⟩ : ∃ behind, cs = l.content ++ behind ∧ EndsHere behind ∧
          SourceLine.Plain l.content := by
        cases hcut with
        | last content hplain => exact ⟨[], (List.append_nil _).symm, nofun, hplain⟩
        | line content ending rest _ hplain hend _ => exact ⟨_, rfl, endsHere_of_ends hend, hplain⟩
      have hmax : Maximal q (c :: (tail ++ behind)) :=
        { not_comment := fun _ d hd => by
            obtain rfl := Option.some.inj hd
            exact ⟨hblank, hhash⟩
          not_byte := fun _ hnone hhere => hbyte hnone (byteHere_of_append hhere hends)
          ends := fun hne => absurd hcomment hne }
      have hparses : line.Parses before (q.text ++ c :: (tail ++ behind)) _ :=
        parses_line hmax (hcomment ▸ SourceLine.plain_nil)
      rw [htext, ← List.cons_append, ← List.append_assoc, ← hcontent] at hparses
      rw [hcontent] at hplain
      refine ⟨c, tail ++ behind, _, parses_lines_last hparses fun d hd => ?_⟩
      obtain rfl := Option.some.inj hd
      exact hplain c (List.mem_append_right _ List.mem_cons_self)
  | cons g good ih =>
      obtain ⟨⟨q, htext⟩, hothers⟩ := List.forall_mem_cons.1 hgood
      cases hcut with
      | last => simp at hls
      | line content ending rest _ hplain hend hrest =>
          obtain ⟨rfl, rfl⟩ := List.cons.inj hls
          obtain rfl : q.text = content := htext
          have hline : line.Parses before (q.text ++ (ending ++ rest)) _ :=
            parses_line (maximal_of_endsHere q (endsHere_of_ends hend)) (plain_comment hplain)
          obtain ⟨c, y, ts, hmore⟩ := ih hothers _ rfl hrest
          have hlines := parses_lines_cons hline hend hmore
          simp only [List.flatMap_cons, SourceLine.text, List.append_assoc]
          exact ⟨c, y, _, hlines⟩

/-! ### The whole text -/

/-- **What the grammar finds in a text:** if every line has the form, it reads the whole text and
finds the bytes written on the lines; or else it fails. -/
theorem parses_program_iff (hcut : SourceLine.CutsInto cs ls) {r : Option Match} :
    program.Parses [] cs r ↔
      match r with
      | some m => m.read = cs ∧ m.behind = [] ∧ Written [] ls m.tokens
      | none => ¬∀ l ∈ ls, l.WellFormed := by
  have hreads : ∀ ts, Written [] ls ts → program.Parses [] cs (some ⟨cs, [], ts⟩) := by
    intro ts hts
    have hprogram : program.Parses [] cs _ :=
      .seq (.start cs) (.seq (parses_lines_of_written hcut hts) (.finish _))
    simpa only [List.nil_append, List.append_nil] using hprogram
  have hfails : (¬∀ l ∈ ls, l.WellFormed) → program.Parses [] cs none := by
    intro hnot
    obtain ⟨good, l, more, rfl, hgood, hbad⟩ := exists_first_not_wellFormed hnot
    obtain ⟨c, y, ts, hlines⟩ := exists_parses_lines_reached hcut hgood hbad
    exact .seq_fails_right (.start cs) (.seq_fails_right hlines (.finish_fails _ c y))
  constructor
  · intro h
    by_cases hall : ∀ l ∈ ls, l.WellFormed
    · obtain ⟨ts, hts⟩ := exists_written_iff.2 hall
      obtain rfl := h.unique (hreads ts hts)
      exact ⟨rfl, rfl, hts⟩
    · obtain rfl := h.unique (hfails hall)
      exact hall
  · intro h
    match r, h with
    | some ⟨_, _, ts⟩, ⟨rfl, rfl, hts⟩ => exact hreads ts hts
    | none, hnot => exact hfails hnot

end Grammar

namespace Program

variable {source : String} {p : Program}

/-- **Reading a text is what the grammar says.** -/
theorem parse_eq_ok_iff_parses :
    parse source = .ok p ↔ ∃ m, Grammar.program.Parses [] source.toList (some m) ∧
      p = ⟨m.tokens.map Token.literal⟩ := by
  have hgrammar := fun r => Grammar.parses_program_iff (r := r)
    (SourceLine.cutsInto_iff.2 (Eq.refl (SourceLine.cut source.toList)))
  rw [parse_eq_ok_iff]
  constructor
  · rintro ⟨ts, hts, rfl⟩
    exact ⟨⟨source.toList, [], ts⟩, (hgrammar _).2 ⟨rfl, rfl, hts⟩, rfl⟩
  · rintro ⟨m, hm, rfl⟩
    obtain ⟨-, -, hts⟩ := (hgrammar _).1 hm
    exact ⟨m.tokens, hts, rfl⟩

/-- **The texts that can be read, and what is read.**  A text is cut into lines in one way.  It can
be read if and only if every line has the form: blanks, eight binary digits, blanks and a comment,
each of which may be missing.  Then the bytes written on the lines are found, one after another,
where they stand in the text; the program has their values, and knows for each of them the line it
is written on, and no line for any other address.  This is what the grammar finds in the text. -/
theorem parse_accepts_line_format (source : String) :
    ∃ lines, (∀ ls, SourceLine.CutsInto source.toList ls ↔ ls = lines) ∧
      ((∃ p, parse source = .ok p) ↔ ∀ l ∈ lines, l.WellFormed) ∧
      (∀ p, parse source = .ok p → ∃ ts, Written [] lines ts ∧
        (∀ t ∈ ts, ∃ behind, source.toList = t.before ++ (t.digits ++ behind)) ∧
        p.bytes.map UInt8.toNat = ts.map Token.value ∧
        (∀ i, p.lineOf? i = ts[i]?.map Token.line) ∧
        ∀ i, p.size ≤ i → p.lineOf? i = none) ∧
      (∀ p, parse source = .ok p ↔ ∃ m, Grammar.program.Parses [] source.toList (some m) ∧
        p = ⟨m.tokens.map Token.literal⟩) ∧
      ((¬∃ p, parse source = .ok p) ↔ Grammar.program.Parses [] source.toList none) := by
  have hcut := SourceLine.cutsInto_iff.2 (Eq.refl (SourceLine.cut source.toList))
  refine ⟨SourceLine.cut source.toList, fun ls => SourceLine.cutsInto_iff, exists_parse_iff,
    fun p hp => ?_, fun p => parse_eq_ok_iff_parses, ?_⟩
  · obtain ⟨ts, hts, rfl⟩ := parse_eq_ok_iff.1 hp
    refine ⟨ts, hts, fun t ht => ?_, toNat_bytes_of_written hts, lineOf?_literals ts,
      fun i hi => ?_⟩
    · obtain ⟨-, behind, hbehind⟩ := hts.exists_of_mem ht
      rw [List.nil_append, SourceLine.flatten_cut] at hbehind
      exact ⟨behind, hbehind⟩
    · rw [lineOf?, List.getElem?_eq_none hi, Option.map_none]
  · rw [exists_parse_iff, Grammar.parses_program_iff hcut]

-- a lone `\r` ends a line of the program, but not one that is counted
example : Program.parse "00000001\r00000010 # two" = .ok ⟨[⟨1, 1⟩, ⟨2, 1⟩]⟩ := by cbv

end Program

end ByteMachine
