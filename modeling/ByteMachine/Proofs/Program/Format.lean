/-
**The form of a program text.**

A line has the form if it can be taken apart into blanks, the eight binary digits of a byte, blanks
and a comment, where each part may be missing.  The bytes written in a text are found with what
stands in front of them, which says on which line each of them is; what they are worth is the number
that their digits name.  Reading a text succeeds if every line has the form, and gives these bytes.

Main definitions:

* `ByteMachine.LineParts` — the parts of a line, with what is asked of them;
* `ByteMachine.Token` — a byte as it is written in a text;
* `ByteMachine.Written` — the bytes written on the lines of a text.

Main results:

* `ByteMachine.readLine_eq_ok_iff` — **a line can be read if it has the form**;
* `ByteMachine.readLines_eq_ok_iff` — reading lines gives the bytes written on them;
* `ByteMachine.Program.parse_eq_ok_iff`, `Program.exists_parse_iff` — **the programs of texts**.
-/

import ByteMachine.Program.Parser
import ByteMachine.Proofs.Program.Lines
import Mathlib.Data.List.TakeWhile
import Mathlib.Data.Nat.Digits.Defs

set_option relaxedAutoImplicit false
set_option autoImplicit false

namespace ByteMachine

/-! ### Bytes in a text -/

def IsBit (c : Char) : Prop := c = '0' ∨ c = '1'

instance : DecidablePred IsBit := fun c => inferInstanceAs (Decidable (c = '0' ∨ c = '1'))

/-- The number that binary digits name, the most significant one first. -/
def bitsValue (digits : List Char) : Nat :=
  Nat.ofDigits 2 (digits.map fun c => if c = '1' then 1 else 0).reverse

/-- **A byte as it is written in a text.** -/
structure Token where
  /-- All that stands in front of it. -/
  before : List Char
  digits : List Char

namespace Token

def value (t : Token) : Nat := bitsValue t.digits

/-- The line that a byte is written on: one more than the `\n` in front of it. -/
def line (t : Token) : Nat := 1 + t.before.count '\n'

def literal (t : Token) : Literal := ⟨UInt8.ofNat t.value, t.line⟩

end Token

/-! ### The parts of a line -/

/-- **The parts of a line,** with what is asked of them. -/
structure LineParts where
  indent : List Char
  digits : List Char
  gap : List Char
  comment : List Char
  blank_of_mem_indent : ∀ c ∈ indent, isBlank c
  /-- There are no digits, or those of a byte. -/
  digits_eq : digits = [] ∨ digits.length = 8 ∧ ∀ c ∈ digits, IsBit c
  blank_of_mem_gap : ∀ c ∈ gap, isBlank c
  /-- There is no comment, or it begins with its sign. -/
  comment_eq : comment = [] ∨ comment.head? = some '#'

namespace LineParts

variable (q : LineParts)

/-- The line. -/
def text : List Char := q.indent ++ (q.digits ++ (q.gap ++ q.comment))

/-- The byte of the line, if it has one, where `before` stands in front of the line. -/
def tokens (before : List Char) : List Token :=
  if q.digits = [] then [] else [⟨before ++ q.indent, q.digits⟩]

/-- The byte of the line stands behind its leading blanks. -/
theorem eq_of_mem_tokens {q : LineParts} {before : List Char} {t : Token}
    (ht : t ∈ q.tokens before) : q.digits ≠ [] ∧ t = ⟨before ++ q.indent, q.digits⟩ := by
  rw [tokens] at ht
  split at ht
  · cases ht
  · rename_i hdigits
    exact ⟨hdigits, List.mem_singleton.1 ht⟩

end LineParts

/-- **A line has the form.** -/
def SourceLine.WellFormed (l : SourceLine) : Prop := ∃ q : LineParts, q.text = l.content

/-- **The bytes written on lines,** where `before` stands in front of them. -/
inductive Written : List Char → List SourceLine → List Token → Prop
  | nil (before : List Char) : Written before [] []
  | cons {before : List Char} {l : SourceLine} {lines : List SourceLine} {ts : List Token}
      (q : LineParts) (h : q.text = l.content) (hmore : Written (before ++ l.text) lines ts) :
      Written before (l :: lines) (q.tokens before ++ ts)

variable {before content cs rest digits : List Char} {lines : List SourceLine} {q : LineParts}

/-- Every line on which bytes are found has the form, and on lines that have it they are found. -/
theorem exists_written_iff : (∃ ts, Written before lines ts) ↔ ∀ l ∈ lines, l.WellFormed := by
  induction lines generalizing before with
  | nil => exact ⟨fun _ => List.forall_mem_nil _, fun _ => ⟨[], .nil before⟩⟩
  | cons l lines ih =>
      rw [List.forall_mem_cons, ← @ih (before ++ l.text)]
      constructor
      · rintro ⟨_, ⟨⟩ | ⟨q, h, hmore⟩⟩
        exact ⟨⟨q, h⟩, _, hmore⟩
      · rintro ⟨⟨q, h⟩, ts, hmore⟩
        exact ⟨_, .cons q h hmore⟩

/-- A byte that is written on lines stands there in their text, with eight digits. -/
theorem Written.exists_of_mem {ts : List Token} (h : Written before lines ts) {t : Token}
    (ht : t ∈ ts) :
    (t.digits.length = 8 ∧ ∀ c ∈ t.digits, IsBit c) ∧
      ∃ behind, before ++ lines.flatMap SourceLine.text = t.before ++ (t.digits ++ behind) := by
  induction h with
  | nil => cases ht
  | @cons before l lines ts q h _ ih =>
      rw [List.flatMap_cons]
      rcases List.mem_append.1 ht with ht | ht
      · obtain ⟨hdigits, rfl⟩ := LineParts.eq_of_mem_tokens ht
        refine ⟨q.digits_eq.resolve_left hdigits,
          q.gap ++ q.comment ++ (l.ending ++ lines.flatMap SourceLine.text), ?_⟩
        simp only [SourceLine.text, ← h, LineParts.text, List.append_assoc]
      · obtain ⟨hdigits, behind, hbehind⟩ := ih ht
        exact ⟨hdigits, behind, by rw [← hbehind, List.append_assoc]⟩

/-! ### Reading digits -/

/-- Reading digits gives their value, added to what has been read before. -/
theorem readBits_append (h : ∀ c ∈ digits, IsBit c) (acc : Nat) :
    readBits digits.length acc (digits ++ cs) =
      some (acc * 2 ^ digits.length + bitsValue digits, cs) := by
  induction digits generalizing acc with
  | nil => simp [readBits, bitsValue]
  | cons c digits ih =>
      obtain ⟨hc, hdigits⟩ := List.forall_mem_cons.1 h
      have hvalue : bitsValue (c :: digits) =
          bitsValue digits + 2 ^ digits.length * if c = '1' then 1 else 0 := by
        rw [bitsValue, List.map_cons, List.reverse_cons, Nat.ofDigits_append,
          Nat.ofDigits_singleton, List.length_reverse, List.length_map, bitsValue]
      rw [List.length_cons, List.cons_append, hvalue]
      rcases hc with rfl | rfl
      · rw [readBits, ih hdigits, if_neg (by decide), Nat.pow_succ]
        congr 2
        ring
      · rw [readBits, ih hdigits, if_pos rfl, Nat.pow_succ]
        congr 2
        ring

theorem bitsValue_lt (digits : List Char) : bitsValue digits < 2 ^ digits.length := by
  have hlt := Nat.ofDigits_lt_base_pow_length (b := 2)
    (l := (digits.map fun c => if c = '1' then 1 else 0).reverse) (by decide) (by
      intro x hx
      obtain ⟨c, -, rfl⟩ := List.mem_map.1 (List.mem_reverse.1 hx)
      split <;> decide)
  rwa [List.length_reverse, List.length_map] at hlt

/-- What has been read as digits stood there. -/
theorem exists_of_readBits {n acc v : Nat} (h : readBits n acc cs = some (v, rest)) :
    ∃ digits, cs = digits ++ rest ∧ digits.length = n ∧ ∀ c ∈ digits, IsBit c := by
  fun_induction readBits n acc cs with
  | case1 acc cs =>
      obtain ⟨-, rfl⟩ := Prod.mk.inj (Option.some.inj h)
      exact ⟨[], rfl, rfl, List.forall_mem_nil _⟩
  | case2 n acc cs ih =>
      obtain ⟨digits, rfl, hlen, hdigits⟩ := ih h
      exact ⟨'0' :: digits, rfl, congrArg _ hlen, List.forall_mem_cons.2 ⟨.inl rfl, hdigits⟩⟩
  | case3 n acc cs ih =>
      obtain ⟨digits, rfl, hlen, hdigits⟩ := ih h
      exact ⟨'1' :: digits, rfl, congrArg _ hlen, List.forall_mem_cons.2 ⟨.inr rfl, hdigits⟩⟩
  | case4 => cases h

/-! ### Reading a line -/

/-- Blanks are passed over up to a character that is none. -/
theorem dropWhile_isBlank_append (h : ∀ c ∈ rest, isBlank c) (hcs : ∀ c ∈ cs.head?, ¬isBlank c) :
    (rest ++ cs).dropWhile isBlank = cs := by
  rw [List.dropWhile_append_of_pos h]
  cases cs with
  | nil => rfl
  | cons c cs => rw [List.dropWhile_cons_of_neg (hcs c rfl)]

theorem not_isBlank_of_isBit {c : Char} (h : IsBit c) : ¬isBlank c := by
  rcases h with rfl | rfl <;> decide

namespace LineParts

/-- A comment begins with its sign. -/
theorem eq_of_comment {c : Char} (h : q.comment = c :: cs) : c = '#' := by
  simpa [h] using q.comment_eq

/-- A comment does not begin with a blank. -/
theorem not_isBlank_of_mem_comment : ∀ c ∈ q.comment.head?, ¬isBlank c := by
  cases hcomment : q.comment with
  | nil => exact nofun
  | cons d cs =>
      intro c hc
      obtain rfl := Option.some.inj hc
      rw [eq_of_comment hcomment]
      decide

/-- Digits do not begin with a blank. -/
theorem not_isBlank_of_mem_digits (hne : q.digits ≠ []) :
    ∀ c ∈ (q.digits ++ cs).head?, ¬isBlank c := by
  intro c hc
  rw [List.head?_append, List.head?_eq_some_head hne, Option.some_or] at hc
  obtain rfl := Option.some.inj hc
  obtain ⟨-, hbits⟩ := q.digits_eq.resolve_left hne
  exact not_isBlank_of_isBit (hbits _ (List.head_mem hne))

/-- Behind a comment, or without one, a line can end. -/
theorem lineEnd_comment (byte : Option UInt8) : lineEnd byte q.comment = .ok byte := by
  cases hcomment : q.comment with
  | nil => rfl
  | cons c cs => exact if_pos (eq_of_comment hcomment)

/-- No digits are read at the beginning of a comment. -/
theorem readBits_comment : readBits 8 0 q.comment = none := by
  cases hcomment : q.comment with
  | nil => rfl
  | cons c cs =>
      rw [eq_of_comment hcomment]
      rfl

/-- The byte of the line, if it has one. -/
def byte? (q : LineParts) : Option UInt8 :=
  if q.digits = [] then none else some (UInt8.ofNat (bitsValue q.digits))

/-- A line of the form is read. -/
theorem readLine_text (q : LineParts) : readLine q.text = .ok q.byte? := by
  rcases q.digits_eq with hnone | ⟨hlen, hbits⟩
  · have hindent : ∀ c ∈ q.indent ++ q.gap, isBlank c :=
      List.forall_mem_append.2 ⟨q.blank_of_mem_indent, q.blank_of_mem_gap⟩
    have hrest : q.text.dropWhile isBlank = q.comment := by
      rw [text, hnone, List.nil_append, ← List.append_assoc,
        dropWhile_isBlank_append hindent q.not_isBlank_of_mem_comment]
    rw [readLine, hrest, q.readBits_comment, byte?, if_pos hnone]
    exact q.lineEnd_comment none
  · have hne : q.digits ≠ [] := List.ne_nil_of_length_eq_add_one hlen
    have hread : readBits q.digits.length 0 (q.digits ++ (q.gap ++ q.comment)) = _ :=
      readBits_append hbits 0
    rw [hlen, Nat.zero_mul, Nat.zero_add] at hread
    rw [readLine, text, dropWhile_isBlank_append q.blank_of_mem_indent
      (not_isBlank_of_mem_digits hne), hread, byte?, if_neg hne]
    dsimp only
    rw [dropWhile_isBlank_append q.blank_of_mem_gap q.not_isBlank_of_mem_comment]
    exact q.lineEnd_comment _

/-- What a byte is worth, and on which line it is, does not depend on how it is looked for. -/
theorem map_literal_tokens (q : LineParts) (before : List Char) :
    (q.tokens before).map Token.literal =
      (q.byte?.map fun b => ⟨b, (Position.start.after before).line⟩).toList := by
  have hindent : q.indent.count '\n' = 0 :=
    List.count_eq_zero.2 fun h => absurd (q.blank_of_mem_indent _ h) (by decide)
  by_cases hnone : q.digits = []
  · rw [tokens, if_pos hnone, byte?, if_pos hnone]
    rfl
  · rw [tokens, if_neg hnone, byte?, if_neg hnone, Position.line_after]
    simp [Token.literal, Token.line, Token.value, Position.start, hindent]

end LineParts

/-- A line can end only at a comment. -/
theorem eq_of_lineEnd {byte byte' : Option UInt8} (h : lineEnd byte rest = .ok byte') :
    byte = byte' ∧ (rest = [] ∨ rest.head? = some '#') := by
  unfold lineEnd at h
  split at h
  · exact ⟨Except.ok.inj h, .inl rfl⟩
  · split at h
    · rename_i hc
      exact ⟨Except.ok.inj h, .inr (congrArg some hc)⟩
    · cases h

/-- A line that has been read has the form. -/
theorem exists_of_readLine {byte : Option UInt8} (h : readLine content = .ok byte) :
    ∃ q : LineParts, q.text = content := by
  unfold readLine at h
  dsimp only at h
  split at h
  · rename_i v rest hread
    obtain ⟨digits, hdigits, hlen, hbits⟩ := exists_of_readBits hread
    obtain ⟨-, hcomment⟩ := eq_of_lineEnd h
    refine ⟨⟨content.takeWhile isBlank, digits, rest.takeWhile isBlank, rest.dropWhile isBlank,
      fun c hc => List.mem_takeWhile_imp hc, .inr ⟨hlen, hbits⟩,
      fun c hc => List.mem_takeWhile_imp hc, hcomment⟩, ?_⟩
    rw [LineParts.text, List.takeWhile_append_dropWhile, ← hdigits,
      List.takeWhile_append_dropWhile]
  · obtain ⟨-, hcomment⟩ := eq_of_lineEnd h
    refine ⟨⟨content.takeWhile isBlank, [], [], content.dropWhile isBlank,
      fun c hc => List.mem_takeWhile_imp hc, .inl rfl, List.forall_mem_nil _, hcomment⟩, ?_⟩
    rw [LineParts.text, List.nil_append, List.nil_append, List.takeWhile_append_dropWhile]

/-- **A line can be read if it has the form,** and then gives its byte. -/
theorem readLine_eq_ok_iff {byte : Option UInt8} :
    readLine content = .ok byte ↔ ∃ q : LineParts, q.text = content ∧ q.byte? = byte := by
  constructor
  · intro h
    obtain ⟨q, rfl⟩ := exists_of_readLine h
    exact ⟨q, rfl, Except.ok.inj (q.readLine_text.symm.trans h)⟩
  · rintro ⟨q, rfl, rfl⟩
    exact q.readLine_text

/-! ### Reading lines -/

/-- **Reading lines gives the bytes written on them.** -/
theorem readLines_eq_ok_iff {literals : List Literal} :
    readLines (Position.start.after before) lines = .ok literals ↔
      ∃ ts, Written before lines ts ∧ ts.map Token.literal = literals := by
  induction lines generalizing before literals with
  | nil =>
      rw [readLines]
      constructor
      · rintro ⟨⟩
        exact ⟨[], .nil before, rfl⟩
      · rintro ⟨_, ⟨⟩, rfl⟩
        rfl
  | cons l lines ih =>
      have hmore : (Position.start.after before).after l.text =
          Position.start.after (before ++ l.text) := (Position.after_append _ _ _).symm
      rw [readLines]
      constructor
      · intro h
        split at h
        · cases h
        · rename_i byte hline
          obtain ⟨q, htext, rfl⟩ := readLine_eq_ok_iff.1 hline
          rw [hmore] at h
          split at h
          · cases h
          · rename_i more hlines
            obtain ⟨ts, hts, rfl⟩ := ih.1 hlines
            obtain rfl := Except.ok.inj h
            exact ⟨_, .cons q htext hts, by rw [List.map_append, q.map_literal_tokens]⟩
      · rintro ⟨_, ⟨⟩ | ⟨q, htext, hts⟩, rfl⟩
        rw [readLine_eq_ok_iff.2 ⟨q, htext, rfl⟩]
        dsimp only
        rw [hmore, ih.2 ⟨_, hts, rfl⟩, List.map_append, q.map_literal_tokens]

/-! ### Reading a text -/

namespace Program

variable {source : String} {p : Program}

/-- The program of a text has the bytes written on its lines. -/
theorem parse_eq_ok_iff :
    parse source = .ok p ↔
      ∃ ts, Written [] (SourceLine.cut source.toList) ts ∧ p = ⟨ts.map Token.literal⟩ := by
  have hread : ∀ literals, readLines .start (SourceLine.cut source.toList) = .ok literals ↔
      ∃ ts, Written [] (SourceLine.cut source.toList) ts ∧ ts.map Token.literal = literals := by
    intro literals
    rw [← Position.after_nil .start]
    exact readLines_eq_ok_iff
  unfold parse
  constructor
  · intro h
    split at h
    · rename_i literals hliterals
      obtain ⟨ts, hts, rfl⟩ := (hread literals).1 hliterals
      exact ⟨ts, hts, (Except.ok.inj h).symm⟩
    · cases h
  · rintro ⟨ts, hts, rfl⟩
    rw [(hread _).2 ⟨ts, hts, rfl⟩]

/-- **A text can be read if every line has the form.** -/
theorem exists_parse_iff :
    (∃ p, parse source = .ok p) ↔ ∀ l ∈ SourceLine.cut source.toList, l.WellFormed := by
  rw [← @exists_written_iff []]
  constructor
  · rintro ⟨p, hp⟩
    obtain ⟨ts, hts, -⟩ := parse_eq_ok_iff.1 hp
    exact ⟨ts, hts⟩
  · rintro ⟨ts, hts⟩
    exact ⟨_, parse_eq_ok_iff.2 ⟨ts, hts, rfl⟩⟩

/-- The bytes of a program are worth what is written. -/
theorem toNat_bytes_of_written {ts : List Token} (h : Written before lines ts) :
    (Program.bytes ⟨ts.map Token.literal⟩).map UInt8.toNat = ts.map Token.value := by
  rw [bytes, List.map_map, List.map_map]
  refine List.map_congr_left fun t ht => ?_
  obtain ⟨⟨hlen, -⟩, -⟩ := h.exists_of_mem ht
  have hlt := bitsValue_lt t.digits
  rw [hlen] at hlt
  exact UInt8.toNat_ofNat_of_lt hlt

theorem lineOf?_literals (ts : List Token) (i : Nat) :
    Program.lineOf? ⟨ts.map Token.literal⟩ i = ts[i]?.map Token.line := by
  rw [lineOf?, List.getElem?_map, Option.map_map]
  rfl

end Program

end ByteMachine
