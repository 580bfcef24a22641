/-
**Which texts are byte literals.**

A literal is read from the left, with the value of the digits that have been passed, and reading
stops as soon as that value is too large for a byte.  Here it is said without reading what a literal
is: a mark of its base, at most one plus sign, and at least one digit of the base.  The digits name
a number, however many they are.  Reading a literal gives this number if a byte can hold it, and
finds it too large if not; the passed digits alone never settle more than the whole number does,
because a number is not smaller than what its first digits name.

Main definitions:

* `ByteMachine.Numeral.IsDigit`, `Numeral.IsNumeral` — digits and numerals with their values;
* `ByteMachine.ByteLiteral.marks`, `ByteLiteral.IsLiteral` — byte literals with their values.

Main results:

* `ByteMachine.Numeral.readDigits_of_forall₂` — digits are read as the number that they name;
* `ByteMachine.Numeral.read_of_isNumeral`, `Numeral.exists_isNumeral_of_read` — **numerals are
  read, and nothing else is**;
* `ByteMachine.ByteLiteral.literals_are_read` — **byte literals are read as their values**, and
  every other text is refused.
-/

import ByteMachine.CommandLine.ByteLiteral
import ByteMachine.Proofs.Numeral
import Mathlib.Data.List.Forall2
import Mathlib.Data.Nat.Digits.Defs
import Mathlib.Tactic.Ring

set_option relaxedAutoImplicit false
set_option autoImplicit false

namespace ByteMachine

namespace Numeral

variable {base bound acc d v : Nat} {c : Char} {cs : List Char} {ds : List Nat}

/-! ### Digits -/

/-- **The character is the digit of value `d` in the base,** a letter in either case. -/
def IsDigit (base : Nat) (c : Char) (d : Nat) : Prop :=
  d < base ∧ (c = Nat.digitChar d ∨ c = (Nat.digitChar d).toUpper)

theorem IsDigit.digitValue? (h : IsDigit base c d) (hbase : base ≤ 16) :
    digitValue? c = some d := by
  obtain ⟨hlt, rfl | rfl⟩ := h
  · exact digitValue?_digitChar (by omega)
  · exact digitValue?_toUpper_digitChar (by omega)

theorem IsDigit.isAlphanum (h : IsDigit base c d) (hbase : base ≤ 16) : c.isAlphanum = true := by
  have hall : ∀ d < 16, (Nat.digitChar d).isAlphanum = true ∧
      (Nat.digitChar d).toUpper.isAlphanum = true := by decide
  obtain ⟨hlt, rfl | rfl⟩ := h
  · exact (hall d (by omega)).1
  · exact (hall d (by omega)).2

/-- A character that is read as a digit is one. -/
theorem isDigit_of_digitValue? (h : digitValue? c = some d) (hlt : d < base) (hbase : base ≤ 16) :
    IsDigit base c d := by
  have hletter : ∀ d < 16, 10 ≤ d → (Nat.digitChar d).toNat = d + 87 ∧
      (Nat.digitChar d).toUpper.toNat = d + 55 := by decide
  refine ⟨hlt, ?_⟩
  unfold Numeral.digitValue? at h
  split_ifs at h with hnumber hlower hupper
  · -- a character from `0` to `9`
    left
    have hge : 48 ≤ c.toNat := hnumber.1
    have hle : c.toNat ≤ 57 := hnumber.2
    have hd : c.toNat - 48 = d := Option.some.inj h
    rw [← Char.toNat_inj, Nat.toNat_digitChar_of_lt_ten (by omega)]
    omega
  · -- a character from `a` on
    left
    have hge : 97 ≤ c.toNat := hlower.1
    have hd : c.toNat - 97 + 10 = d := Option.some.inj h
    rw [← Char.toNat_inj, (hletter d (by omega) (by omega)).1]
    omega
  · -- a character from `A` on
    right
    have hge : 65 ≤ c.toNat := hupper.1
    have hd : c.toNat - 65 + 10 = d := Option.some.inj h
    rw [← Char.toNat_inj, (hletter d (by omega) (by omega)).2]
    omega

theorem not_isDigit_plus (hbase : base ≤ 16) (d : Nat) : ¬IsDigit base '+' d := by
  intro h
  have hvalue := h.digitValue? hbase
  rw [show Numeral.digitValue? '+' = none by decide] at hvalue
  cases hvalue

/-! ### Strings of digits -/

theorem exists_isDigit_of_mem (h : List.Forall₂ (IsDigit base) cs ds) (hc : c ∈ cs) :
    ∃ d, IsDigit base c d := by
  induction h with
  | nil => cases hc
  | @cons _ d _ _ hd _ ih =>
      rcases List.mem_cons.1 hc with rfl | hc
      · exact ⟨d, hd⟩
      · exact ih hc

/-- The number that digits name behind those that name `acc`. -/
def valueBehind (base acc : Nat) (ds : List Nat) : Nat :=
  acc * base ^ ds.length + Nat.ofDigits base ds.reverse

theorem valueBehind_nil (base acc : Nat) : valueBehind base acc [] = acc := by
  simp [valueBehind]

theorem valueBehind_cons (base acc d : Nat) (ds : List Nat) :
    valueBehind base acc (d :: ds) = valueBehind base (acc * base + d) ds := by
  rw [valueBehind, valueBehind, List.reverse_cons, Nat.ofDigits_append, Nat.ofDigits_singleton,
    List.length_reverse, List.length_cons]
  ring

theorem valueBehind_zero (base : Nat) (ds : List Nat) :
    valueBehind base 0 ds = Nat.ofDigits base ds.reverse := by
  rw [valueBehind, Nat.zero_mul, Nat.zero_add]

/-- A number is not smaller than what its first digits name. -/
theorem le_valueBehind (hbase : 0 < base) (acc : Nat) (ds : List Nat) :
    acc ≤ valueBehind base acc ds :=
  Nat.le_trans (Nat.le_mul_of_pos_right acc (Nat.pow_pos hbase)) (Nat.le_add_right _ _)

/-- **Digits are read as the number that they name,** or that number is too large. -/
theorem readDigits_of_forall₂ (hbase : 0 < base) (hbase' : base ≤ 16)
    (h : List.Forall₂ (IsDigit base) cs ds) (hacc : acc ≤ bound) :
    readDigits base bound acc cs =
      if valueBehind base acc ds ≤ bound then .ok (valueBehind base acc ds)
      else .error .tooLarge := by
  -- induction on the digits that are still to be read
  induction h generalizing acc with
  | nil => rw [readDigits_nil, valueBehind_nil, if_pos hacc]
  | @cons c d cs ds hc _ ih =>
      rw [readDigits, hc.digitValue? hbase', valueBehind_cons]
      dsimp only
      rw [if_neg (Nat.not_le.2 hc.1)]
      by_cases hlarge : bound < acc * base + d
      · have hle := le_valueBehind hbase (acc * base + d) ds
        rw [if_pos hlarge, if_neg (by omega)]
      · rw [if_neg hlarge, ih (Nat.not_lt.1 hlarge)]

/-- What has been read consists of digits. -/
theorem exists_forall₂_of_readDigits (hbase' : base ≤ 16)
    (h : readDigits base bound acc cs = .ok v) : ∃ ds, List.Forall₂ (IsDigit base) cs ds := by
  induction cs generalizing acc with
  | nil => exact ⟨[], .nil⟩
  | cons c cs ih =>
      rw [readDigits] at h
      split at h
      · cases h
      · rename_i d hvalue
        split_ifs at h with hdigit hlarge
        obtain ⟨ds, hds⟩ := ih h
        exact ⟨d :: ds, .cons (isDigit_of_digitValue? hvalue (Nat.not_le.1 hdigit) hbase') hds⟩

/-! ### Numerals -/

/-- **What a numeral of the base is,** and its value: at most one plus sign, and at least one
digit. -/
def IsNumeral (base : Nat) (cs : List Char) (v : Nat) : Prop :=
  ∃ sign digits ds, cs = sign ++ digits ∧ (sign = [] ∨ sign = ['+']) ∧ digits ≠ [] ∧
    List.Forall₂ (IsDigit base) digits ds ∧ v = Nat.ofDigits base ds.reverse

/-- A numeral consists of its sign and its digits. -/
theorem IsNumeral.eq_plus_or_isDigit (h : IsNumeral base cs v) (hc : c ∈ cs) :
    c = '+' ∨ ∃ d, IsDigit base c d := by
  obtain ⟨sign, digits, ds, rfl, hsign, -, hdigits, -⟩ := h
  rcases List.mem_append.1 hc with hc | hc
  · rcases hsign with rfl | rfl
    · cases hc
    · exact .inl (List.mem_singleton.1 hc)
  · exact .inr (exists_isDigit_of_mem hdigits hc)

theorem read_of_ne_plus (hc : c ≠ '+') :
    read base bound (c :: cs) = readDigits base bound 0 (c :: cs) := by
  unfold read
  split <;> simp_all

theorem read_plus (h : cs ≠ []) : read base bound ('+' :: cs) = readDigits base bound 0 cs := by
  unfold read
  split <;> simp_all

/-- **A numeral is read as its value,** or that value is too large. -/
theorem read_of_isNumeral (hbase : 0 < base) (hbase' : base ≤ 16) (h : IsNumeral base cs v) :
    read base bound cs = if v ≤ bound then .ok v else .error .tooLarge := by
  obtain ⟨sign, digits, ds, rfl, hsign, hne, hdigits, rfl⟩ := h
  have hread : read base bound (sign ++ digits) = readDigits base bound 0 digits := by
    rcases hsign with rfl | rfl
    · cases hdigits with
      | nil => exact absurd rfl hne
      | cons hd _ =>
          refine read_of_ne_plus ?_
          rintro rfl
          exact not_isDigit_plus hbase' _ hd
    · exact read_plus hne
  rw [hread, readDigits_of_forall₂ hbase hbase' hdigits (Nat.zero_le _), valueBehind_zero]

/-- **Only a numeral is read.** -/
theorem exists_isNumeral_of_read (hbase' : base ≤ 16) (h : read base bound cs = .ok v) :
    ∃ n, IsNumeral base cs n := by
  unfold read at h
  split at h
  · cases h
  · cases h
  · rename_i digits hne
    obtain ⟨ds, hds⟩ := exists_forall₂_of_readDigits hbase' h
    exact ⟨_, ['+'], digits, ds, rfl, .inr rfl, hne, hds, rfl⟩
  · rename_i hne _ _
    obtain ⟨ds, hds⟩ := exists_forall₂_of_readDigits hbase' h
    exact ⟨_, [], cs, ds, rfl, .inl rfl, hne, hds, rfl⟩

theorem readDigits_ne_empty : readDigits base bound acc cs ≠ .error .empty := by
  induction cs generalizing acc with
  | nil => simp
  | cons c cs ih =>
      rw [readDigits]
      split
      · simp
      · split_ifs
        · simp
        · simp
        · exact ih

/-- Only of nothing it is said that there is nothing to read. -/
theorem read_eq_empty_iff : read base bound cs = .error .empty ↔ cs = [] := by
  unfold read
  split
  · simp
  · simp
  · simp [readDigits_ne_empty]
  · rename_i hne _ _
    exact iff_of_false readDigits_ne_empty hne

end Numeral

namespace ByteLiteral

/-- The marks of the bases; a decimal literal has none. -/
def marks : List (List Char × Nat) :=
  [([], 10), (['0', 'x'], 16), (['0', 'X'], 16), (['0', 'b'], 2), (['0', 'B'], 2)]

/-- **What a byte literal is,** and its value: the mark of a base and a numeral of that base. -/
def IsLiteral (s : String) (v : Nat) : Prop :=
  ∃ mark base cs, (mark, base) ∈ marks ∧ s.toList = mark ++ cs ∧ Numeral.IsNumeral base cs v

variable {s : String} {mark cs rest : List Char} {base v : Nat}

theorem base_of_mem_marks (h : (mark, base) ∈ marks) : 0 < base ∧ base ≤ 16 := by
  have hall : ∀ p ∈ marks, 0 < p.2 ∧ p.2 ≤ 16 := by decide
  exact hall _ h

/-- What is split off is a mark. -/
theorem exists_mark_of_split (h : split cs = (base, rest)) :
    ∃ mark, (mark, base) ∈ marks ∧ cs = mark ++ rest := by
  unfold split at h
  split at h <;> obtain ⟨rfl, rfl⟩ := Prod.mk.inj h
  · exact ⟨['0', 'x'], by decide, rfl⟩
  · exact ⟨['0', 'X'], by decide, rfl⟩
  · exact ⟨['0', 'b'], by decide, rfl⟩
  · exact ⟨['0', 'B'], by decide, rfl⟩
  · exact ⟨[], by decide, rfl⟩

/-- A decimal numeral does not begin like a mark. -/
theorem split_of_isNumeral (h : Numeral.IsNumeral 10 cs v) : split cs = (10, cs) := by
  have hletter : ∀ c ∈ cs, c ∉ ['x', 'X', 'b', 'B'] := by
    intro c hc hmem
    rcases h.eq_plus_or_isDigit hc with rfl | ⟨d, hd⟩
    · exact absurd hmem (by decide)
    · have hlarge : ∀ d < 10, Numeral.digitValue? c ≠ some d := by
        simp only [List.mem_cons, List.not_mem_nil, or_false] at hmem
        rcases hmem with rfl | rfl | rfl | rfl <;> decide
      exact hlarge d hd.1 (hd.digitValue? (by decide))
  unfold split
  split
  · exact absurd (by decide) (hletter 'x' (by simp))
  · exact absurd (by decide) (hletter 'X' (by simp))
  · exact absurd (by decide) (hletter 'b' (by simp))
  · exact absurd (by decide) (hletter 'B' (by simp))
  · rfl

/-- The mark of a literal is found. -/
theorem split_append (hmark : (mark, base) ∈ marks) (h : Numeral.IsNumeral base cs v) :
    split (mark ++ cs) = (base, cs) := by
  simp only [marks, List.mem_cons, Prod.mk.injEq, List.not_mem_nil, or_false] at hmark
  rcases hmark with ⟨rfl, rfl⟩ | ⟨rfl, rfl⟩ | ⟨rfl, rfl⟩ | ⟨rfl, rfl⟩ | ⟨rfl, rfl⟩
  · exact split_of_isNumeral h
  all_goals rfl

theorem read_of_split (h : split s.toList = (base, cs)) :
    read s = (Numeral.read base 255 cs).map UInt8.ofNat := by
  rw [read, h]

/-- **A literal is read as its value,** or that value is too large for a byte. -/
theorem read_of_isLiteral (h : IsLiteral s v) :
    read s = if v ≤ 255 then .ok (UInt8.ofNat v) else .error .tooLarge := by
  obtain ⟨mark, base, cs, hmark, hs, hnumeral⟩ := h
  obtain ⟨hbase, hbase'⟩ := base_of_mem_marks hmark
  have hsplit : split s.toList = (base, cs) := by rw [hs, split_append hmark hnumeral]
  rw [read_of_split hsplit, Numeral.read_of_isNumeral hbase hbase' hnumeral]
  split
  · rfl
  · rfl

/-- **Only a literal is read.** -/
theorem exists_isLiteral_of_read {b : UInt8} (h : read s = .ok b) : ∃ v, IsLiteral s v := by
  obtain ⟨base, rest, hsplit⟩ : ∃ base rest, split s.toList = (base, rest) := ⟨_, _, rfl⟩
  obtain ⟨mark, hmark, hs⟩ := exists_mark_of_split hsplit
  rw [read_of_split hsplit] at h
  cases hread : Numeral.read base 255 rest with
  | error e =>
      rw [hread] at h
      cases h
  | ok n =>
      obtain ⟨v, hv⟩ := Numeral.exists_isNumeral_of_read (base_of_mem_marks hmark).2 hread
      exact ⟨v, mark, base, rest, hmark, hs, hv⟩

theorem read_eq_ok_iff {b : UInt8} : read s = .ok b ↔ IsLiteral s b.toNat := by
  constructor
  · intro h
    obtain ⟨v, hv⟩ := exists_isLiteral_of_read h
    rw [read_of_isLiteral hv] at h
    split_ifs at h with hle
    obtain rfl := Except.ok.inj h
    rwa [UInt8.toNat_ofNat_of_lt' (Nat.lt_succ_of_le hle)]
  · intro h
    rw [read_of_isLiteral h, if_pos (Nat.le_of_lt_succ b.toNat_lt), UInt8.ofNat_toNat]

theorem exists_read_eq_error_iff :
    (∃ e, read s = .error e) ↔ ∀ v ≤ 255, ¬IsLiteral s v := by
  constructor
  · rintro ⟨e, he⟩ v hle hv
    rw [read_of_isLiteral hv, if_pos hle] at he
    cases he
  · intro h
    cases hread : read s with
    | error e => exact ⟨e, rfl⟩
    | ok b => exact absurd (read_eq_ok_iff.1 hread) (h _ (Nat.le_of_lt_succ b.toNat_lt))

/-- There is nothing to read behind a mark that stands alone. -/
theorem read_eq_empty_iff : read s = .error .empty ↔ s ∈ ["", "0x", "0X", "0b", "0B"] := by
  constructor
  · intro h
    obtain ⟨base, rest, hsplit⟩ : ∃ base rest, split s.toList = (base, rest) := ⟨_, _, rfl⟩
    obtain ⟨mark, hmark, hs⟩ := exists_mark_of_split hsplit
    have hread : Numeral.read base 255 rest = .error .empty := by
      rw [read_of_split hsplit] at h
      cases hread : Numeral.read base 255 rest with
      | ok n =>
          rw [hread] at h
          cases h
      | error e =>
          rw [hread] at h
          obtain rfl : e = .empty := Except.error.inj h
          rfl
    have hrest := Numeral.read_eq_empty_iff.1 hread
    have hall : ∀ p ∈ marks, String.ofList p.1 ∈ ["", "0x", "0X", "0b", "0B"] := by decide
    rw [← String.ofList_toList (s := s), hs, hrest, List.append_nil]
    exact hall _ hmark
  · intro h
    simp only [List.mem_cons, List.not_mem_nil, or_false] at h
    rcases h with rfl | rfl | rfl | rfl | rfl <;> rfl

/-- A literal holds letters, digits and a plus sign. -/
theorem IsLiteral.eq_plus_or_isAlphanum (h : IsLiteral s v) {c : Char} (hc : c ∈ s.toList) :
    c = '+' ∨ c.isAlphanum = true := by
  obtain ⟨mark, base, cs, hmark, hs, hnumeral⟩ := h
  have hall : ∀ p ∈ marks, p.1.all Char.isAlphanum = true := by decide
  rw [hs] at hc
  rcases List.mem_append.1 hc with hc | hc
  · exact .inr (List.all_eq_true.1 (hall _ hmark) c hc)
  · rcases hnumeral.eq_plus_or_isDigit hc with hplus | ⟨d, hd⟩
    · exact .inl hplus
    · exact .inr (hd.isAlphanum (base_of_mem_marks hmark).2)

/-- **Byte literals are read as their values.**  A text is read as a byte exactly if it is a literal
of that value.  Every other text is refused: a literal of a larger value because it is too large,
however long it is; a text without a digit behind the place of a mark because there is nothing to
read; and any text with a character that is neither a letter nor a digit nor a plus sign, such as a
minus sign or a blank.  What is said of a refused text repeats it. -/
theorem literals_are_read (s : String) :
    (∀ b, read s = .ok b ↔ IsLiteral s b.toNat) ∧
    ((∃ e, read s = .error e) ↔ ∀ v ≤ 255, ¬IsLiteral s v) ∧
    (∀ v, 255 < v → IsLiteral s v → read s = .error .tooLarge) ∧
    (read s = .error .empty ↔ s ∈ ["", "0x", "0X", "0b", "0B"]) ∧
    (∀ c ∈ s.toList, c ≠ '+' → c.isAlphanum = false → ∃ e, read s = .error e) ∧
    ∀ e, ∃ before behind, message s e = before ++ s ++ behind := by
  refine ⟨fun b => read_eq_ok_iff, exists_read_eq_error_iff, fun v hlarge hv => ?_,
    read_eq_empty_iff, fun c hc hplus halpha => ?_, fun e => ⟨_, _, String.append_assoc⟩⟩
  · rw [read_of_isLiteral hv, if_neg (Nat.not_le.2 hlarge)]
  · refine exists_read_eq_error_iff.2 fun v _ hv => ?_
    rcases hv.eq_plus_or_isAlphanum hc with h | h
    · exact hplus h
    · rw [h] at halpha
      cases halpha

/-- Signs, zeros in front and letters of either case do no harm, but a ninth binary digit may. -/
theorem reads_signed_hexadecimal :
    IsLiteral "0X+00fF" 255 ∧ read "0X+00fF" = .ok 255 ∧
    IsLiteral "0b100000000" 256 ∧ read "0b100000000" = .error .tooLarge ∧
    '-' ∈ "-1".toList ∧ ∃ e, read "-1" = .error e := by
  have hbyte : IsLiteral "0X+00fF" 255 :=
    ⟨['0', 'X'], 16, _, by decide, rfl, ['+'], _, [0, 0, 15, 15], rfl, .inr rfl, by decide,
      .cons ⟨by decide, .inl rfl⟩ (.cons ⟨by decide, .inl rfl⟩ (.cons ⟨by decide, .inl rfl⟩
        (.cons ⟨by decide, .inr rfl⟩ .nil))), by decide⟩
  have hzero : Numeral.IsDigit 2 '0' 0 := ⟨by decide, .inl rfl⟩
  have hlarge : IsLiteral "0b100000000" 256 :=
    ⟨['0', 'b'], 2, _, by decide, rfl, [], _, [1, 0, 0, 0, 0, 0, 0, 0, 0], rfl, .inl rfl, by decide,
      .cons ⟨by decide, .inl rfl⟩ (.cons hzero (.cons hzero (.cons hzero (.cons hzero (.cons hzero
        (.cons hzero (.cons hzero (.cons hzero .nil)))))))), by decide⟩
  obtain ⟨hread, -, -, -, -, -⟩ := literals_are_read "0X+00fF"
  obtain ⟨-, -, htoo, -, -, -⟩ := literals_are_read "0b100000000"
  obtain ⟨-, -, -, -, hother, -⟩ := literals_are_read "-1"
  exact ⟨hbyte, (hread 255).2 hbyte, hlarge, htoo 256 (by decide) hlarge, by decide,
    hother '-' (by decide) (by decide) (by decide)⟩

end ByteLiteral

end ByteMachine
