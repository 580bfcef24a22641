/-
**Numerals read back.**

Numbers are printed through `Nat.toDigits`, with zeros in front where a column asks for them, and
read one digit after the other.  This module puts the two together: reading the digits printed for a
number gives the number, in every base up to sixteen and under every bound that the number keeps.

Main results:

* `ByteMachine.Numeral.exists_digitChar_of_mem_toDigits` — what a numeral consists of;
* `ByteMachine.Numeral.readDigits_toDigits` — **the digits of a number read back**;
* `ByteMachine.Numeral.toDigits_injective` — numbers with the same digits are the same;
* `ByteMachine.Numeral.readDigits_padded` — also with zeros in front of them;
* `ByteMachine.Numeral.length_padded` — a column that is wide enough is filled exactly;
* `ByteMachine.Numeral.readDigits_hexByte`, `hexByte_injective` — all this in upper case too;
* `ByteMachine.Numeral.hexAddress_injective`, `binaryByte_injective`, `repr_append_inj` — a written
  number tells the number, in every form.
-/

import ByteMachine.Numeral
import Mathlib.Algebra.Group.Nat.Defs
import Mathlib.Data.Nat.Init
import Mathlib.Tactic.SplitIfs

set_option relaxedAutoImplicit false
set_option autoImplicit false

namespace ByteMachine

namespace Numeral

variable {base bound acc n width : Nat}

/-! ### What a numeral consists of -/

/-- A numeral consists of digits of its base. -/
theorem exists_digitChar_of_mem_toDigits (hbase : 1 < base) {c : Char}
    (h : c ∈ Nat.toDigits base n) : ∃ d < base, c = Nat.digitChar d := by
  -- induction on the number: its last digit and those in front of it
  induction n using Nat.strong_induction_on with
  | _ n ih =>
      rw [Nat.toDigits_eq_if hbase] at h
      split at h
      · rename_i hlt
        exact ⟨n, hlt, List.mem_singleton.1 h⟩
      · rename_i hge
        rcases List.mem_append.1 h with h | h
        · exact ih (n / base) (Nat.div_lt_self (by omega) hbase) h
        · exact ⟨n % base, Nat.mod_lt n (by omega), List.mem_singleton.1 h⟩

/-- So does a padded one. -/
theorem exists_digitChar_of_mem_padded (hbase : 1 < base) {c : Char}
    (h : c ∈ padded base width n) : ∃ d < base, c = Nat.digitChar d := by
  rcases List.mem_append.1 h with hzeros | hdigits
  · exact ⟨0, by omega, List.eq_of_mem_replicate hzeros⟩
  · exact exists_digitChar_of_mem_toDigits hbase hdigits

theorem isAlphanum_of_mem_padded (hbase : 1 < base) (hbase' : base ≤ 16) {c : Char}
    (h : c ∈ padded base width n) : c.isAlphanum = true := by
  obtain ⟨d, hd, rfl⟩ := exists_digitChar_of_mem_padded hbase h
  have hall : ∀ d < 16, (Nat.digitChar d).isAlphanum = true := by decide
  exact hall d (by omega)

theorem isAlphanum_of_mem_hexByte {c : Char} (h : c ∈ (hexByte n).toList) :
    c.isAlphanum = true := by
  simp only [hexByte, String.toList_ofList, List.mem_map] at h
  obtain ⟨digit, hdigit, rfl⟩ := h
  obtain ⟨d, hd, rfl⟩ := exists_digitChar_of_mem_padded (by decide) hdigit
  have hall : ∀ d < 16, (Nat.digitChar d).toUpper.isAlphanum = true := by decide
  exact hall d hd

theorem newline_not_mem_hexByte (n : Nat) : '\n' ∉ (hexByte n).toList :=
  fun h => absurd (isAlphanum_of_mem_hexByte h) (by decide)

theorem isDigit_of_mem_repr {c : Char} (h : c ∈ n.repr.toList) : c.isDigit = true := by
  rw [Nat.toList_repr] at h
  exact Nat.isDigit_of_mem_toDigits (by decide) (by decide) h

theorem isAlphanum_of_mem_repr {c : Char} (h : c ∈ n.repr.toList) : c.isAlphanum = true := by
  rw [Char.isAlphanum, isDigit_of_mem_repr h, Bool.or_true]

/-- A column that is wide enough is filled exactly. -/
theorem length_padded (hbase : 1 < base) (hwidth : 0 < width) (h : n < base ^ width) :
    (padded base width n).length = width := by
  have hlen := (Nat.length_toDigits_le_iff hbase hwidth).2 h
  rw [padded, List.length_leftpad]
  omega

/-! ### Reading -/

theorem digitValue?_digitChar {d : Nat} (h : d < 16) : digitValue? (Nat.digitChar d) = some d := by
  have hall : ∀ d < 16, digitValue? (Nat.digitChar d) = some d := by decide
  exact hall d h

/-- Reading goes on behind what has been read. -/
theorem readDigits_append {xs : List Char} (ys : List Char)
    (h : readDigits base bound acc xs = .ok n) :
    readDigits base bound acc (xs ++ ys) = readDigits base bound n ys := by
  induction xs generalizing acc with
  | nil =>
      cases h
      rfl
  | cons x xs ih =>
      rw [readDigits] at h
      rw [List.cons_append, readDigits]
      split at h
      · cases h
      · split_ifs at h
        rename_i hdigit hbound
        rw [if_neg hdigit, if_neg hbound]
        exact ih h

theorem readDigits_digitChar {d : Nat} (hbase : base ≤ 16) (hd : d < base)
    (h : acc * base + d ≤ bound) :
    readDigits base bound acc [Nat.digitChar d] = .ok (acc * base + d) := by
  rw [readDigits, digitValue?_digitChar (by omega)]
  dsimp only
  rw [if_neg (by omega), if_neg (by omega), readDigits_nil]

/-- **The digits of a number read back.** -/
theorem readDigits_toDigits (hbase : 1 < base) (hbase' : base ≤ 16) (h : n ≤ bound) :
    readDigits base bound 0 (Nat.toDigits base n) = .ok n := by
  -- induction on the number: the digits in front of the last one stand for the quotient
  induction n using Nat.strong_induction_on with
  | _ n ih =>
      rw [Nat.toDigits_eq_if hbase]
      split
      · rename_i hlt
        have hvalue : 0 * base + n = n := by omega
        rw [readDigits_digitChar hbase' hlt (by omega), hvalue]
      · rename_i hge
        have hsmaller : n / base < n := Nat.div_lt_self (by omega) hbase
        have hvalue : n / base * base + n % base = n := Nat.div_add_mod' n base
        have hdigit : n % base < base := Nat.mod_lt n (by omega)
        rw [readDigits_append _ (ih (n / base) hsmaller (by omega)),
          readDigits_digitChar hbase' hdigit (by omega), hvalue]

/-- Numbers that read back are the same if they are written alike. -/
theorem eq_of_reads {written : Nat → List Char} {m : Nat}
    (hreads : ∀ k bound, k ≤ bound → readDigits base bound 0 (written k) = .ok k)
    (h : written n = written m) : n = m := by
  have hn := hreads n (max n m) (Nat.le_max_left n m)
  rw [h, hreads m (max n m) (Nat.le_max_right n m)] at hn
  exact (Except.ok.inj hn).symm

/-- **Numbers with the same digits are the same.** -/
theorem toDigits_injective (hbase : 1 < base) (hbase' : base ≤ 16) {m : Nat}
    (h : Nat.toDigits base n = Nat.toDigits base m) : n = m :=
  eq_of_reads (fun _ _ => readDigits_toDigits hbase hbase') h

theorem repr_injective {m : Nat} (h : n.repr = m.repr) : n = m := by
  rw [← String.toList_inj, Nat.toList_repr, Nat.toList_repr] at h
  exact toDigits_injective (by decide) (by decide) h

/-- A number ends where its digits end. -/
theorem repr_append_inj {m : Nat} {separator s s' : String} {c : Char} {cs : List Char}
    (hseparator : separator.toList = c :: cs) (hc : c.isDigit = false)
    (h : n.repr ++ (separator ++ s) = m.repr ++ (separator ++ s')) : n = m ∧ s = s' := by
  have htake : ∀ (k : Nat) (t : String),
      (k.repr ++ (separator ++ t)).toList.takeWhile Char.isDigit = k.repr.toList := by
    intro k t
    rw [String.toList_append, String.toList_append, hseparator,
      List.takeWhile_append_of_pos fun d => isDigit_of_mem_repr, List.cons_append,
      List.takeWhile_cons_of_neg (by rw [hc]; exact Bool.false_ne_true), List.append_nil]
  have hdigits := congrArg (fun t : String => t.toList.takeWhile Char.isDigit) h
  simp only [htake] at hdigits
  obtain rfl := repr_injective (String.toList_inj.1 hdigits)
  exact ⟨rfl, (String.append_right_inj _).1 ((String.append_right_inj _).1 h)⟩

/-- Zeros in front of a numeral do not count. -/
theorem readDigits_zeros (hbase : 0 < base) (k : Nat) (cs : List Char) :
    readDigits base bound 0 (List.replicate k '0' ++ cs) = readDigits base bound 0 cs := by
  have hzero : digitValue? '0' = some 0 := by decide
  induction k with
  | zero => rfl
  | succ k ih =>
      rw [List.replicate_succ, List.cons_append, readDigits, hzero]
      dsimp only
      rw [if_neg (by omega), if_neg (by omega), Nat.zero_mul, Nat.add_zero, ih]

/-- The digits of a number read back from a column. -/
theorem readDigits_padded (hbase : 1 < base) (hbase' : base ≤ 16) (h : n ≤ bound) :
    readDigits base bound 0 (padded base width n) = .ok n := by
  rw [padded, List.leftpad, readDigits_zeros (by omega), readDigits_toDigits hbase hbase' h]

theorem padded_injective (hbase : 1 < base) (hbase' : base ≤ 16) {m : Nat}
    (h : padded base width n = padded base width m) : n = m :=
  eq_of_reads (fun _ _ => readDigits_padded hbase hbase') h

/-- **Addresses written alike are the same,** in columns of one width. -/
theorem hexAddress_injective {m : Nat} (h : hexAddress width n = hexAddress width m) : n = m :=
  padded_injective (by decide) (by decide)
    (String.ofList_injective ((String.append_right_inj "0x").1 h))

/-- **Bytes written alike are the same.** -/
theorem binaryByte_injective {b b' : UInt8} (h : binaryByte b = binaryByte b') : b = b' :=
  UInt8.toNat_inj.1 (padded_injective (by decide) (by decide)
    (String.ofList_injective ((String.append_right_inj "0b").1 h)))

/-- A byte takes eight binary digits. -/
theorem length_binaryByte (b : UInt8) : (binaryByte b).toList.length = 10 := by
  have hdigits : (padded 2 8 b.toNat).length = 8 :=
    length_padded (by decide) (by decide) b.toNat_lt
  simp [binaryByte, hdigits]

/-! ### Upper case -/

theorem digitValue?_toUpper_digitChar {d : Nat} (h : d < 16) :
    digitValue? (Nat.digitChar d).toUpper = some d := by
  have hall : ∀ d < 16, digitValue? (Nat.digitChar d).toUpper = some d := by decide
  exact hall d h

/-- Digits in upper case are read as the same number. -/
theorem readDigits_map_toUpper {cs : List Char} (h : ∀ c ∈ cs, ∃ d < 16, c = Nat.digitChar d) :
    readDigits base bound acc (cs.map Char.toUpper) = readDigits base bound acc cs := by
  induction cs generalizing acc with
  | nil => rfl
  | cons c cs ih =>
      obtain ⟨⟨d, hd, rfl⟩, hcs⟩ := List.forall_mem_cons.1 h
      rw [List.map_cons, readDigits, readDigits, digitValue?_toUpper_digitChar hd,
        digitValue?_digitChar hd]
      simp only [ih hcs]

/-- **A number written in upper-case hexadecimal reads back.** -/
theorem readDigits_hexByte (h : n ≤ bound) :
    readDigits 16 bound 0 (hexByte n).toList = .ok n := by
  rw [hexByte, String.toList_ofList,
    readDigits_map_toUpper fun c => exists_digitChar_of_mem_padded (by decide),
    readDigits_padded (by decide) (by decide) h]

/-- **Numbers written alike are the same,** however many digits they have. -/
theorem hexByte_injective {m : Nat} (h : hexByte n = hexByte m) : n = m :=
  eq_of_reads (fun _ _ => readDigits_hexByte) (String.toList_inj.2 h)

/-- A byte takes two digits. -/
theorem length_hexByte (b : UInt8) : (hexByte b.toNat).toList.length = 2 := by
  rw [hexByte, String.toList_ofList, List.length_map]
  exact length_padded (by decide) (by decide) b.toNat_lt

end Numeral

end ByteMachine
