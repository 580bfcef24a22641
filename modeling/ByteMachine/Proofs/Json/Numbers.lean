/-
**Numbers as JSON writes them.**

A number has an optional minus, digits without a zero in front, and then perhaps a point with digits
and an exponent with digits.  The reader takes exactly these characters, whatever it makes of them:
a number, or an error if the value is too large.  Of an integer it makes the integer, as long as
that fits 64 bits; a longer one is no integer for it any more.

Main definitions:

* `ByteMachine.Json.IsNumber`, with `IsWhole`, `IsFraction` and `IsExponent` — **the grammar of
  numbers**;
* `ByteMachine.Json.Oversized` — numbers that are too large to be read;
* `ByteMachine.Json.integerText` — the text of an integer.

Main results:

* `ByteMachine.Json.exists_reads_number` — **a number is read up to its end**;
* `ByteMachine.Json.reads_number_toDigits` — **a natural number of 64 bits is read as itself**;
* `ByteMachine.Json.eq_of_number_integerText` — and no other integer is read as a natural number.
-/

import ByteMachine.Proofs.Json.Reading
import Mathlib.Algebra.Group.Nat.Defs
import Mathlib.Data.Nat.Init

set_option relaxedAutoImplicit false
set_option autoImplicit false

namespace ByteMachine

namespace Json

variable {cs ds rest whole fraction exponent : List Char} {c : Char} {n s : Nat} {e : Int}

/-! ### The grammar -/

/-- Decimal digits, at least one. -/
structure IsDigits (ds : List Char) : Prop where
  ne_nil : ds ≠ []
  all : ∀ c ∈ ds, isDigit c = true

/-- The digits of a whole number: a zero stands in front of no other one. -/
structure IsWhole (ds : List Char) : Prop extends IsDigits ds where
  zero : ds.head? = some '0' → ds.length = 1

/-- A point with digits, or nothing. -/
inductive IsFraction : List Char → Prop
  | none : IsFraction []
  | some {ds : List Char} (h : IsDigits ds) : IsFraction ('.' :: ds)

/-- The mark of an exponent with digits, perhaps with a sign, or nothing. -/
inductive IsExponent : List Char → Prop
  | none : IsExponent []
  | some {mark : Char} {sign ds : List Char} (hmark : mark = 'e' ∨ mark = 'E')
      (hsign : sign = [] ∨ sign = ['+'] ∨ sign = ['-']) (h : IsDigits ds) :
      IsExponent (mark :: (sign ++ ds))

/-- A number without its sign. -/
inductive IsMagnitude : List Char → Prop
  | mk {whole fraction exponent : List Char} (hw : IsWhole whole) (hf : IsFraction fraction)
      (he : IsExponent exponent) : IsMagnitude (whole ++ (fraction ++ exponent))

/-- **The characters write a number.** -/
inductive IsNumber : List Char → Prop
  | plus {cs : List Char} (h : IsMagnitude cs) : IsNumber cs
  | minus {cs : List Char} (h : IsMagnitude cs) : IsNumber ('-' :: cs)

/-- **The characters write a number that is too large to be read.** -/
def Oversized (cs : List Char) : Prop := IsNumber cs ∧ ∃ e, number cs = .error e

/-! ### Digits -/

theorem isDigit_of_continuesNumber (h : continuesNumber c = false) : isDigit c = false := by
  simp only [continuesNumber, Bool.or_eq_false_iff] at h
  exact h.1.1.1

/-- No digit follows where no number goes on. -/
theorem Ends.no_digit (h : Ends rest) : ∀ c ∈ rest.head?, isDigit c = false :=
  fun c hc => isDigit_of_continuesNumber (h c hc)

theorem someDigits_append (h : IsDigits ds) (hrest : ∀ c ∈ rest.head?, isDigit c = false) :
    someDigits (ds ++ rest) = .ok (ds.map digitValue, rest) := by
  have htake : rest.takeWhile isDigit = [] := by
    cases rest with
    | nil => rfl
    | cons c rest => rw [List.takeWhile_cons_of_neg (by rw [hrest c rfl]; exact Bool.false_ne_true)]
  have hdrop : rest.dropWhile isDigit = rest := by
    cases rest with
    | nil => rfl
    | cons c rest => rw [List.dropWhile_cons_of_neg (by rw [hrest c rfl]; exact Bool.false_ne_true)]
  have hdigits : digits (ds ++ rest) = .ok (ds.map digitValue, rest) := by
    change Except.ok (((ds ++ rest).takeWhile isDigit).map digitValue,
      (ds ++ rest).dropWhile isDigit) = _
    rw [List.takeWhile_append_of_pos h.all, List.dropWhile_append_of_pos h.all, htake, hdrop,
      List.append_nil]
  cases ds with
  | nil => exact absurd rfl h.ne_nil
  | cons d ds =>
      have hd := h.all d List.mem_cons_self
      rw [someDigits, bind_of_ok (x := get) rfl]
      dsimp only [List.cons_append]
      rw [if_pos hd]
      exact hdigits

theorem isDigits_toDigits (n : Nat) : IsDigits (Nat.toDigits 10 n) := by
  -- induction on the number: its last digit and those in front of it
  have hchar : ∀ d < 10, isDigit (Nat.digitChar d) = true := by decide
  induction n using Nat.strong_induction_on with
  | _ n ih =>
      rw [Nat.toDigits_eq_if (by decide)]
      split
      · rename_i hlt
        refine ⟨List.cons_ne_nil _ _, fun c hc => ?_⟩
        rw [List.mem_singleton.1 hc]
        exact hchar n hlt
      · rename_i hge
        refine ⟨by simp, fun c hc => ?_⟩
        rcases List.mem_append.1 hc with hc | hc
        · exact (ih (n / 10) (Nat.div_lt_self (by omega) (by decide))).all c hc
        · rw [List.mem_singleton.1 hc]
          exact hchar _ (Nat.mod_lt n (by decide))

/-- Only the digits of zero begin with a zero. -/
theorem isWhole_toDigits (n : Nat) : IsWhole (Nat.toDigits 10 n) := by
  refine ⟨isDigits_toDigits n, ?_⟩
  have hpositive : ∀ n, 0 < n → (Nat.toDigits 10 n).head? ≠ some '0' := by
    intro n
    induction n using Nat.strong_induction_on with
    | _ n ih =>
        intro hn
        rw [Nat.toDigits_eq_if (by decide)]
        split
        · rename_i hlt
          have hchar : ∀ d < 10, 0 < d → some (Nat.digitChar d) ≠ some '0' := by decide
          exact hchar n hlt hn
        · rename_i hge
          have hfront := ih (n / 10) (Nat.div_lt_self (by omega) (by decide)) (by omega)
          obtain ⟨d, ds, hds⟩ := List.exists_cons_of_ne_nil (isDigits_toDigits (n / 10)).ne_nil
          rw [hds] at hfront ⊢
          exact hfront
  intro hzero
  cases n with
  | zero => rfl
  | succ n => exact absurd hzero (hpositive (n + 1) (Nat.succ_pos n))

/-! ### Reading up to the end -/

theorem exists_reads_decimal (s : Nat) (e : Int) : ∃ r, Reads (decimal s e) [] r := by
  unfold decimal
  cases decimal? s e with
  | some x => exact ⟨_, reads_pure x⟩
  | none => exact ⟨_, reads_throw _ []⟩

/-- No digit stands behind the digits in front of an exponent. -/
theorem IsExponent.no_digit (h : IsExponent exponent) (hrest : Ends rest) :
    ∀ c ∈ (exponent ++ rest).head?, isDigit c = false := by
  cases h with
  | none => exact hrest.no_digit
  | some hmark =>
      rintro _ ⟨⟩
      rcases hmark with rfl | rfl <;> decide

/-- Nor in front of a fraction. -/
theorem IsFraction.no_digit (hf : IsFraction fraction) (he : IsExponent exponent)
    (hrest : Ends rest) : ∀ c ∈ (fraction ++ (exponent ++ rest)).head?, isDigit c = false := by
  cases hf with
  | none => exact he.no_digit hrest
  | some =>
      rintro _ ⟨⟩
      decide

/-- Where no exponent stands, none is seen. -/
theorem next_exponent_of_ends (hrest : Ends rest) : next 'e' 'E' rest = .ok (false, rest) := by
  cases rest with
  | nil => rfl
  | cons c rest =>
      have hc := hrest c rfl
      simp only [continuesNumber, Bool.or_eq_false_iff, beq_eq_false_iff_ne] at hc
      change Except.ok (decide (c = 'e') || decide (c = 'E'), c :: rest) = _
      rw [decide_eq_false hc.1.2, decide_eq_false hc.2]
      rfl

theorem next_exponent {mark : Char} (hmark : mark = 'e' ∨ mark = 'E') (rest : List Char) :
    next 'e' 'E' (mark :: rest) = .ok (true, mark :: rest) := by
  rcases hmark with rfl | rfl <;> rfl

theorem next_point_of_ne (h : ∀ c ∈ rest.head?, c ≠ '.') :
    next '.' '.' rest = .ok (false, rest) := by
  cases rest with
  | nil => rfl
  | cons c rest =>
      have hc := h c rfl
      change Except.ok (decide (c = '.') || decide (c = '.'), c :: rest) = _
      rw [decide_eq_false hc]
      rfl

/-- What is made of the digits of an exponent. -/
def exponentOf (s : Nat) (e : Int) (minus : Bool) (ds : List Nat) : Reader Binary64 :=
  let written := ds.foldl (fun n d => n * 10 + d) 0
  if maxWrittenExponent < written then
    if s ≠ 0 ∧ !minus then throw .malformed else return .zero
  else decimal s (if minus then e - (written : Int) else e + (written : Int))

/-- The exponent is read behind its sign. -/
theorem exponentPart_eq {mark : Char} {sign : List Char}
    (hsign : sign = [] ∨ sign = ['+'] ∨ sign = ['-']) (h : IsDigits ds) (s : Nat) (e : Int) :
    exponentPart s e (mark :: (sign ++ ds) ++ rest) =
      (someDigits >>= exponentOf s e (sign == ['-'])) (ds ++ rest) := by
  rcases hsign with rfl | rfl | rfl
  · cases ds with
    | nil => exact absurd rfl h.ne_nil
    | cons d ds =>
        have hd := h.all d List.mem_cons_self
        have hplus : d ≠ '+' := by
          rintro rfl
          cases hd
        have hminus : d ≠ '-' := by
          rintro rfl
          cases hd
        rw [exponentPart, bind_of_ok (x := advance) rfl, bind_of_ok (x := get) rfl]
        simp only [List.nil_append, List.cons_append, List.tail_cons, List.cons.injEq, hplus,
          hminus, false_and, false_implies, implies_true]
        rfl
  · rfl
  · rfl

theorem exists_reads_exponentOf (s : Nat) (e : Int) (minus : Bool) (ds : List Nat) :
    ∃ r, Reads (exponentOf s e minus ds) [] r := by
  unfold exponentOf
  dsimp only
  split
  · split
    · exact ⟨_, reads_throw _ []⟩
    · exact ⟨_, reads_pure _⟩
  · exact exists_reads_decimal _ _

theorem exists_reads_exponentPart {mark : Char} {sign : List Char}
    (hsign : sign = [] ∨ sign = ['+'] ∨ sign = ['-']) (h : IsDigits ds) (s : Nat) (e : Int) :
    ∃ r, Reads (exponentPart s e) (mark :: (sign ++ ds)) r := by
  obtain ⟨r, hr⟩ := exists_reads_exponentOf s e (sign == ['-']) (ds.map digitValue)
  refine ⟨r, fun rest hrest => ?_⟩
  rw [exponentPart_eq hsign h, bind_of_ok (someDigits_append h hrest.no_digit)]
  exact hr rest hrest

/-- A reader that looks for an exponent finds it, if there is one. -/
theorem exists_reads_exponent {α : Type} {found plain : Reader α} (he : IsExponent exponent)
    (hfound : ∀ {mark : Char} {sign ds : List Char}, sign = [] ∨ sign = ['+'] ∨ sign = ['-'] →
      IsDigits ds → ∃ r, Reads found (mark :: (sign ++ ds)) r)
    (hplain : ∃ r, Reads plain [] r) :
    ∃ r, Reads (do if ← next 'e' 'E' then found else plain) exponent r := by
  cases he with
  | none =>
      obtain ⟨r, hr⟩ := hplain
      refine ⟨r, fun rest hrest => ?_⟩
      rw [List.nil_append, bind_of_ok (next_exponent_of_ends hrest)]
      exact hr rest hrest
  | some hmark hsign h =>
      obtain ⟨r, hr⟩ := hfound hsign h
      refine ⟨r, fun rest hrest => ?_⟩
      rw [List.cons_append, bind_of_ok (next_exponent hmark _)]
      exact hr rest hrest

theorem exists_reads_fractionPart (h : IsDigits ds) (he : IsExponent exponent) (s : Nat) (e : Int) :
    ∃ r, Reads (fractionPart s e) ('.' :: (ds ++ exponent)) r := by
  have hbehind : ∀ s e, ∃ r,
      Reads (do if ← next 'e' 'E' then exponentPart s e else decimal s e) exponent r := fun s e =>
    exists_reads_exponent he (fun hsign h => exists_reads_exponentPart hsign h s e)
      (exists_reads_decimal s e)
  obtain ⟨r, hr⟩ := hbehind (significand s (ds.map digitValue)).1
    (e - (((ds.map digitValue).length : Int) - (significand s (ds.map digitValue)).2.length))
  refine ⟨r, fun rest hrest => ?_⟩
  have hread := someDigits_append h (he.no_digit hrest)
  rw [fractionPart, bind_of_ok (x := advance) rfl, List.cons_append, List.tail_cons,
    List.append_assoc, bind_of_ok hread]
  exact hr rest hrest

/-- What is made of a number once its whole digits are read. -/
def magnitudeOf (s : Nat) (lost : List Nat) : Reader Magnitude := do
  if ← next '.' '.' then return .float (← fractionPart s lost.length)
  else if ← next 'e' 'E' then return .float (← exponentPart s lost.length)
  else if lost = [] then return .natural s
  else return .float (← decimal s lost.length)

theorem magnitude_append (h : IsWhole whole) (hrest : ∀ c ∈ rest.head?, isDigit c = false) :
    magnitude (whole ++ rest) =
      magnitudeOf (significand 0 (whole.map digitValue)).1
        (significand 0 (whole.map digitValue)).2 rest := by
  have hread := someDigits_append h.toIsDigits hrest
  have hhead : (whole ++ rest).head? = whole.head? := by
    rw [List.head?_append]
    obtain ⟨d, ds, rfl⟩ := List.exists_cons_of_ne_nil h.ne_nil
    rfl
  have hzero : ¬((whole ++ rest).head? = some '0' ∧ 1 < (whole.map digitValue).length) := by
    rw [hhead, List.length_map]
    rintro ⟨hfirst, hlen⟩
    have hone := h.zero hfirst
    omega
  rw [magnitude, bind_of_ok (x := get) rfl, bind_of_ok hread, if_neg hzero]
  rfl

/-- No point stands in front of an exponent. -/
theorem IsExponent.no_point (h : IsExponent exponent) (hrest : Ends rest) :
    ∀ c ∈ (exponent ++ rest).head?, c ≠ '.' := by
  cases h with
  | none =>
      rintro c hc rfl
      exact absurd (hrest _ hc) (by decide)
  | some hmark =>
      rintro _ ⟨⟩
      rcases hmark with rfl | rfl <;> decide

theorem exists_reads_magnitudeOf (hf : IsFraction fraction) (he : IsExponent exponent) (s : Nat)
    (lost : List Nat) : ∃ r, Reads (magnitudeOf s lost) (fraction ++ exponent) r := by
  cases hf with
  | none =>
      have hplain : ∃ r, Reads (if lost = [] then return Magnitude.natural s
          else return .float (← decimal s lost.length)) [] r := by
        split
        · exact ⟨_, reads_pure _⟩
        · obtain ⟨r, hr⟩ := exists_reads_decimal s lost.length
          exact ⟨_, hr.bind_pure Magnitude.float⟩
      obtain ⟨r, hr⟩ := exists_reads_exponent he (fun hsign h => by
        obtain ⟨r, hr⟩ := exists_reads_exponentPart hsign h s lost.length
        exact ⟨_, hr.bind_pure Magnitude.float⟩) hplain
      refine ⟨r, fun rest hrest => ?_⟩
      rw [magnitudeOf, List.nil_append, bind_of_ok (next_point_of_ne (he.no_point hrest))]
      exact hr rest hrest
  | @some ds h =>
      obtain ⟨r, hr⟩ := exists_reads_fractionPart h he s lost.length
      refine ⟨r.map .float, fun rest hrest => ?_⟩
      rw [magnitudeOf, bind_of_ok (show next '.' '.' _ = .ok (true, _) from rfl)]
      exact hr.bind_pure Magnitude.float rest hrest

theorem exists_reads_magnitude (h : IsMagnitude cs) : ∃ r, Reads magnitude cs r := by
  cases h with
  | @mk whole fraction exponent hw hf he =>
      obtain ⟨r, hr⟩ := exists_reads_magnitudeOf hf he (significand 0 (whole.map digitValue)).1
        (significand 0 (whole.map digitValue)).2
      refine ⟨r, fun rest hrest => ?_⟩
      have hdigit := hf.no_digit he hrest
      rw [← List.append_assoc fraction] at hdigit
      rw [List.append_assoc, magnitude_append hw hdigit]
      exact hr rest hrest

/-- A number without a minus does not begin with one. -/
theorem IsMagnitude.exists_digit (h : IsMagnitude cs) :
    ∃ d ds, cs = d :: ds ∧ isDigit d = true := by
  cases h with
  | mk hw =>
      obtain ⟨d, ds, rfl⟩ := List.exists_cons_of_ne_nil hw.ne_nil
      exact ⟨d, _, rfl, hw.all d List.mem_cons_self⟩

/-- What is read of a number without a minus. -/
def Magnitude.number : Magnitude → Number
  | natural n => .natural n
  | float x => .float false x

theorem number_of_digit (hc : isDigit c = true) (rest : List Char) :
    number (c :: rest) = (magnitude >>= fun x => pure x.number) (c :: rest) := by
  have hminus : c ≠ '-' := by
    rintro rfl
    cases hc
  rw [number, bind_of_ok (x := get) rfl]
  simp only [List.cons.injEq, hminus, false_and, false_implies, implies_true]
  refine congrFun (congrArg (magnitude >>= ·) (funext fun x => ?_)) _
  cases x <;> rfl

/-- **A number is read up to its end,** or refused. -/
theorem exists_reads_number (h : IsNumber cs) : ∃ r, Reads number cs r := by
  cases h with
  | plus h =>
      obtain ⟨r, hr⟩ := exists_reads_magnitude h
      obtain ⟨d, ds, rfl, hd⟩ := h.exists_digit
      refine ⟨r.map Magnitude.number, fun rest hrest => ?_⟩
      rw [List.cons_append, number_of_digit hd]
      exact hr.bind_pure Magnitude.number rest hrest
  | minus h =>
      obtain ⟨r, hr⟩ := exists_reads_magnitude h
      exact ⟨r.map negate, fun rest hrest => hr.bind_pure negate rest hrest⟩

/-! ### Integers -/

/-- The value of digits behind a number that has been read. -/
def digitsValue (s : Nat) (ds : List Nat) : Nat := ds.foldl (fun n d => n * 10 + d) s

theorem le_digitsValue (s : Nat) (ds : List Nat) : s ≤ digitsValue s ds := by
  induction ds generalizing s with
  | nil => exact Nat.le_refl s
  | cons d ds ih =>
      have hle := ih (s * 10 + d)
      change s ≤ digitsValue (s * 10 + d) ds
      omega

/-- Digits that fit are all taken. -/
theorem significand_of_lt {ds : List Nat} (h : digitsValue s ds < UInt64.size) :
    significand s ds = (digitsValue s ds, []) := by
  induction ds generalizing s with
  | nil => rfl
  | cons d ds ih =>
      have hle := le_digitsValue (s * 10 + d) ds
      rw [significand, if_pos (Nat.lt_of_le_of_lt hle h)]
      exact ih h

/-- Of digits that do not fit some are left over. -/
theorem significand_of_le {ds : List Nat} (hs : s < UInt64.size)
    (h : UInt64.size ≤ digitsValue s ds) : (significand s ds).2 ≠ [] := by
  induction ds generalizing s with
  | nil => exact absurd h (Nat.not_le.2 hs)
  | cons d ds ih =>
      rw [significand]
      split
      · rename_i hlt
        exact ih hlt h
      · exact List.cons_ne_nil d ds

theorem digitsValue_toDigits (n : Nat) :
    digitsValue 0 ((Nat.toDigits 10 n).map digitValue) = n := by
  -- induction on the number: the digits in front of the last one stand for the quotient
  have hchar : ∀ d < 10, digitValue (Nat.digitChar d) = d := by decide
  induction n using Nat.strong_induction_on with
  | _ n ih =>
      rw [Nat.toDigits_eq_if (by decide)]
      split
      · rename_i hlt
        change 0 * 10 + digitValue (Nat.digitChar n) = n
        rw [hchar n hlt]
        omega
      · rename_i hge
        have hfront := ih (n / 10) (Nat.div_lt_self (by omega) (by decide))
        rw [digitsValue] at hfront ⊢
        rw [List.map_append, List.foldl_append, hfront]
        change n / 10 * 10 + digitValue (Nat.digitChar (n % 10)) = n
        rw [hchar _ (Nat.mod_lt n (by decide))]
        omega

theorem magnitude_toDigits (n : Nat) (hrest : Ends rest) :
    magnitude (Nat.toDigits 10 n ++ rest) =
      magnitudeOf (significand 0 ((Nat.toDigits 10 n).map digitValue)).1
        (significand 0 ((Nat.toDigits 10 n).map digitValue)).2 rest :=
  magnitude_append (isWhole_toDigits n) hrest.no_digit

/-- Behind a whole number that ends there is no point and no exponent. -/
theorem magnitudeOf_of_ends (hrest : Ends rest) (s : Nat) (lost : List Nat) :
    magnitudeOf s lost rest = (if lost = [] then pure (Magnitude.natural s) else
      decimal s lost.length >>= fun x => pure (Magnitude.float x) : Reader Magnitude) rest := by
  have hpoint : ∀ c ∈ rest.head?, c ≠ '.' := by
    rintro c hc rfl
    exact absurd (hrest _ hc) (by decide)
  rw [magnitudeOf, bind_of_ok (next_point_of_ne hpoint)]
  simp only [Bool.false_eq_true, if_false]
  rw [bind_of_ok (next_exponent_of_ends hrest)]
  simp only [Bool.false_eq_true, if_false]

/-- **The text of an integer.** -/
def integerText : Int → List Char
  | .ofNat n => Nat.toDigits 10 n
  | .negSucc n => '-' :: Nat.toDigits 10 (n + 1)

theorem isMagnitude_toDigits (n : Nat) : IsMagnitude (Nat.toDigits 10 n) := by
  have h := IsMagnitude.mk (isWhole_toDigits n) .none .none
  rwa [List.append_nil, List.append_nil] at h

theorem isNumber_integerText (k : Int) : IsNumber (integerText k) := by
  cases k with
  | ofNat n => exact .plus (isMagnitude_toDigits n)
  | negSucc n => exact .minus (isMagnitude_toDigits (n + 1))

/-- **A natural number of 64 bits is read as itself.** -/
theorem reads_number_toDigits (h : n < UInt64.size) :
    Reads number (Nat.toDigits 10 n) (.ok (.natural n)) := by
  intro rest hrest
  obtain ⟨d, ds, hds, hd⟩ := (isMagnitude_toDigits n).exists_digit
  have hvalue := digitsValue_toDigits n
  have hfits : digitsValue 0 ((Nat.toDigits 10 n).map digitValue) < UInt64.size := by
    rwa [hvalue]
  have hmagnitude := magnitude_toDigits n hrest
  rw [significand_of_lt hfits, hvalue, magnitudeOf_of_ends hrest, if_pos rfl] at hmagnitude
  rw [hds, List.cons_append] at hmagnitude ⊢
  rw [number_of_digit hd, bind_of_ok hmagnitude]
  rfl

/-- A natural number that does not fit is none any more. -/
theorem magnitude_toDigits_ne_natural (h : UInt64.size ≤ n) {m : Nat} :
    magnitude (Nat.toDigits 10 n) ≠ .ok (.natural m, rest) := by
  intro hread
  have hlost : (significand 0 ((Nat.toDigits 10 n).map digitValue)).2 ≠ [] :=
    significand_of_le (by decide) (by rwa [digitsValue_toDigits])
  have hmagnitude := magnitude_toDigits n ends_nil
  rw [List.append_nil, hread, magnitudeOf_of_ends ends_nil, if_neg hlost] at hmagnitude
  obtain ⟨x, -, hx⟩ := exists_of_bind_pure hmagnitude.symm
  cases hx

/-- **And no other integer is read as a natural number.** -/
theorem eq_of_number_integerText {k : Int} {m : Nat}
    (h : number (integerText k) = .ok (.natural m, rest)) : k = m := by
  cases k with
  | ofNat n =>
      rcases Nat.lt_or_ge n UInt64.size with hlt | hge
      · cases h.symm.trans (reads_number_toDigits hlt).self
        rfl
      · obtain ⟨d, ds, hds, hd⟩ := (isMagnitude_toDigits n).exists_digit
        change number (Nat.toDigits 10 n) = _ at h
        rw [hds, number_of_digit hd, ← hds] at h
        obtain ⟨x, hx, hnatural⟩ := exists_of_bind_pure h
        cases x with
        | natural n' => exact absurd hx (magnitude_toDigits_ne_natural hge)
        | float x => cases hnatural
  | negSucc n =>
      obtain ⟨x, -, hnatural⟩ := exists_of_bind_pure (g := negate) h
      cases x with
      | natural n' =>
          rw [negate] at hnatural
          split at hnatural <;> cases hnatural
      | float x => cases hnatural

end Json

end ByteMachine
