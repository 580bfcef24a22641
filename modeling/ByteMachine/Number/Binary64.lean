/-
**Binary floating-point numbers.**

The finite, non-negative numbers of the 64-bit binary format: `m · 2 ^ e` with `m < 2 ^ 53` and
`e` between `-1074` and `971`.  Arithmetic is exact arithmetic on fractions followed by one rounding
to the nearest number of the format, a tie going to the even significand; a result that passes the
format has no value.

Main definitions:

* `ByteMachine.Binary64`, `Binary64.fraction` — the numbers and their exact values;
* `ByteMachine.Binary64.ofFraction?` — rounding a fraction;
* `ByteMachine.Binary64.mul?`, `Binary64.div?` — the rounded product and quotient.
-/

set_option relaxedAutoImplicit false
set_option autoImplicit false

namespace ByteMachine

/-- The quotient rounded to the nearest natural number, a tie to the even one. -/
def roundDiv (num den : Nat) : Nat :=
  let q := num / den
  let r := num % den
  if 2 * r < den ∨ (2 * r = den ∧ q % 2 = 0) then q else q + 1

/-- **A finite, non-negative number of the 64-bit binary format:** `significand · 2 ^ exponent`. -/
structure Binary64 where
  significand : Nat
  exponent : Int
  deriving DecidableEq, Repr

namespace Binary64

/-- The least exponent. -/
def minExponent : Int := -1074

/-- The greatest exponent. -/
def maxExponent : Int := 971

/-- The least significand of 53 bits, `2 ^ 52`. -/
def leastNormal : Nat := 0x10000000000000

/-- Zero. -/
def zero : Binary64 := ⟨0, minExponent⟩

/-- Whether a number is zero. -/
def isZero (x : Binary64) : Bool := x.significand == 0

/-- The fraction `num / den` divided by `2 ^ e`. -/
def scale (num den : Nat) (e : Int) : Nat × Nat :=
  if 0 ≤ e then (num, den * Nat.pow 2 e.toNat) else (num * Nat.pow 2 (-e).toNat, den)

/-- The exact value as a fraction. -/
def fraction (x : Binary64) : Nat × Nat := scale x.significand 1 (-x.exponent)

/-- The exponent for which the significand of `num / den` has 53 bits, or the least one. -/
def exponentOf (num den : Nat) : Int :=
  let e : Int := (Nat.log2 num : Int) - Nat.log2 den - 52
  let (n, d) := scale num den e
  max (if n < d * leastNormal then e - 1 else e) minExponent

/-- **The number nearest to a fraction;** none if it passes the format. -/
def ofFraction? (num den : Nat) : Option Binary64 :=
  if num = 0 then some zero
  else
    let e := exponentOf num den
    let (n, d) := scale num den e
    let m := roundDiv n d
    let (m, e) := if m = 2 * leastNormal then (leastNormal, e + 1) else (m, e)
    if e ≤ maxExponent then some ⟨m, e⟩ else none

/-- The product, rounded. -/
def mul? (x y : Binary64) : Option Binary64 :=
  let (a, b) := x.fraction
  let (c, d) := y.fraction
  ofFraction? (a * c) (b * d)

/-- The quotient, rounded. -/
def div? (x y : Binary64) : Option Binary64 :=
  let (a, b) := x.fraction
  let (c, d) := y.fraction
  ofFraction? (a * d) (b * c)

end Binary64

end ByteMachine
