/-
**The shortest decimal text of a number.**

A binary floating-point number is written with the fewest decimal digits from which it is read back,
and of several such decimals with the one nearest to it.  The decimals that are read back as a
number fill the interval half way to its neighbours; for one, two, … digits the two decimals next to
the number are tried, and the first count with a decimal inside the interval wins.

Small and moderate numbers are written positionally, with at least one digit behind the point, the
others in scientific notation.

Main definitions:

* `ByteMachine.Binary64.shortest` — the digits and the exponent of the first of them;
* `ByteMachine.Binary64.text` — the written form.
-/

import ByteMachine.Number.Binary64

set_option relaxedAutoImplicit false
set_option autoImplicit false

namespace ByteMachine

namespace Binary64

/-- Half the gap down to the next number, in quarters of the last place: below a power of two the
gap is half as wide. -/
def gapBelow (x : Binary64) : Nat :=
  if x.significand = leastNormal ∧ minExponent < x.exponent then 1 else 2

/-- Whether the decimal `d · 10 ^ k` is read back as `x`.  Everything is compared in quarters of the
last place of `x`; the ends of the interval belong to it if the significand is even. -/
def readsBack (x : Binary64) (d : Nat) (k : Int) : Bool :=
  let (n, e) := scale (4 * d) 1 x.exponent
  let (n, e) := if 0 ≤ k then (n * Nat.pow 10 k.toNat, e) else (n, e * Nat.pow 10 (-k).toNat)
  let low := (4 * x.significand - x.gapBelow) * e
  let high := (4 * x.significand + 2) * e
  if x.significand % 2 = 0 then low ≤ n && n ≤ high else low < n && n < high

/-- The value of `x` divided by `10 ^ k`, as a fraction. -/
def decimalScale (x : Binary64) (k : Int) : Nat × Nat :=
  let (n, d) := x.fraction
  if 0 ≤ k then (n, d * Nat.pow 10 k.toNat) else (n * Nat.pow 10 (-k).toNat, d)

/-- The exponent of the first decimal digit: the greatest one from `start` down whose power of ten
does not pass `x`. -/
def leadingExponent (x : Binary64) : Nat → Int → Int
  | 0, e => e
  | fuel + 1, e =>
    let (n, d) := x.decimalScale e
    if d ≤ n then e else leadingExponent x fuel (e - 1)

/-- The decimal with `digits` digits nearest to `x` among the two next to it, if one is read back:
its digits as a number, and the exponent of the last one. -/
def nearest? (x : Binary64) (leading : Int) (digits : Nat) : Option (Nat × Int) :=
  let k := leading - (digits : Int) + 1
  let (n, d) := x.decimalScale k
  let down := n / d
  let near := roundDiv n d
  let far := if near = down then down + 1 else down
  if x.readsBack near k then some (near, k)
  else if x.readsBack far k then some (far, k)
  else none

/-- Digits without the zeros at their end. -/
def significantDigits (n : Nat) : List Char :=
  ((Nat.toDigits 10 n).reverse.dropWhile (· = '0')).reverse

/-- **The shortest digits of a positive number** and the decimal exponent of the first one.
Seventeen digits are always enough. -/
def shortest (x : Binary64) : List Char × Int :=
  let leading := x.leadingExponent 640 309
  match (List.range 17).findSome? fun i => x.nearest? leading (i + 1) with
  | some (n, k) => (significantDigits n, k + (Nat.toDigits 10 n).length - 1)
  | none => (['0'], 0)

/-- Digits, the first of which has exponent `e`, in positional notation. -/
def positional (digits : List Char) (e : Int) : List Char :=
  if e < 0 then
    ['0', '.'] ++ List.replicate (-e - 1).toNat '0' ++ digits
  else
    let whole := e.toNat + 1
    let behind := digits.drop whole
    digits.take whole ++ List.replicate (whole - digits.length) '0' ++ ['.'] ++
      (if behind = [] then ['0'] else behind)

/-- Digits, the first of which has exponent `e`, in scientific notation. -/
def scientific (digits : List Char) (e : Int) : List Char :=
  digits.take 1 ++ (if digits.length ≤ 1 then [] else '.' :: digits.drop 1) ++
    ['e', if e < 0 then '-' else '+'] ++ Nat.toDigits 10 e.natAbs

/-- **The written form.** -/
def text (x : Binary64) : String :=
  String.ofList <|
    if x.isZero then ['0', '.', '0']
    else
      let (digits, e) := x.shortest
      if -5 ≤ e ∧ e ≤ 15 then positional digits e else scientific digits e

end Binary64

end ByteMachine
