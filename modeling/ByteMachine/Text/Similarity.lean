/-
**Similar texts.**

The Jaro similarity of two texts: characters match if they are equal and not further apart than half
the longer text; the similarity is the mean of the share of matches in either text and the share of
matches that are in order.  It is compared with a bound in whole numbers.

Main definitions:

* `ByteMachine.Text.matchMarks` — which characters of either text have a match in the other;
* `ByteMachine.Text.similar` — whether the similarity is at least seven tenths.
-/

set_option relaxedAutoImplicit false
set_option autoImplicit false

namespace ByteMachine

namespace Text

/-- The first place in a window at which `c` stands unmarked. -/
def findMatch (c : Char) (low high : Nat) (bs : List (Char × Bool)) : Option Nat :=
  (List.range bs.length).find? fun j =>
    low ≤ j && j < high &&
      match bs[j]? with
      | some (b, marked) => b = c && !marked
      | none => false

/-- Marks the characters of two texts that match, from the `i`-th of the first text on. -/
def matchMarks (reach : Nat) : Nat → List Char → List (Char × Bool) →
    List Bool × List (Char × Bool)
  | _, [], bs => ([], bs)
  | i, c :: cs, bs =>
    match findMatch c (i - reach) (i + reach + 1) bs with
    | some j =>
      let (marks, bs) := matchMarks reach (i + 1) cs (bs.modify j fun (b, _) => (b, true))
      (true :: marks, bs)
    | none =>
      let (marks, bs) := matchMarks reach (i + 1) cs bs
      (false :: marks, bs)

/-- **Whether two texts are similar.**  With `m` matches, half of which `t` are out of order, this
says that `m / |a| + m / |b| + (m - t) / m` is at least `2.1`. -/
def similar (a b : String) : Bool :=
  let as := a.toList
  let bs := b.toList
  let la := as.length
  let lb := bs.length
  let (marks, marked) := matchMarks (max la lb / 2 - 1) 0 as (bs.map fun c => (c, false))
  let left := ((as.zip marks).filter (·.2)).map (·.1)
  let right := (marked.filter (·.2)).map (·.1)
  let m := left.length
  let t := ((left.zip right).countP fun (x, y) => x ≠ y) / 2
  0 < m && 21 * la * lb * m ≤ 10 * (m * lb * m + m * la * m + (m - t) * la * lb)

end Text

end ByteMachine
