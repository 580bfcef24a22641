/-
**White space.**

The characters with the Unicode property `White_Space`, and trimming them off both ends of a text.

Main definitions:

* `ByteMachine.Text.isWhiteSpace` — the twenty-five characters of the property;
* `ByteMachine.Text.trim` — a text without white space at its ends.
-/

set_option relaxedAutoImplicit false
set_option autoImplicit false

namespace ByteMachine

namespace Text

/-- Whether a character has the property `White_Space`. -/
def isWhiteSpace (c : Char) : Bool :=
  let n := c.toNat
  (0x09 ≤ n && n ≤ 0x0D) || n == 0x20 || n == 0x85 || n == 0xA0 || n == 0x1680 ||
    (0x2000 ≤ n && n ≤ 0x200A) || n == 0x2028 || n == 0x2029 || n == 0x202F || n == 0x205F ||
    n == 0x3000

/-- A text without the white space at its ends. -/
def trim (cs : List Char) : List Char :=
  ((cs.dropWhile isWhiteSpace).reverse.dropWhile isWhiteSpace).reverse

end Text

end ByteMachine
