/-
**Columns.**

Texts filled up with blanks to a width, so that what follows stands in a column.

Main definitions:

* `ByteMachine.Text.column` — a text filled up on the right.
-/

set_option relaxedAutoImplicit false
set_option autoImplicit false

namespace ByteMachine

namespace Text

/-- A text filled up on the right with blanks to at least `width` characters. -/
def column (width : Nat) (s : String) : String :=
  String.ofList (s.toList.rightpad width ' ')

theorem toList_column (width : Nat) (s : String) :
    (column width s).toList = s.toList ++ List.replicate (width - s.toList.length) ' ' := by
  simp [column, List.rightpad]

end Text

end ByteMachine
