/-
**Program texts.**

A program text is cut into lines at every `\r\n`, `\n` and lone `\r`.  A position in it is a line
and a column, both counted from one; only `\n` starts a new line there, so a lone `\r`, which does
end a line of the program, takes a column like any other character.

Main definitions:

* `ByteMachine.SourceLine`, `ByteMachine.SourceLine.cut` — a line with its end, and the lines of a
  text;
* `ByteMachine.Position`, `Position.after` — positions, and the position behind some characters.

Main results:

* `ByteMachine.SourceLine.flatten_cut` — the lines put together are the text.
-/

set_option relaxedAutoImplicit false
set_option autoImplicit false

namespace ByteMachine

/-! ### Positions -/

/-- **A position in a text.** -/
structure Position where
  line : Nat
  /-- The column, in characters. -/
  column : Nat
  deriving DecidableEq, Repr

namespace Position

/-- The position of the first character. -/
def start : Position := ⟨1, 1⟩

/-- The position behind a character. -/
def advance (p : Position) (c : Char) : Position :=
  if c = '\n' then ⟨p.line + 1, 1⟩ else ⟨p.line, p.column + 1⟩

/-- The position behind some characters. -/
def after (p : Position) (cs : List Char) : Position := cs.foldl advance p

@[simp] theorem after_nil (p : Position) : p.after [] = p := rfl

@[simp] theorem after_cons (p : Position) (c : Char) (cs : List Char) :
    p.after (c :: cs) = (p.advance c).after cs := rfl

theorem after_append (p : Position) (cs ds : List Char) :
    p.after (cs ++ ds) = (p.after cs).after ds := by
  simp [after]

end Position

/-! ### Lines -/

/-- **A line of a program text.** -/
structure SourceLine where
  /-- What stands on the line. -/
  content : List Char
  /-- The characters that end it; none at the end of the text. -/
  ending : List Char
  deriving DecidableEq, Repr

namespace SourceLine

/-- The line with its end. -/
def text (l : SourceLine) : List Char := l.content ++ l.ending

/-- Cuts the rest of a text, `read` being the beginning of its first line in reverse. -/
def cutFrom (read : List Char) : List Char → List SourceLine
  | [] => [⟨read.reverse, []⟩]
  | '\r' :: '\n' :: rest => ⟨read.reverse, ['\r', '\n']⟩ :: cutFrom [] rest
  | c :: rest =>
    if c = '\n' ∨ c = '\r' then ⟨read.reverse, [c]⟩ :: cutFrom [] rest
    else cutFrom (c :: read) rest

/-- **The lines of a text.**  There is at least one; behind a line end at the end of the text stands
an empty line. -/
def cut (cs : List Char) : List SourceLine := cutFrom [] cs

theorem flatMap_text_cutFrom (read cs : List Char) :
    (cutFrom read cs).flatMap text = read.reverse ++ cs := by
  fun_induction cutFrom read cs with
  | case1 => simp [text]
  | case2 read rest ih => simp [text, ih]
  | case3 read c rest _ _ ih => simp [text, ih]
  | case4 read c rest _ _ ih => simp [ih]

/-- The lines put together are the text. -/
theorem flatten_cut (cs : List Char) : (cut cs).flatMap text = cs := by
  simp [cut, flatMap_text_cutFrom]

end SourceLine

end ByteMachine
