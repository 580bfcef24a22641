/-
**The lines of a text.**

A text is cut into lines at every `\r\n`, `\n` and lone `\r`.  How a text is cut is said here
without a scan: what stands on a line holds none of the two characters, and what ends a line is the
longest line end that stands there.  There is one way to cut a text like that, and the scan finds
it.

Main definitions:

* `ByteMachine.SourceLine.CutsInto` — a text, cut into lines.

Main results:

* `ByteMachine.SourceLine.cutsInto_iff` — **a text is cut into its lines, and in no other way**;
* `ByteMachine.Position.line_after` — a position counts the `\n` in front of it.
-/

import ByteMachine.Program.Source

set_option relaxedAutoImplicit false
set_option autoImplicit false

namespace ByteMachine

/-- The line of a position counts the `\n` in front of it. -/
theorem Position.line_after (p : Position) (cs : List Char) :
    (p.after cs).line = p.line + cs.count '\n' := by
  induction cs generalizing p with
  | nil => rfl
  | cons c cs ih =>
      rw [after_cons, ih]
      by_cases hc : c = '\n'
      · subst hc
        rw [List.count_cons_self, advance, if_pos rfl, Nat.add_right_comm, Nat.add_assoc]
      · rw [List.count_cons_of_ne hc, advance, if_neg hc]

namespace SourceLine

/-- No character belongs to a line end. -/
def Plain (cs : List Char) : Prop := ∀ c ∈ cs, c ≠ '\n' ∧ c ≠ '\r'

/-- What ends a line, `rest` being behind it: the longest of the line ends that stand there. -/
inductive Ends : List Char → List Char → Prop
  | crlf (rest : List Char) : Ends ['\r', '\n'] rest
  | lf (rest : List Char) : Ends ['\n'] rest
  | cr (rest : List Char) (h : rest.head? ≠ some '\n') : Ends ['\r'] rest

/-- **A text, cut into lines.**  The last one has no end. -/
inductive CutsInto : List Char → List SourceLine → Prop
  | last (content : List Char) (h : Plain content) : CutsInto content [⟨content, []⟩]
  | line (content ending rest : List Char) (lines : List SourceLine) (h : Plain content)
      (hend : Ends ending rest) (hrest : CutsInto rest lines) :
      CutsInto (content ++ (ending ++ rest)) (⟨content, ending⟩ :: lines)

variable {cs content ending rest : List Char} {lines : List SourceLine}

theorem Plain.cons {c : Char} (h : Plain cs) (hn : c ≠ '\n') (hr : c ≠ '\r') : Plain (c :: cs) :=
  List.forall_mem_cons.2 ⟨⟨hn, hr⟩, h⟩

theorem Plain.reverse (h : Plain cs) : Plain cs.reverse :=
  fun c hc => h c (List.mem_reverse.1 hc)

theorem plain_nil : Plain [] := List.forall_mem_nil _

/-- The scan cuts what it has read together with the rest of the text. -/
theorem cutsInto_cutFrom {read : List Char} (h : Plain read) :
    CutsInto (read.reverse ++ cs) (cutFrom read cs) := by
  fun_induction cutFrom read cs with
  | case1 read =>
      rw [List.append_nil]
      exact .last _ h.reverse
  | case2 read rest ih => exact .line _ ['\r', '\n'] rest _ h.reverse (.crlf rest) (ih plain_nil)
  | case3 read c rest hlone hc ih =>
      have hend : Ends [c] rest := by
        rcases hc with rfl | rfl
        · exact .lf rest
        · -- the case before took a `\n` that follows
          refine .cr rest fun hhead => ?_
          obtain ⟨tail, rfl⟩ := List.head?_eq_some_iff.1 hhead
          exact hlone tail rfl rfl
      exact .line _ [c] rest _ h.reverse hend (ih plain_nil)
  | case4 read c rest _ hc ih =>
      have hplain : Plain (c :: read) :=
        h.cons (fun hn => hc (.inl hn)) (fun hr => hc (.inr hr))
      have hcut := ih hplain
      rwa [List.reverse_cons, List.append_assoc] at hcut

/-- The scan reads on over characters that belong to no line end. -/
theorem cutFrom_append {read : List Char} (h : Plain content) :
    cutFrom read (content ++ cs) = cutFrom (content.reverse ++ read) cs := by
  induction content generalizing read with
  | nil => rfl
  | cons c content ih =>
      obtain ⟨⟨hn, hr⟩, hplain⟩ := List.forall_mem_cons.1 h
      rw [List.cons_append, cutFrom, if_neg (by simp [hn, hr]), ih hplain, List.reverse_cons,
        List.append_assoc, List.singleton_append]
      exact fun _ hc => absurd hc hr

/-- At a line end the scan ends a line. -/
theorem cutFrom_ends {read : List Char} (h : Ends ending rest) :
    cutFrom read (ending ++ rest) = ⟨read.reverse, ending⟩ :: cutFrom [] rest := by
  cases h with
  | crlf => rfl
  | lf => rfl
  | cr _ hhead =>
      rw [List.singleton_append, cutFrom, if_pos (.inr rfl)]
      rintro tail - rfl
      exact hhead rfl

/-- No character that stands on a line belongs to a line end. -/
theorem CutsInto.plain (h : CutsInto cs lines) : ∀ l ∈ lines, Plain l.content := by
  induction h with
  | last content hplain => exact List.forall_mem_singleton.2 hplain
  | line content ending rest lines hplain _ _ ih => exact List.forall_mem_cons.2 ⟨hplain, ih⟩

theorem CutsInto.eq_cut (h : CutsInto cs lines) : lines = cut cs := by
  induction h with
  | last content h =>
      have hscan : cutFrom [] (content ++ []) = _ := cutFrom_append h
      rw [List.append_nil, List.append_nil] at hscan
      rw [cut, hscan, cutFrom, List.reverse_reverse]
  | line content ending rest lines h hend _ ih =>
      rw [cut, cutFrom_append h, cutFrom_ends hend, List.append_nil, List.reverse_reverse, ih, cut]

/-- **A text is cut into its lines, and in no other way.** -/
theorem cutsInto_iff : CutsInto cs lines ↔ lines = cut cs := by
  refine ⟨CutsInto.eq_cut, ?_⟩
  rintro rfl
  exact cutsInto_cutFrom plain_nil

end SourceLine

end ByteMachine
