/-
**What has been written stays written.**

A sink takes text behind the text that it has, and nothing takes a byte back.  So what a machine has
written before a step, any number of steps or a run is the beginning of what it has written behind
them, whether they succeed or fail and whether the sinks take everything or not.

Main definitions:

* `ByteMachine.Sink.Begins`, `ByteMachine.Sinks.Begins` — what one sink has taken is the beginning
  of what another one has.

Main results:

* `ByteMachine.Machine.begins_step`, `begins_run` — **a step and a run write behind what is there**.
-/

import ByteMachine.Proofs.Machine.Iteration

set_option relaxedAutoImplicit false
set_option autoImplicit false

namespace ByteMachine

namespace Sink

variable {s t u : Sink}

/-- **What `s` has taken is the beginning of what `t` has taken.** -/
def Begins (s t : Sink) : Prop := ∃ more : ByteArray, t.taken = s.taken ++ more

theorem Begins.refl (s : Sink) : s.Begins s := ⟨.empty, by simp⟩

theorem Begins.trans (h : s.Begins t) (h' : t.Begins u) : s.Begins u := by
  obtain ⟨more, ht⟩ := h
  obtain ⟨rest, hu⟩ := h'
  exact ⟨more ++ rest, by rw [hu, ht, ByteArray.append_assoc]⟩

theorem begins_write (s : Sink) (text : String) : s.Begins (s.write text).2 := by
  cases h : s.room with
  | none => exact ⟨_, taken_write_of_unlimited h text⟩
  | some room => exact ⟨_, taken_write_of_room h text⟩

end Sink

/-- **What is written in `s` is the beginning of what is written in `t`,** for both sinks. -/
structure Sinks.Begins (s t : Sinks) : Prop where
  out : s.out.Begins t.out
  trace : s.trace.Begins t.trace

namespace Sinks

variable {s t u : Sinks}

theorem Begins.refl (s : Sinks) : s.Begins s := ⟨.refl s.out, .refl s.trace⟩

theorem Begins.trans (h : s.Begins t) (h' : t.Begins u) : s.Begins u :=
  ⟨h.out.trans h'.out, h.trace.trans h'.trace⟩

end Sinks

namespace Machine

variable {m : Machine} {s : Sinks}

theorem begins_writeTrace (m : Machine) (s : Sinks) : s.Begins (m.writeTrace s).2 := by
  unfold writeTrace
  split
  · exact ⟨.refl s.out, s.trace.begins_write _⟩
  · exact .refl s

theorem begins_writeValue (s : Sinks) (v : Option UInt8) : s.Begins (writeValue s v).2 := by
  cases v with
  | none => exact .refl s
  | some v => exact ⟨s.out.begins_write _, .refl s.trace⟩

/-- **A step writes behind what is there.** -/
theorem begins_step (m : Machine) (s : Sinks) : s.Begins (m.step s).sinks := by
  have htrace := m.begins_writeTrace s
  have hstep := m.steps_step s
  generalize m.step s = o at hstep
  cases hstep with
  | untraced ht | unfetched ht | failed ht =>
      rw [ht] at htrace
      exact htrace
  | @unprinted _ t _ _ f ht _ _ hp | @done t _ _ f ht _ _ hp =>
      have hvalue := begins_writeValue t f.printed
      rw [hp] at hvalue
      rw [ht] at htrace
      exact htrace.trans hvalue

theorem begins_stepped (m : Machine) (s : Sinks) (k : Nat) : s.Begins (m.stepped s k).sinks := by
  induction k with
  | zero => exact .refl s
  | succ k ih => exact ih.trans (begins_step _ _)

@[simp] theorem sinks_conclude (o : Outcome HaltReason) : (conclude o).sinks = o.sinks := by
  unfold conclude
  split
  · split <;> rfl
  · rfl

/-- **A run writes behind what is there.** -/
theorem begins_run {o : Outcome Halt} (h : m.run s = some o) : s.Begins o.sinks := by
  obtain ⟨k, -, -, rfl⟩ := exists_isLeast_of_run h
  rw [sinks_conclude]
  exact m.begins_stepped s k

end Machine

end ByteMachine
