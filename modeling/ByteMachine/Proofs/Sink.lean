/-
**What a sink holds.**

A sink takes a text whole, or as much of it as there is room for.  Several texts written one after
the other leave the sink as if they had been written as one text, also where one of them does not
fit: behind it there is no room left.  So a sink with limited room holds the beginning of what a
sink without a limit holds, and all of it exactly if all of it fits.

Main definitions:

* `ByteMachine.Sink.Fits` — a text fits into the room that is left;
* `ByteMachine.Sink.wrote` — a sink behind a text.

Main results:

* `ByteMachine.Sink.write_eq` — what writing a text gives;
* `ByteMachine.Sink.wrote_append`, `fits_append_iff` — **texts one after the other are one text**;
* `ByteMachine.Sink.wrote_of_not_fits` — behind a text that did not fit nothing more is taken;
* `ByteMachine.Sink.text_of_taken` — what was taken is read back.
-/

import ByteMachine.Sink

set_option relaxedAutoImplicit false
set_option autoImplicit false

namespace ByteMachine

namespace Sink

variable {s : Sink} {t u : String}

/-- **The text fits into the room that is left.** -/
def Fits (s : Sink) (t : String) : Prop := ∀ room, s.room = some room → t.utf8ByteSize ≤ room

instance (s : Sink) (t : String) : Decidable (s.Fits t) :=
  match h : s.room with
  | none => .isTrue fun room hroom => by rw [h] at hroom; cases hroom
  | some room =>
    decidable_of_iff (t.utf8ByteSize ≤ room)
      ⟨fun hle _ hroom => by rw [h] at hroom; cases hroom; exact hle, fun hfits => hfits room h⟩

/-- **The sink behind a text.** -/
def wrote (s : Sink) (t : String) : Sink := (s.write t).2

theorem fits_of_unlimited (h : s.room = none) (t : String) : s.Fits t := by
  intro room hroom
  rw [h] at hroom
  cases hroom

theorem fits_empty (s : Sink) : s.Fits "" := fun _ _ => Nat.zero_le _

/-- What writing a text gives. -/
theorem write_eq (s : Sink) (t : String) :
    s.write t = (if s.Fits t then .ok () else .error .closed, s.wrote t) := by
  refine Prod.ext ?_ rfl
  by_cases h : s.Fits t
  · rw [if_pos h]
    exact write_fst_eq_ok_iff.2 h
  · rw [if_neg h]
    unfold write
    cases hroom : s.room with
    | none => exact absurd (fits_of_unlimited hroom t) h
    | some room =>
        refine if_neg fun hle => h fun room' hroom' => ?_
        rw [hroom] at hroom'
        cases hroom'
        exact hle

/-! ### Room and bytes -/

@[simp] theorem room_wrote (s : Sink) (t : String) :
    (s.wrote t).room = s.room.map (· - t.utf8ByteSize) := by
  unfold wrote write
  cases s.room <;> simp

theorem room_wrote_of_unlimited (h : s.room = none) (t : String) : (s.wrote t).room = none := by
  rw [room_wrote, h]
  rfl

@[simp] theorem flushFails_wrote (s : Sink) (t : String) :
    (s.wrote t).flushFails = s.flushFails :=
  flushFails_write s t

@[simp] theorem flush_wrote (s : Sink) (t : String) : (s.wrote t).flush = s.flush := by
  simp [flush]

theorem taken_wrote_of_room {room : Nat} (h : s.room = some room) (t : String) :
    (s.wrote t).taken = s.taken ++ t.toUTF8.extract 0 room :=
  taken_write_of_room h t

/-- A text that fits is taken whole. -/
theorem taken_wrote_of_fits (h : s.Fits t) : (s.wrote t).taken = s.taken ++ t.toUTF8 := by
  cases hroom : s.room with
  | none => exact taken_write_of_unlimited hroom t
  | some room =>
      have hwhole : t.toUTF8.extract 0 room = t.toUTF8 := by
        have hmax : max room t.toUTF8.size = room := Nat.max_eq_left (h room hroom)
        rw [← hmax]
        exact ByteArray.extract_zero_max_size
      rw [taken_wrote_of_room hroom, hwhole]

/-! ### Texts one after the other -/

@[simp] theorem wrote_empty (s : Sink) : s.wrote "" = s := by
  obtain ⟨taken, room, flushFails⟩ := s
  cases room with
  | none => simp [wrote, write]
  | some room =>
      have hnone : ByteArray.empty.extract 0 room = ByteArray.empty := by
        simp [ByteArray.extract_eq_empty_iff]
      simp [wrote, write, hnone]

theorem extract_append_extract (a b : ByteArray) (n : Nat) :
    a.extract 0 n ++ b.extract 0 (n - a.size) = (a ++ b).extract 0 n := by
  rw [ByteArray.extract_append, Nat.zero_sub]

/-- **Texts written one after the other are taken as one text.** -/
theorem wrote_append (s : Sink) (t u : String) : s.wrote (t ++ u) = (s.wrote t).wrote u := by
  obtain ⟨taken, room, flushFails⟩ := s
  cases room with
  | none => simp [wrote, write, ByteArray.append_assoc]
  | some room =>
      have htaken := extract_append_extract t.toUTF8 u.toUTF8 room
      simp only [String.toUTF8_eq_toByteArray, String.size_toByteArray] at htaken
      simp [wrote, write, ByteArray.append_assoc, htaken, Nat.sub_add_eq]

/-- **One text fits behind the other exactly if both fit as one.** -/
theorem fits_append_iff : s.Fits (t ++ u) ↔ s.Fits t ∧ (s.wrote t).Fits u := by
  unfold Fits
  rw [room_wrote]
  cases s.room with
  | none => simp
  | some room =>
      simp only [Option.some.injEq, forall_eq', Option.map_some, String.utf8ByteSize_append]
      omega

/-- **Behind a text that did not fit nothing more is taken.** -/
theorem wrote_of_not_fits (h : ¬s.Fits t) (u : String) : (s.wrote t).wrote u = s.wrote t := by
  obtain ⟨taken, room, flushFails⟩ := s
  cases room with
  | none => exact absurd (fits_of_unlimited rfl t) h
  | some room =>
      have hlt : room < t.utf8ByteSize :=
        Nat.lt_of_not_le fun hle => h fun _ hroom => Option.some.inj hroom ▸ hle
      have hroom : room - t.utf8ByteSize = 0 := Nat.sub_eq_zero_of_le (Nat.le_of_lt hlt)
      simp [wrote, write, hroom]

/-! ### Reading back -/

theorem fromUTF8?_toUTF8 (t : String) : String.fromUTF8? t.toUTF8 = some t := by
  unfold String.fromUTF8?
  rw [String.toUTF8_eq_toByteArray, dif_pos t.isValidUTF8]
  rfl

/-- **What was taken is read back.** -/
theorem text_of_taken (h : s.taken = t.toUTF8) : s.text = t := by
  unfold text readable
  rw [h, fromUTF8?_toUTF8]

end Sink

end ByteMachine
