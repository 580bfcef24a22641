/-
**Memory.**

Memory is a vector of 256 bytes.  Addresses are natural numbers, so an address past the end can be
named; reading or writing there is a fault that carries it.

Main definitions:

* `ByteMachine.Memory`, `Memory.peek` — memory and its view as a partial function on addresses;
* `ByteMachine.Memory.read`, `Memory.write`, `Memory.load` — checked access.

Main results:

* `ByteMachine.Memory.peek_write`, `peek_load` — what a successful write does to the view.
-/

import ByteMachine.Fault

set_option relaxedAutoImplicit false
set_option autoImplicit false

namespace ByteMachine

/-- **Memory:** a fixed number of bytes, zero at first. -/
structure Memory where
  /-- The bytes in address order. -/
  bytes : Vector UInt8 256
  deriving DecidableEq, Repr

namespace Memory

/-- The number of bytes of memory. -/
def size : Nat := 256

/-- Memory full of zeros. -/
def empty : Memory := ⟨Vector.replicate 256 0⟩

/-- The byte at an address, if the address lies in memory. -/
def peek (m : Memory) (address : Nat) : Option UInt8 := m.bytes[address]?

/-- The byte at an address. -/
def read (m : Memory) (address : Nat) : Except Fault UInt8 :=
  match m.peek address with
  | some b => .ok b
  | none => .error (.memoryOutOfBounds address)

/-- Replaces the byte at an address. -/
def write (m : Memory) (address : Nat) (value : UInt8) : Except Fault Memory :=
  if h : address < 256 then .ok ⟨m.bytes.set address value h⟩
  else .error (.memoryOutOfBounds address)

/-- Copies an image to address zero; the bytes behind the image keep their values. -/
def load (m : Memory) (image : List UInt8) : Except Fault Memory :=
  if image.length ≤ size then
    .ok ⟨Vector.ofFn fun i => image.getD i m.bytes[i]⟩
  else .error (.programTooLarge image.length size)

/-! ### The view of memory -/

@[ext] theorem ext_peek {m n : Memory} (h : ∀ a, m.peek a = n.peek a) : m = n := by
  obtain ⟨xs⟩ := m
  obtain ⟨ys⟩ := n
  congr 1
  refine Vector.ext fun i hi => ?_
  simpa [peek, hi] using h i

theorem peek_isSome {m : Memory} {a : Nat} : (m.peek a).isSome ↔ a < 256 := by
  simp [peek]

theorem peek_eq_none_iff {m : Memory} {a : Nat} : m.peek a = none ↔ 256 ≤ a := by
  simp [peek]

theorem peek_empty {a : Nat} (h : a < 256) : empty.peek a = some 0 := by
  simp [peek, empty, h]

/-- Reading succeeds exactly inside memory, and then gives what the view shows. -/
theorem read_eq_ok_iff {m : Memory} {a : Nat} {b : UInt8} :
    m.read a = .ok b ↔ m.peek a = some b := by
  unfold read
  cases m.peek a <;> simp

theorem write_of_le {m : Memory} {a : Nat} {v : UInt8} (h : 256 ≤ a) :
    m.write a v = .error (.memoryOutOfBounds a) := by
  simp [write, Nat.not_lt.2 h]

/-- A successful write changes the view at its address only. -/
theorem peek_write {m n : Memory} {a : Nat} {v : UInt8} (h : m.write a v = .ok n) (i : Nat) :
    n.peek i = if i = a then some v else m.peek i := by
  unfold write at h
  split at h
  · obtain rfl := Except.ok.inj h
    simp only [peek, Vector.getElem?_set, eq_comm]
  · cases h

/-- A loaded image is seen from address zero on; behind it memory is as before. -/
theorem peek_load {m n : Memory} {image : List UInt8} (h : m.load image = .ok n) (i : Nat) :
    n.peek i = if i < image.length then image[i]? else m.peek i := by
  unfold load at h
  split at h
  · rename_i hs
    obtain rfl := Except.ok.inj h
    simp only [size] at hs
    by_cases hi : i < 256
    · by_cases hl : i < image.length <;> simp [peek, hi, hl]
    · simp [peek, hi, show ¬ i < image.length by omega]
  · cases h

end Memory

end ByteMachine
