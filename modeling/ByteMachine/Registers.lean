/-
**Registers and flags.**

Eight one-byte registers, the last of which is the stack pointer, and a flags register in which a
comparison leaves one of three bits.

Main definitions:

* `ByteMachine.Registers` with `get`, `set`, `sp`, `setSp` — the register file;
* `ByteMachine.Flags` with `compare` and the three tests — the flags register;
* `ByteMachine.Flags.text` — the flags as three letters or dashes.
-/

import ByteMachine.Fault

set_option relaxedAutoImplicit false
set_option autoImplicit false

namespace ByteMachine

/-! ### The register file -/

/-- **The register file:** eight bytes. -/
structure Registers where
  /-- The registers in the order of their numbers. -/
  values : Vector UInt8 8
  deriving DecidableEq, Repr

namespace Registers

/-- The number of the register that serves as the stack pointer. -/
def spIndex : UInt8 := 7

/-- All registers zero but the stack pointer, which is at the top of the stack. -/
def initial (stackTop : UInt8) : Registers := ⟨(Vector.replicate 8 0).set 7 stackTop⟩

/-- The content of a register. -/
def get (r : Registers) (index : UInt8) : Except Fault UInt8 :=
  match r.values[index.toNat]? with
  | some v => .ok v
  | none => .error (.invalidRegister index)

/-- Replaces the content of a register. -/
def set (r : Registers) (index value : UInt8) : Except Fault Registers :=
  if h : index.toNat < 8 then .ok ⟨r.values.set index.toNat value h⟩
  else .error (.invalidRegister index)

/-- The stack pointer. -/
def sp (r : Registers) : UInt8 := r.values[7]

/-- Replaces the stack pointer. -/
def setSp (r : Registers) (value : UInt8) : Registers := ⟨r.values.set 7 value⟩

@[simp] theorem sp_initial (stackTop : UInt8) : (initial stackTop).sp = stackTop := by
  simp [initial, sp]

@[simp] theorem sp_setSp (r : Registers) (v : UInt8) : (r.setSp v).sp = v := by
  simp [setSp, sp]

theorem get_sp (r : Registers) : r.get spIndex = .ok r.sp := rfl

theorem get_of_lt {r : Registers} {i : UInt8} (h : i.toNat < 8) :
    r.get i = .ok r.values[i.toNat] := by
  simp [get, h]

theorem get_of_le {r : Registers} {i : UInt8} (h : 8 ≤ i.toNat) :
    r.get i = .error (.invalidRegister i) := by
  simp [get, Nat.not_lt.2 h]

theorem set_of_le {r : Registers} {i v : UInt8} (h : 8 ≤ i.toNat) :
    r.set i v = .error (.invalidRegister i) := by
  simp [set, Nat.not_lt.2 h]

end Registers

/-! ### The flags register -/

/-- **The flags register.**  Bit 0 stands for equal, bit 1 for greater, bit 2 for less. -/
structure Flags where
  /-- The register as a byte. -/
  bits : UInt8
  deriving DecidableEq, Repr

namespace Flags

/-- No comparison has been made. -/
def none : Flags := ⟨0⟩

/-- How the left value is ordered against the right one, as a single bit. -/
def compare (left right : UInt8) : Flags :=
  if left < right then ⟨0b100⟩ else if left = right then ⟨0b001⟩ else ⟨0b010⟩

/-- Whether the equal bit is set. -/
def equal (f : Flags) : Bool := f.bits &&& 0b001 != 0

/-- Whether the greater bit is set. -/
def greater (f : Flags) : Bool := f.bits &&& 0b010 != 0

/-- Whether the less bit is set. -/
def less (f : Flags) : Bool := f.bits &&& 0b100 != 0

/-- The flags as `LGE`, with a dash for each bit that is not set. -/
def text (f : Flags) : String :=
  String.ofList [if f.less then 'L' else '-', if f.greater then 'G' else '-',
    if f.equal then 'E' else '-']

@[simp] theorem equal_none : none.equal = false := rfl

theorem equal_compare (left right : UInt8) :
    (compare left right).equal = decide (left = right) := by
  unfold compare
  split
  · rename_i h
    rw [decide_eq_false fun e => by simp [e] at h]
    rfl
  · split
    · rename_i h
      rw [decide_eq_true h]
      rfl
    · rename_i h
      rw [decide_eq_false h]
      rfl

end Flags

end ByteMachine
