/-
**The parts of an instruction, without their refusals.**

An instruction is put together from register writes, pushes, pops and moves of the program counter.
Each of them is either refused or gives one new machine.  Here that machine is named, and every part
is written as a condition for the refusal and the machine it gives otherwise.  Behind these
equations nothing has to look inside memory or the register file again: what a part does to each
field of the machine is a rewriting rule.

Main definitions:

* `ByteMachine.Memory.byteAt`, `Memory.put` — reading and writing at a byte address, which never
  fails;
* `ByteMachine.Registers.put` — a register write that does nothing where there is no register;
* `ByteMachine.Machine.assigned`, `Machine.pushed`, `Machine.popped` — the machine after a register
  write, a push, a pop.

Main results:

* `ByteMachine.Machine.setRegister_eq`, `push_eq`, `pop_eq`, `pushReturn_eq` — the parts as
  conditions;
* `ByteMachine.bind_eq_ok_iff`, `bind_eq_error_iff` — how a sequence of parts ends.
-/

import ByteMachine.Machine.Execute

set_option relaxedAutoImplicit false
set_option autoImplicit false

namespace ByteMachine

/-! ### Sequences that may fail -/

section Sequence

variable {ε α β : Type}

theorem bind_eq_ok_iff {x : Except ε α} {f : α → Except ε β} {b : β} :
    (x >>= f) = .ok b ↔ ∃ a, x = .ok a ∧ f a = .ok b := by
  cases x <;> simp [bind, Except.bind]

theorem bind_eq_error_iff {x : Except ε α} {f : α → Except ε β} {e : ε} :
    (x >>= f) = .error e ↔ x = .error e ∨ ∃ a, x = .ok a ∧ f a = .error e := by
  cases x <;> simp [bind, Except.bind]

/-- Behind a part that goes through, a result alone does not fail. -/
theorem bind_pure_eq_error_iff {x : Except ε α} {f : α → β} {e : ε} :
    (x >>= fun a => pure (f a)) = .error e ↔ x = .error e := by
  cases x <;> simp [bind, Except.bind, pure, Except.pure]

theorem pure_eq_ok_iff {a b : α} : (pure a : Except ε α) = .ok b ↔ a = b := by
  simp [pure, Except.pure]

theorem pure_ne_error {a : α} {e : ε} : (pure a : Except ε α) ≠ .error e := by
  simp [pure, Except.pure]

/-- What is refused under a condition goes through exactly without it. -/
theorem ite_error_eq_ok_iff {p : Prop} [Decidable p] {e : ε} {x : Except ε α} {a : α} :
    (if p then .error e else x) = .ok a ↔ ¬p ∧ x = .ok a := by
  by_cases h : p <;> simp [h]

theorem ite_error_eq_error_iff {p : Prop} [Decidable p] {e f : ε} {x : Except ε α} :
    (if p then .error e else x) = .error f ↔ p ∧ f = e ∨ ¬p ∧ x = .error f := by
  by_cases h : p <;> simp [h, eq_comm]

end Sequence

/-! ### Memory at a byte address -/

namespace Memory

/-- The byte at a byte address. -/
def byteAt (m : Memory) (a : UInt8) : UInt8 := m.bytes.get a.toFin

/-- Memory with another byte at a byte address. -/
def put (m : Memory) (a v : UInt8) : Memory := ⟨m.bytes.set a.toNat v a.toNat_lt⟩

theorem peek_toNat (m : Memory) (a : UInt8) : m.peek a.toNat = some (m.byteAt a) := by
  have h : a.toNat < 256 := a.toNat_lt
  rw [peek, Vector.getElem?_eq_getElem h]
  rfl

theorem read_toNat (m : Memory) (a : UInt8) : m.read a.toNat = .ok (m.byteAt a) :=
  read_eq_ok_iff.2 (m.peek_toNat a)

theorem write_toNat (m : Memory) (a v : UInt8) : m.write a.toNat v = .ok (m.put a v) :=
  dif_pos a.toNat_lt

theorem peek_put (m : Memory) (a v : UInt8) (i : Nat) :
    (m.put a v).peek i = if i = a.toNat then some v else m.peek i :=
  peek_write (m.write_toNat a v) i

end Memory

/-! ### The register file -/

namespace Registers

/-- The register file with another content in a register, if there is one of that number. -/
def put (r : Registers) (i v : UInt8) : Registers :=
  if h : i.toNat < 8 then ⟨r.values.set i.toNat v h⟩ else r

theorem set_eq (r : Registers) (i v : UInt8) :
    r.set i v = if 8 ≤ i.toNat then .error (.invalidRegister i) else .ok (r.put i v) := by
  rcases Nat.lt_or_ge i.toNat 8 with h | h
  · rw [if_neg (Nat.not_le.2 h), set, put, dif_pos h, dif_pos h]
  · rw [if_pos h, set_of_le h]

theorem lt_of_get {r : Registers} {i v : UInt8} (h : r.get i = .ok v) : i.toNat < 8 := by
  rcases Nat.lt_or_ge i.toNat 8 with hi | hi
  · exact hi
  · rw [get_of_le hi] at h
    cases h

theorem get_put_self (r : Registers) {i : UInt8} (h : i.toNat < 8) (v : UInt8) :
    (r.put i v).get i = .ok v := by
  simp [get, put, h]

@[simp] theorem sp_put_spIndex (r : Registers) (v : UInt8) : (r.put spIndex v).sp = v := by
  simp [put, sp, spIndex]

theorem sp_put_of_ne (r : Registers) {i : UInt8} (h : i ≠ spIndex) (v : UInt8) :
    (r.put i v).sp = r.sp := by
  have hi : i.toNat ≠ 7 := fun e => h (UInt8.toNat_inj.1 e)
  unfold put
  split <;> simp [sp, hi]

end Registers

namespace Machine

variable (m : Machine)

/-! ### Register writes -/

/-- The machine after a register write. -/
def assigned (i v : UInt8) : Machine :=
  { m with
    registers := m.registers.put i v
    stackBase := if i = Registers.spIndex then v else m.stackBase }

/-- A register write is refused exactly where there is no register. -/
theorem setRegister_eq (i v : UInt8) :
    m.setRegister i v =
      if 8 ≤ i.toNat then .error (.invalidRegister i) else .ok (m.assigned i v) := by
  unfold setRegister
  rw [Registers.set_eq]
  split <;> rfl

@[simp] theorem sp_assigned_spIndex (v : UInt8) :
    (m.assigned Registers.spIndex v).sp = v := m.registers.sp_put_spIndex v

@[simp] theorem stackBase_assigned_spIndex (v : UInt8) :
    (m.assigned Registers.spIndex v).stackBase = v := rfl

theorem sp_assigned_of_ne {i : UInt8} (h : i ≠ Registers.spIndex) (v : UInt8) :
    (m.assigned i v).sp = m.sp := m.registers.sp_put_of_ne h v

theorem stackBase_assigned_of_ne {i : UInt8} (h : i ≠ Registers.spIndex) (v : UInt8) :
    (m.assigned i v).stackBase = m.stackBase := if_neg h

/-! ### Pushing and popping -/

/-- The machine after a push. -/
def pushed (v : UInt8) : Machine :=
  { m with
    memory := m.memory.put (m.sp - 1) v
    registers := m.registers.setSp (m.sp - 1) }

/-- The machine after a pop. -/
def popped : Machine := { m with registers := m.registers.setSp (m.sp + 1) }

/-- A push is refused exactly with the stack pointer at or below the stack limit. -/
theorem push_eq (v : UInt8) :
    m.push v =
      if m.sp ≤ m.config.stackLimit then .error (.stackOverflow m.sp) else .ok (m.pushed v) := by
  unfold push
  rw [Memory.write_toNat]
  split <;> rfl

/-- A pop is refused exactly with the stack pointer at or above the stack base. -/
theorem pop_eq :
    m.pop =
      if m.stackBase ≤ m.sp then .error (.stackUnderflow m.sp)
      else .ok (m.memory.byteAt m.sp, m.popped) := by
  unfold pop
  rw [Memory.read_toNat]
  split <;> rfl

/-- The return address is looked at before the stack. -/
theorem pushReturn_eq (i : Instruction) :
    m.pushReturn i =
      if 256 ≤ i.next then .error (.memoryOutOfBounds i.next)
      else if m.sp ≤ m.config.stackLimit then .error (.stackOverflow m.sp)
      else .ok (m.pushed (UInt8.ofNat i.next)) := by
  unfold pushReturn
  rw [push_eq]
  by_cases h : i.next < 256
  · rw [if_pos h, if_neg (Nat.not_le.2 h)]
  · rw [if_neg h, if_pos (Nat.not_lt.1 h)]

@[simp] theorem stackBase_pushed (v : UInt8) : (m.pushed v).stackBase = m.stackBase := rfl
@[simp] theorem config_pushed (v : UInt8) : (m.pushed v).config = m.config := rfl
@[simp] theorem sp_pushed (v : UInt8) : (m.pushed v).sp = m.sp - 1 := m.registers.sp_setSp _

theorem peek_pushed (v : UInt8) (a : Nat) :
    (m.pushed v).memory.peek a = if a = (m.sp - 1).toNat then some v else m.memory.peek a :=
  m.memory.peek_put (m.sp - 1) v a

@[simp] theorem stackBase_popped : m.popped.stackBase = m.stackBase := rfl
@[simp] theorem config_popped : m.popped.config = m.config := rfl
@[simp] theorem sp_popped : m.popped.sp = m.sp + 1 := m.registers.sp_setSp _

/-! ### When a part goes through, and how it is refused -/

section Outcomes

variable {m} {m' : Machine} {i : Instruction} {r v : UInt8} {e : Fault}

theorem setRegister_eq_ok_iff :
    m.setRegister r v = .ok m' ↔ r.toNat < 8 ∧ m' = m.assigned r v := by
  rw [setRegister_eq, ite_error_eq_ok_iff, Nat.not_le]
  simp only [Except.ok.injEq, eq_comm]

theorem setRegister_eq_error_iff :
    m.setRegister r v = .error e ↔ 8 ≤ r.toNat ∧ e = .invalidRegister r := by
  rw [setRegister_eq, ite_error_eq_error_iff]
  simp

theorem push_eq_ok_iff :
    m.push v = .ok m' ↔ m.config.stackLimit < m.sp ∧ m' = m.pushed v := by
  rw [push_eq, ite_error_eq_ok_iff, UInt8.not_le]
  simp only [Except.ok.injEq, eq_comm]

theorem push_eq_error_iff :
    m.push v = .error e ↔ m.sp ≤ m.config.stackLimit ∧ e = .stackOverflow m.sp := by
  rw [push_eq, ite_error_eq_error_iff]
  simp

theorem pop_eq_ok_iff {p : UInt8 × Machine} :
    m.pop = .ok p ↔ m.sp < m.stackBase ∧ p = (m.memory.byteAt m.sp, m.popped) := by
  rw [pop_eq, ite_error_eq_ok_iff, UInt8.not_le]
  simp only [Except.ok.injEq, eq_comm]

theorem pop_eq_error_iff :
    m.pop = .error e ↔ m.stackBase ≤ m.sp ∧ e = .stackUnderflow m.sp := by
  rw [pop_eq, ite_error_eq_error_iff]
  simp

theorem pushReturn_eq_ok_iff :
    m.pushReturn i = .ok m' ↔
      i.next < 256 ∧ m.config.stackLimit < m.sp ∧ m' = m.pushed (UInt8.ofNat i.next) := by
  rw [pushReturn_eq, ite_error_eq_ok_iff, ite_error_eq_ok_iff, UInt8.not_le, Nat.not_le]
  simp only [Except.ok.injEq, eq_comm]

theorem pushReturn_eq_error_iff :
    m.pushReturn i = .error e ↔
      256 ≤ i.next ∧ e = .memoryOutOfBounds i.next ∨
        i.next < 256 ∧ m.sp ≤ m.config.stackLimit ∧ e = .stackOverflow m.sp := by
  rw [pushReturn_eq, ite_error_eq_error_iff, ite_error_eq_error_iff, Nat.not_le]
  simp

end Outcomes

/-- A push that is not refused takes the stack pointer one down. -/
theorem toNat_sub_one {limit sp : UInt8} (h : limit < sp) : (sp - 1).toNat + 1 = sp.toNat := by
  have hlt : limit.toNat < sp.toNat := UInt8.lt_iff_toNat_lt.1 h
  have hle : (1 : UInt8) ≤ sp := UInt8.le_iff_toNat_le.2 (Nat.lt_of_le_of_lt (Nat.zero_le _) hlt)
  have hone : (1 : UInt8).toNat = 1 := rfl
  rw [UInt8.toNat_sub_of_le _ _ hle, hone]
  omega

/-- A pop that is not refused takes the stack pointer one up. -/
theorem toNat_add_one {sp base : UInt8} (h : sp < base) : (sp + 1).toNat = sp.toNat + 1 := by
  have hlt : sp.toNat < base.toNat := UInt8.lt_iff_toNat_lt.1 h
  have hbase : base.toNat < 256 := base.toNat_lt
  have hone : (1 : UInt8).toNat = 1 := rfl
  rw [UInt8.toNat_add, hone]
  omega

end Machine

end ByteMachine
