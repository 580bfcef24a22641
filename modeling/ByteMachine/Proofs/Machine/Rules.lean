/-
**The rules of the instructions.**

What an instruction does is written here a second time, as rules: one rule for each way in which an
instruction can take effect and one for each way in which it can fail, with everything that has to
hold for it.  The interpreter `Machine.execute` follows exactly these rules, so a property of all
instructions is proved by cases on a rule, and no later proof opens the interpreter.

Main definitions:

* `ByteMachine.Opcode.isJump`, `Opcode.takes` — the jumps, and which of them are taken;
* `ByteMachine.Machine.leavesReturn` — the instructions that push a return address;
* `ByteMachine.Machine.Executes` — the rules of effects;
* `ByteMachine.Machine.Faults` — the rules of failures.

Main results:

* `ByteMachine.Machine.execute_eq_ok_iff` — **the effects are those of the rules**;
* `ByteMachine.Machine.execute_eq_error_iff` — **the failures are those of the rules**.
-/

import ByteMachine.Proofs.Machine.Operations

set_option relaxedAutoImplicit false
set_option autoImplicit false

namespace ByteMachine

/-! ### Jumps -/

namespace Opcode

/-- Whether the instruction is one of the three jumps. -/
def isJump : Opcode → Bool
  | jmp | jeq | jne => true
  | _ => false

/-- Whether the instruction is a jump that is taken with these flags. -/
def takes (op : Opcode) (f : Flags) : Bool :=
  match op with
  | jmp => true
  | jeq => f.equal
  | jne => !f.equal
  | _ => false

theorem isJump_of_takes {op : Opcode} {f : Flags} (h : op.takes f = true) : op.isJump = true := by
  cases op <;> first | rfl | cases h

/-- A jump has one operand. -/
theorem operandCount_of_isJump {op : Opcode} (h : op.isJump = true) : op.operandCount = 1 := by
  cases op <;> first | rfl | cases h

end Opcode

/-! ### Operands -/

namespace Instruction

theorem first_eq_ok_iff {i : Instruction} {b : UInt8} : i.first = .ok b ↔ i.first? = some b := by
  unfold first
  cases i.first? <;> simp

theorem second_eq_ok_iff {i : Instruction} {b : UInt8} :
    i.second = .ok b ↔ i.second? = some b := by
  unfold second
  cases i.second? <;> simp

theorem first_eq_error_iff {i : Instruction} {e : Fault} :
    i.first = .error e ↔ i.first? = none ∧ e = .memoryOutOfBounds (i.address + 1) := by
  unfold first
  cases i.first? <;> simp [eq_comm]

theorem second_eq_error_iff {i : Instruction} {e : Fault} :
    i.second = .error e ↔ i.second? = none ∧ e = .memoryOutOfBounds (i.address + 2) := by
  unfold second
  cases i.second? <;> simp [eq_comm]

/-- The instruction takes a byte off the stack: a return does, and a pop into a register. -/
def Pops (i : Instruction) : Prop :=
  i.opcode = .ret ∨ i.opcode = .pop ∧ ∃ r, i.first? = some r ∧ r.toNat < 8

end Instruction

namespace Registers

theorem get_eq_error_iff {r : Registers} {i : UInt8} {e : Fault} :
    r.get i = .error e ↔ 8 ≤ i.toNat ∧ e = .invalidRegister i := by
  rcases Nat.lt_or_ge i.toNat 8 with h | h
  · rw [get_of_lt h]
    constructor
    · intro he
      cases he
    · rintro ⟨h8, -⟩
      omega
  · simp [get_of_le h, h, eq_comm]

end Registers

namespace AluOp

/-- Only a comparison gives flags. -/
theorem eq_cmp_of_apply_eq_flags {op : AluOp} {x y : UInt8} {p : OverflowPolicy} {f : Flags}
    (h : op.apply x y p = .ok (.flags f)) : op = .cmp ∧ f = .compare x y := by
  cases op with
  | cmp =>
      cases h
      exact ⟨rfl, rfl⟩
  | add | mul =>
      simp only [apply] at h
      cases hfit : p.fit _ _ with
      | ok v => rw [hfit] at h; cases h
      | error e => rw [hfit] at h; cases h

/-- An operation of the arithmetic unit has two operands. -/
theorem operandCount_of_ofOpcode? {o : Opcode} {op : AluOp} (h : ofOpcode? o = some op) :
    o.operandCount = 2 := by
  cases o <;> first | rfl | cases h

/-- A result that does not fit is the only failure of the arithmetic unit. -/
theorem eq_arithmeticOverflow_of_apply {op : AluOp} {x y : UInt8} {p : OverflowPolicy}
    {e : Fault} (h : op.apply x y p = .error e) : e = .arithmeticOverflow op x y := by
  cases op with
  | cmp => cases h
  | add | mul =>
      simp only [apply, OverflowPolicy.fit] at h
      split at h
      · cases h
      · cases p <;> cases h
        rfl

theorem eq_cmp_of_ofOpcode? {op : Opcode} (h : ofOpcode? op = some .cmp) : op = .cmp := by
  cases op <;> first | rfl | cases h

end AluOp

namespace Machine

/-- Whether the instruction pushes a return address: a call always does, a taken jump if the
configuration says so. -/
def leavesReturn (m : Machine) (op : Opcode) : Bool :=
  op == .call || op.takes m.flags && m.config.jumpMode == .pushReturn

/-- The machine after a comparison. -/
def compared (m : Machine) (left right : UInt8) : Machine :=
  { m with flags := .compare left right }

variable {m : Machine} {i : Instruction}

/-! ### Effects -/

/-- **The rules of effects:** in the machine `m` the instruction `i` has this effect. -/
inductive Executes (m : Machine) (i : Instruction) : Effect → Prop
  | hlt (hop : i.opcode = .hlt) : Executes m i ⟨m, none, true⟩
  | ldi {r v : UInt8} (hop : i.opcode = .ldi) (hr : i.first? = some r) (hv : i.second? = some v)
      (hlt : r.toNat < 8) : Executes m i ((m.assigned r v).goto i.next).proceed
  | prn {r v : UInt8} (hop : i.opcode = .prn) (hr : i.first? = some r)
      (hget : m.registers.get r = .ok v) : Executes m i ⟨m.goto i.next, some v, false⟩
  | arith {op : AluOp} {a b x y v : UInt8} (hop : AluOp.ofOpcode? i.opcode = some op)
      (ha : i.first? = some a) (hb : i.second? = some b) (hx : m.registers.get a = .ok x)
      (hy : m.registers.get b = .ok y)
      (hv : op.apply x y m.config.overflow = .ok (.value v)) :
      Executes m i ((m.assigned a v).goto i.next).proceed
  | cmp {a b x y : UInt8} (hop : i.opcode = .cmp) (ha : i.first? = some a)
      (hb : i.second? = some b) (hx : m.registers.get a = .ok x)
      (hy : m.registers.get b = .ok y) :
      Executes m i ((m.compared x y).goto i.next).proceed
  | push {r v : UInt8} (hop : i.opcode = .push) (hr : i.first? = some r)
      (hget : m.registers.get r = .ok v) (hroom : m.config.stackLimit < m.sp) :
      Executes m i ((m.pushed v).goto i.next).proceed
  | pop {r : UInt8} (hop : i.opcode = .pop) (hr : i.first? = some r) (hlt : r.toNat < 8)
      (hfull : m.sp < m.stackBase) :
      Executes m i ((m.popped.assigned r (m.memory.byteAt m.sp)).goto i.next).proceed
  -- a taken jump that pushes is a call
  | call {r t : UInt8} (hop : m.leavesReturn i.opcode = true) (hr : i.first? = some r)
      (hget : m.registers.get r = .ok t) (hnext : i.next < 256)
      (hroom : m.config.stackLimit < m.sp) :
      Executes m i ((m.pushed (UInt8.ofNat i.next)).goto t.toNat).proceed
  | ret (hop : i.opcode = .ret) (hfull : m.sp < m.stackBase) :
      Executes m i (m.popped.goto (m.memory.byteAt m.sp).toNat).proceed
  | jump {r t : UInt8} (hop : i.opcode.takes m.flags = true) (hmode : m.config.jumpMode = .plain)
      (hr : i.first? = some r) (hget : m.registers.get r = .ok t) :
      Executes m i (m.goto t.toNat).proceed
  -- a jump that is not taken still looks at its register
  | pass {r t : UInt8} (hop : i.opcode.isJump = true) (hnot : i.opcode.takes m.flags = false)
      (hr : i.first? = some r) (hget : m.registers.get r = .ok t) :
      Executes m i (m.goto i.next).proceed

/-- A branch that goes through follows one of the three rules of jumps. -/
theorem executes_of_branch {taken : Bool} {m' : Machine} (hjump : i.opcode.isJump = true)
    (htaken : i.opcode.takes m.flags = taken) (h : m.branch i taken = .ok m') :
    m.Executes i m'.proceed := by
  simp only [branch, bind_eq_ok_iff, Instruction.first_eq_ok_iff] at h
  obtain ⟨r, hr, t, hget, h⟩ := h
  cases taken with
  | false =>
      obtain rfl := pure_eq_ok_iff.1 h
      exact .pass hjump htaken hr hget
  | true =>
      cases hmode : m.config.jumpMode with
      | plain =>
          simp only [hmode, if_true, pure_eq_ok_iff] at h
          subst h
          exact .jump htaken hmode hr hget
      | pushReturn =>
          simp only [hmode, if_true, bind_eq_ok_iff, pure_eq_ok_iff, pushReturn_eq_ok_iff] at h
          obtain ⟨_, ⟨hnext, hroom, rfl⟩, rfl⟩ := h
          exact .call (by simp [leavesReturn, htaken, hmode]) hr hget hnext hroom

/-- An arithmetic instruction that goes through writes a register or the flags. -/
theorem executes_of_arithmetic {op : AluOp} {m' : Machine}
    (hop : AluOp.ofOpcode? i.opcode = some op) (h : m.arithmetic i op = .ok m') :
    m.Executes i (m'.goto i.next).proceed := by
  simp only [arithmetic, bind_eq_ok_iff, Instruction.first_eq_ok_iff,
    Instruction.second_eq_ok_iff] at h
  obtain ⟨a, ha, b, hb, x, hx, y, hy, result, hresult, h⟩ := h
  cases result with
  | value v =>
      obtain ⟨-, rfl⟩ := setRegister_eq_ok_iff.1 h
      exact .arith hop ha hb hx hy hresult
  | flags f =>
      obtain ⟨rfl, rfl⟩ := AluOp.eq_cmp_of_apply_eq_flags hresult
      obtain rfl := pure_eq_ok_iff.1 h
      exact .cmp (AluOp.eq_cmp_of_ofOpcode? hop) ha hb hx hy

/-- An instruction of the arithmetic unit is its operation and a step behind it. -/
theorem execute_of_alu {op : AluOp} (hop : AluOp.ofOpcode? i.opcode = some op) :
    m.execute i = m.arithmetic i op >>= fun m' => pure (m'.goto i.next).proceed := by
  unfold execute
  cases h : i.opcode <;> rw [h] at hop <;> cases hop <;> rfl

/-- A jump is a branch on its condition. -/
theorem execute_of_isJump (hjump : i.opcode.isJump = true) :
    m.execute i =
      m.branch i (i.opcode.takes m.flags) >>= fun m' => pure m'.proceed := by
  unfold execute
  cases h : i.opcode <;> rw [h] at hjump <;> cases hjump <;> rfl

theorem executes_of_execute_eq_ok {e : Effect} (h : m.execute i = .ok e) : m.Executes i e := by
  cases hop : i.opcode with
  | hlt =>
      simp only [execute, hop, pure_eq_ok_iff] at h
      subst h
      exact .hlt hop
  | ldi =>
      simp only [execute, hop, bind_eq_ok_iff, pure_eq_ok_iff, Instruction.first_eq_ok_iff,
        Instruction.second_eq_ok_iff, setRegister_eq_ok_iff] at h
      obtain ⟨r, hr, v, hv, _, ⟨hlt, rfl⟩, rfl⟩ := h
      exact .ldi hop hr hv hlt
  | prn =>
      simp only [execute, hop, bind_eq_ok_iff, pure_eq_ok_iff, Instruction.first_eq_ok_iff] at h
      obtain ⟨r, hr, v, hget, rfl⟩ := h
      exact .prn hop hr hget
  | add | mul | cmp =>
      have halu := congrArg AluOp.ofOpcode? hop
      rw [execute_of_alu halu] at h
      obtain ⟨m', harith, he⟩ := bind_eq_ok_iff.1 h
      obtain rfl := pure_eq_ok_iff.1 he
      exact executes_of_arithmetic halu harith
  | push =>
      simp only [execute, hop, bind_eq_ok_iff, pure_eq_ok_iff, Instruction.first_eq_ok_iff,
        push_eq_ok_iff] at h
      obtain ⟨r, hr, v, hget, _, ⟨hroom, rfl⟩, rfl⟩ := h
      exact .push hop hr hget hroom
  | pop =>
      simp only [execute, hop, bind_eq_ok_iff, pure_eq_ok_iff, Instruction.first_eq_ok_iff,
        pop_eq_ok_iff, setRegister_eq_ok_iff] at h
      obtain ⟨r, hr, _, -, _, ⟨hfull, rfl⟩, _, ⟨hlt, rfl⟩, rfl⟩ := h
      exact .pop hop hr hlt hfull
  | call =>
      simp only [execute, hop, bind_eq_ok_iff, pure_eq_ok_iff, Instruction.first_eq_ok_iff,
        pushReturn_eq_ok_iff] at h
      obtain ⟨r, hr, t, hget, _, ⟨hnext, hroom, rfl⟩, rfl⟩ := h
      exact .call (by rw [hop]; rfl) hr hget hnext hroom
  | ret =>
      simp only [execute, hop, bind_eq_ok_iff, pure_eq_ok_iff, pop_eq_ok_iff] at h
      obtain ⟨_, ⟨hfull, rfl⟩, rfl⟩ := h
      exact .ret hop hfull
  | jmp | jeq | jne =>
      have hjump := congrArg Opcode.isJump hop
      rw [execute_of_isJump hjump] at h
      obtain ⟨m', hbranch, he⟩ := bind_eq_ok_iff.1 h
      obtain rfl := pure_eq_ok_iff.1 he
      exact executes_of_branch hjump rfl hbranch

/-- An instruction that leaves a return address is a call or a jump in the mode of calls. -/
theorem leavesReturn_iff {op : Opcode} :
    m.leavesReturn op = true ↔
      op = .call ∨ op.takes m.flags = true ∧ m.config.jumpMode = .pushReturn := by
  simp [leavesReturn]

/-- An instruction that leaves a return address has one operand. -/
theorem operandCount_of_leavesReturn {op : Opcode} (h : m.leavesReturn op = true) :
    op.operandCount = 1 := by
  rcases leavesReturn_iff.1 h with rfl | ⟨htaken, -⟩
  · rfl
  · exact Opcode.operandCount_of_isJump (Opcode.isJump_of_takes htaken)

theorem execute_of_executes {e : Effect} (h : m.Executes i e) : m.execute i = .ok e := by
  cases h with
  | hlt hop => simp only [execute, hop]; rfl
  | ldi hop hr hv hlt =>
      simp only [execute, hop, bind_eq_ok_iff, pure_eq_ok_iff, Instruction.first_eq_ok_iff,
        Instruction.second_eq_ok_iff, setRegister_eq_ok_iff]
      exact ⟨_, hr, _, hv, _, ⟨hlt, rfl⟩, rfl⟩
  | prn hop hr hget =>
      simp only [execute, hop, bind_eq_ok_iff, pure_eq_ok_iff, Instruction.first_eq_ok_iff]
      exact ⟨_, hr, _, hget, rfl⟩
  | arith hop ha hb hx hy hv =>
      simp only [execute_of_alu hop, arithmetic, bind_eq_ok_iff, pure_eq_ok_iff,
        Instruction.first_eq_ok_iff, Instruction.second_eq_ok_iff]
      have hlt := Registers.lt_of_get hx
      exact ⟨_, ⟨_, ha, _, hb, _, hx, _, hy, _, hv, setRegister_eq_ok_iff.2 ⟨hlt, rfl⟩⟩, rfl⟩
  | cmp hop ha hb hx hy =>
      have halu := congrArg AluOp.ofOpcode? hop
      simp only [execute_of_alu halu, arithmetic, bind_eq_ok_iff, pure_eq_ok_iff,
        Instruction.first_eq_ok_iff, Instruction.second_eq_ok_iff]
      exact ⟨_, ⟨_, ha, _, hb, _, hx, _, hy, _, rfl, rfl⟩, rfl⟩
  | push hop hr hget hroom =>
      simp only [execute, hop, bind_eq_ok_iff, pure_eq_ok_iff, Instruction.first_eq_ok_iff,
        push_eq_ok_iff]
      exact ⟨_, hr, _, hget, _, ⟨hroom, rfl⟩, rfl⟩
  | pop hop hr hlt hfull =>
      simp only [execute, hop, bind_eq_ok_iff, pure_eq_ok_iff, Instruction.first_eq_ok_iff,
        pop_eq_ok_iff, setRegister_eq_ok_iff]
      exact ⟨_, hr, _, Registers.get_of_lt hlt, _, ⟨hfull, rfl⟩, _, ⟨hlt, rfl⟩, rfl⟩
  | call hop hr hget hnext hroom =>
      rcases leavesReturn_iff.1 hop with hcall | ⟨htaken, hmode⟩
      · simp only [execute, hcall, bind_eq_ok_iff, pure_eq_ok_iff, Instruction.first_eq_ok_iff,
          pushReturn_eq_ok_iff]
        exact ⟨_, hr, _, hget, _, ⟨hnext, hroom, rfl⟩, rfl⟩
      · simp only [execute_of_isJump (Opcode.isJump_of_takes htaken), branch, htaken, hmode,
          bind_eq_ok_iff, pure_eq_ok_iff, Instruction.first_eq_ok_iff, pushReturn_eq_ok_iff,
          if_true]
        exact ⟨_, ⟨_, hr, _, hget, _, ⟨hnext, hroom, rfl⟩, rfl⟩, rfl⟩
  | ret hop hfull =>
      simp only [execute, hop, bind_eq_ok_iff, pure_eq_ok_iff, pop_eq_ok_iff]
      exact ⟨_, ⟨hfull, rfl⟩, rfl⟩
  | jump htaken hmode hr hget =>
      simp only [execute_of_isJump (Opcode.isJump_of_takes htaken), branch, htaken, hmode,
        bind_eq_ok_iff, pure_eq_ok_iff, Instruction.first_eq_ok_iff, if_true]
      exact ⟨_, ⟨_, hr, _, hget, rfl⟩, rfl⟩
  | pass hjump hnot hr hget =>
      simp only [execute_of_isJump hjump, branch, hnot, bind_eq_ok_iff, pure_eq_ok_iff,
        Instruction.first_eq_ok_iff]
      exact ⟨_, ⟨_, hr, _, hget, rfl⟩, rfl⟩

/-- **The effects of an instruction are those of the rules.** -/
theorem execute_eq_ok_iff {e : Effect} : m.execute i = .ok e ↔ m.Executes i e :=
  ⟨executes_of_execute_eq_ok, execute_of_executes⟩

/-! ### Failures -/

/-- **The rules of failures:** in the machine `m` the instruction `i` fails with this fault. -/
inductive Faults (m : Machine) (i : Instruction) : Fault → Prop
  | first (hop : 1 ≤ i.opcode.operandCount) (hr : i.first? = none) :
      Faults m i (.memoryOutOfBounds (i.address + 1))
  | second {r : UInt8} (hop : i.opcode.operandCount = 2) (hr : i.first? = some r)
      (hv : i.second? = none) : Faults m i (.memoryOutOfBounds (i.address + 2))
  -- an instruction reads both operands before it looks at a register
  | register {r : UInt8} (hop : 1 ≤ i.opcode.operandCount) (hr : i.first? = some r)
      (hv : i.opcode.operandCount = 2 → i.second? ≠ none) (hge : 8 ≤ r.toNat) :
      Faults m i (.invalidRegister r)
  | secondRegister {op : AluOp} {a b : UInt8} (hop : AluOp.ofOpcode? i.opcode = some op)
      (ha : i.first? = some a) (hb : i.second? = some b) (hlt : a.toNat < 8)
      (hge : 8 ≤ b.toNat) : Faults m i (.invalidRegister b)
  | returnAddress {r : UInt8} (hop : m.leavesReturn i.opcode = true) (hr : i.first? = some r)
      (hlt : r.toNat < 8) (hnext : 256 ≤ i.next) : Faults m i (.memoryOutOfBounds i.next)
  | overflow {r : UInt8} (hop : i.opcode = .push ∨ m.leavesReturn i.opcode = true ∧ i.next < 256)
      (hr : i.first? = some r) (hlt : r.toNat < 8) (hsp : m.sp ≤ m.config.stackLimit) :
      Faults m i (.stackOverflow m.sp)
  | underflow (hop : i.Pops) (hsp : m.stackBase ≤ m.sp) : Faults m i (.stackUnderflow m.sp)
  | arithmetic {op : AluOp} {a b x y : UInt8} (hop : AluOp.ofOpcode? i.opcode = some op)
      (ha : i.first? = some a) (hb : i.second? = some b) (hx : m.registers.get a = .ok x)
      (hy : m.registers.get b = .ok y)
      (hv : op.apply x y m.config.overflow = .error (.arithmeticOverflow op x y)) :
      Faults m i (.arithmeticOverflow op x y)

/-- An instruction that takes a byte off an empty stack fails. -/
theorem execute_of_underflow (hop : i.Pops) (hsp : m.stackBase ≤ m.sp) :
    m.execute i = .error (.stackUnderflow m.sp) := by
  have hpop : m.pop = .error (.stackUnderflow m.sp) := pop_eq_error_iff.2 ⟨hsp, rfl⟩
  rcases hop with hop | ⟨hop, r, hr, hlt⟩
  · simp only [execute, hop, hpop]
    rfl
  · simp only [execute, hop, bind_eq_error_iff]
    exact .inr ⟨r, Instruction.first_eq_ok_iff.2 hr, .inr ⟨_, Registers.get_of_lt hlt, .inl hpop⟩⟩

section Failures

variable {α : Type} {e : Fault}

/-- An instruction with one operand fails at it, or later with the register that it names. -/
theorem faults_or_of_register {k : UInt8 → UInt8 → Except Fault α}
    (hop : i.opcode.operandCount = 1)
    (h : (i.first >>= fun r => m.registers.get r >>= k r) = .error e) :
    m.Faults i e ∨ ∃ r v, i.first? = some r ∧ m.registers.get r = .ok v ∧ k r v = .error e := by
  rcases bind_eq_error_iff.1 h with hr | ⟨r, hr, h⟩
  · obtain ⟨hnone, rfl⟩ := Instruction.first_eq_error_iff.1 hr
    exact .inl (.first (by omega) hnone)
  · have hr := Instruction.first_eq_ok_iff.1 hr
    rcases bind_eq_error_iff.1 h with hget | ⟨v, hget, h⟩
    · obtain ⟨hge, rfl⟩ := Registers.get_eq_error_iff.1 hget
      exact .inl (.register (by omega) hr (by omega) hge)
    · exact .inr ⟨r, v, hr, hget, h⟩

/-- An instruction with two operands fails at one of them, or later. -/
theorem faults_or_of_operands {k : UInt8 → UInt8 → Except Fault α}
    (hop : i.opcode.operandCount = 2)
    (h : (i.first >>= fun a => i.second >>= k a) = .error e) :
    m.Faults i e ∨ ∃ a b, i.first? = some a ∧ i.second? = some b ∧ k a b = .error e := by
  rcases bind_eq_error_iff.1 h with ha | ⟨a, ha, h⟩
  · obtain ⟨hnone, rfl⟩ := Instruction.first_eq_error_iff.1 ha
    exact .inl (.first (by omega) hnone)
  · have ha := Instruction.first_eq_ok_iff.1 ha
    rcases bind_eq_error_iff.1 h with hb | ⟨b, hb, h⟩
    · obtain ⟨hnone, rfl⟩ := Instruction.second_eq_error_iff.1 hb
      exact .inl (.second hop ha hnone)
    · exact .inr ⟨a, b, ha, Instruction.second_eq_ok_iff.1 hb, h⟩

/-- Pushing a return address fails at the address or at the stack. -/
theorem faults_of_pushReturn {r t : UInt8} (hop : m.leavesReturn i.opcode = true)
    (hr : i.first? = some r) (hget : m.registers.get r = .ok t)
    (h : m.pushReturn i = .error e) : m.Faults i e := by
  have hlt := Registers.lt_of_get hget
  rcases pushReturn_eq_error_iff.1 h with ⟨hnext, rfl⟩ | ⟨hnext, hsp, rfl⟩
  · exact .returnAddress hop hr hlt hnext
  · exact .overflow (.inr ⟨hop, hnext⟩) hr hlt hsp

/-- A branch fails at its register, or as a call does. -/
theorem faults_of_branch (hjump : i.opcode.isJump = true)
    (h : m.branch i (i.opcode.takes m.flags) = .error e) : m.Faults i e := by
  rcases faults_or_of_register (Opcode.operandCount_of_isJump hjump) h with hf | ⟨r, t, hr, hget, h⟩
  · exact hf
  · cases htaken : i.opcode.takes m.flags with
    | false =>
        rw [htaken] at h
        exact absurd h pure_ne_error
    | true =>
        cases hmode : m.config.jumpMode with
        | plain =>
            simp only [htaken, hmode, if_true] at h
            exact absurd h pure_ne_error
        | pushReturn =>
            simp only [htaken, hmode, if_true] at h
            have h := bind_pure_eq_error_iff.1 h
            exact faults_of_pushReturn (leavesReturn_iff.2 (.inr ⟨htaken, hmode⟩)) hr hget h

/-- An arithmetic instruction fails at its operands, or because its result does not fit. -/
theorem faults_of_arithmetic {op : AluOp} (hop : AluOp.ofOpcode? i.opcode = some op)
    (h : m.arithmetic i op = .error e) : m.Faults i e := by
  have htwo := AluOp.operandCount_of_ofOpcode? hop
  rcases faults_or_of_operands htwo h with hf | ⟨a, b, ha, hb, h⟩
  · exact hf
  rcases bind_eq_error_iff.1 h with hx | ⟨x, hx, h⟩
  · obtain ⟨hge, rfl⟩ := Registers.get_eq_error_iff.1 hx
    exact .register (by omega) ha (by simp [hb]) hge
  have hlt := Registers.lt_of_get hx
  rcases bind_eq_error_iff.1 h with hy | ⟨y, hy, h⟩
  · obtain ⟨hge, rfl⟩ := Registers.get_eq_error_iff.1 hy
    exact .secondRegister hop ha hb hlt hge
  rcases bind_eq_error_iff.1 h with hv | ⟨result, hv, h⟩
  · obtain rfl := AluOp.eq_arithmeticOverflow_of_apply hv
    exact .arithmetic hop ha hb hx hy hv
  cases result with
  | value v =>
      obtain ⟨hge, -⟩ := setRegister_eq_error_iff.1 h
      omega
  | flags f => exact absurd h pure_ne_error

/-- Every failure of an instruction comes from a rule. -/
theorem faults_of_execute_eq_error (h : m.execute i = .error e) : m.Faults i e := by
  cases hop : i.opcode with
  | hlt =>
      simp only [execute, hop] at h
      exact absurd h pure_ne_error
  | ldi =>
      simp only [execute, hop] at h
      have htwo := congrArg Opcode.operandCount hop
      rcases faults_or_of_operands htwo h with hf | ⟨r, v, hr, hv, h⟩
      · exact hf
      have h := bind_pure_eq_error_iff.1 h
      obtain ⟨hge, rfl⟩ := setRegister_eq_error_iff.1 h
      exact .register (htwo ▸ by decide) hr (by simp [hv]) hge
  | prn =>
      simp only [execute, hop] at h
      rcases faults_or_of_register (congrArg Opcode.operandCount hop) h with hf | ⟨_, _, _, _, h⟩
      · exact hf
      · exact absurd h pure_ne_error
  | add | mul | cmp =>
      have halu := congrArg AluOp.ofOpcode? hop
      rw [execute_of_alu halu] at h
      have h := bind_pure_eq_error_iff.1 h
      exact faults_of_arithmetic halu h
  | push =>
      simp only [execute, hop] at h
      rcases faults_or_of_register (congrArg Opcode.operandCount hop) h
        with hf | ⟨r, v, hr, hget, h⟩
      · exact hf
      have h := bind_pure_eq_error_iff.1 h
      obtain ⟨hsp, rfl⟩ := push_eq_error_iff.1 h
      exact .overflow (.inl hop) hr (Registers.lt_of_get hget) hsp
  | pop =>
      simp only [execute, hop] at h
      rcases faults_or_of_register (congrArg Opcode.operandCount hop) h
        with hf | ⟨r, v, hr, hget, h⟩
      · exact hf
      have hlt := Registers.lt_of_get hget
      rcases bind_eq_error_iff.1 h with h | ⟨_, _, h⟩
      · obtain ⟨hsp, rfl⟩ := pop_eq_error_iff.1 h
        exact .underflow (.inr ⟨hop, r, hr, hlt⟩) hsp
      have h := bind_pure_eq_error_iff.1 h
      obtain ⟨hge, -⟩ := setRegister_eq_error_iff.1 h
      omega
  | call =>
      simp only [execute, hop] at h
      rcases faults_or_of_register (congrArg Opcode.operandCount hop) h
        with hf | ⟨r, t, hr, hget, h⟩
      · exact hf
      have h := bind_pure_eq_error_iff.1 h
      exact faults_of_pushReturn (leavesReturn_iff.2 (.inl hop)) hr hget h
  | ret =>
      simp only [execute, hop] at h
      rcases bind_eq_error_iff.1 h with h | ⟨_, _, h⟩
      · obtain ⟨hsp, rfl⟩ := pop_eq_error_iff.1 h
        exact .underflow (.inl hop) hsp
      · exact absurd h pure_ne_error
  | jmp | jeq | jne =>
      have hjump := congrArg Opcode.isJump hop
      rw [execute_of_isJump hjump] at h
      have h := bind_pure_eq_error_iff.1 h
      exact faults_of_branch hjump h

/-- An instruction with one operand begins with it and the register that it names. -/
theorem exists_execute_of_one (hop : i.opcode.operandCount = 1) :
    ∃ k : UInt8 → UInt8 → Except Fault Effect,
      m.execute i = i.first >>= fun r => m.registers.get r >>= k r := by
  cases ho : i.opcode with
  | prn | push | pop | call =>
      simp only [execute, ho]
      exact ⟨_, rfl⟩
  | jmp | jeq | jne =>
      rw [execute_of_isJump (congrArg Opcode.isJump ho)]
      simp only [branch, bind_assoc]
      exact ⟨_, rfl⟩
  | _ =>
      rw [ho] at hop
      cases hop

/-- An instruction with two operands begins with them and the register that the first one names. -/
theorem exists_execute_of_two (hop : i.opcode.operandCount = 2) :
    ∃ k : UInt8 → UInt8 → Except Fault Effect,
      m.execute i = (i.first >>= fun a => i.second >>= k a) ∧
        ∀ a b, 8 ≤ a.toNat → k a b = .error (.invalidRegister a) := by
  cases ho : i.opcode with
  | ldi =>
      simp only [execute, ho]
      refine ⟨_, rfl, fun a b hge => bind_eq_error_iff.2 (.inl ?_)⟩
      exact setRegister_eq_error_iff.2 ⟨hge, rfl⟩
  | add | mul | cmp =>
      rw [execute_of_alu (congrArg AluOp.ofOpcode? ho)]
      simp only [arithmetic, bind_assoc]
      refine ⟨_, rfl, fun a b hge => bind_eq_error_iff.2 (.inl ?_)⟩
      exact Registers.get_eq_error_iff.2 ⟨hge, rfl⟩
  | _ =>
      rw [ho] at hop
      cases hop

/-- Behind its operand and its register, an instruction that leaves a return address fails where
the return address cannot be pushed. -/
theorem execute_of_pushReturn {r : UInt8} (hop : m.leavesReturn i.opcode = true)
    (hr : i.first? = some r) (hlt : r.toNat < 8) (h : m.pushReturn i = .error e) :
    m.execute i = .error e := by
  have hfirst := Instruction.first_eq_ok_iff.2 hr
  have hget := Registers.get_of_lt (r := m.registers) hlt
  rcases leavesReturn_iff.1 hop with hcall | ⟨htaken, hmode⟩
  · simp only [execute, hcall, bind_eq_error_iff]
    exact .inr ⟨r, hfirst, .inr ⟨_, hget, .inl h⟩⟩
  · simp only [execute_of_isJump (Opcode.isJump_of_takes htaken), branch, htaken, hmode, if_true,
      bind_eq_error_iff]
    exact .inl (.inr ⟨r, hfirst, .inr ⟨_, hget, .inl h⟩⟩)

theorem execute_of_faults (h : m.Faults i e) : m.execute i = .error e := by
  have hcount := i.opcode.operandCount_le_two
  cases h with
  | first hop hr =>
      have hfirst := Instruction.first_eq_error_iff.2 ⟨hr, rfl⟩
      rcases Nat.lt_or_ge 1 i.opcode.operandCount with htwo | hone
      · obtain ⟨k, hk, -⟩ := exists_execute_of_two (m := m) (i := i) (by omega)
        exact hk.trans (bind_eq_error_iff.2 (.inl hfirst))
      · obtain ⟨k, hk⟩ := exists_execute_of_one (m := m) (i := i) (by omega)
        exact hk.trans (bind_eq_error_iff.2 (.inl hfirst))
  | @second r hop hr hv =>
      obtain ⟨k, hk, -⟩ := exists_execute_of_two (m := m) hop
      have hfirst := Instruction.first_eq_ok_iff.2 hr
      have hsecond := Instruction.second_eq_error_iff.2 ⟨hv, rfl⟩
      exact hk.trans (bind_eq_error_iff.2 (.inr ⟨r, hfirst, bind_eq_error_iff.2 (.inl hsecond)⟩))
  | @register r hop hr hv hge =>
      have hfirst := Instruction.first_eq_ok_iff.2 hr
      rcases Nat.lt_or_ge 1 i.opcode.operandCount with htwo | hone
      · have htwo : i.opcode.operandCount = 2 := by omega
        obtain ⟨k, hk, hreg⟩ := exists_execute_of_two (m := m) htwo
        obtain ⟨v, hsecond⟩ := Option.ne_none_iff_exists'.1 (hv htwo)
        refine hk.trans (bind_eq_error_iff.2 (.inr ⟨r, hfirst, bind_eq_error_iff.2 (.inr ?_)⟩))
        exact ⟨v, Instruction.second_eq_ok_iff.2 hsecond, hreg r v hge⟩
      · obtain ⟨k, hk⟩ := exists_execute_of_one (m := m) (i := i) (by omega)
        refine hk.trans (bind_eq_error_iff.2 (.inr ⟨r, hfirst, bind_eq_error_iff.2 (.inl ?_)⟩))
        exact Registers.get_eq_error_iff.2 ⟨hge, rfl⟩
  | @secondRegister op a b hop ha hb hlt hge =>
      simp only [execute_of_alu hop, arithmetic, bind_eq_error_iff]
      have hget := Registers.get_eq_error_iff (r := m.registers).2 ⟨hge, rfl⟩
      exact .inl (.inr ⟨a, Instruction.first_eq_ok_iff.2 ha, .inr ⟨b,
        Instruction.second_eq_ok_iff.2 hb, .inr ⟨_, Registers.get_of_lt hlt, .inl hget⟩⟩⟩)
  | returnAddress hop hr hlt hnext =>
      exact execute_of_pushReturn hop hr hlt (pushReturn_eq_error_iff.2 (.inl ⟨hnext, rfl⟩))
  | @overflow r hop hr hlt hsp =>
      rcases hop with hpush | ⟨hop, hnext⟩
      · simp only [execute, hpush, bind_eq_error_iff]
        exact .inr ⟨r, Instruction.first_eq_ok_iff.2 hr, .inr ⟨_, Registers.get_of_lt hlt,
          .inl (push_eq_error_iff.2 ⟨hsp, rfl⟩)⟩⟩
      · exact execute_of_pushReturn hop hr hlt (pushReturn_eq_error_iff.2 (.inr ⟨hnext, hsp, rfl⟩))
  | underflow hop hsp => exact execute_of_underflow hop hsp
  | @arithmetic op a b x y hop ha hb hx hy hv =>
      simp only [execute_of_alu hop, Machine.arithmetic, bind_eq_error_iff]
      exact .inl (.inr ⟨a, Instruction.first_eq_ok_iff.2 ha, .inr ⟨b,
        Instruction.second_eq_ok_iff.2 hb, .inr ⟨x, hx, .inr ⟨y, hy, .inl hv⟩⟩⟩⟩)

/-- **The failures of an instruction are those of the rules.** -/
theorem execute_eq_error_iff : m.execute i = .error e ↔ m.Faults i e :=
  ⟨faults_of_execute_eq_error, execute_of_faults⟩

end Failures

end Machine

end ByteMachine
