/-
**Jumps that push.**

The jump mode says whether a taken jump leaves a return address.  If it does, the jump is a call and
nothing else: with the byte of a call in its place the step is the same, in its result and in what
it leaves behind, and no memory tells the two apart but the byte that was replaced.  A machine asks
for the mode at no other place.  So two machines that differ in their modes only do the same until
the first jump that is taken.  It sends both of them to the same address, and one of them keeps the
address behind the jump on its stack.

Main definitions:

* `ByteMachine.Machine.EqualBut` — machines that are equal but for one byte of memory;
* `ByteMachine.Machine.callTarget` — where a call goes, or why it is refused;
* `ByteMachine.Machine.jumping` — a machine in another jump mode;
* `ByteMachine.Machine.TakesJump`, `ByteMachine.Machine.PassesJumps` — the next step takes a jump,
  and none of the first steps does.

Main results:

* `ByteMachine.Machine.step_of_leavesReturn` — the step of a call, or of a jump that is one;
* `ByteMachine.Machine.step_of_replaced` — **a jump that pushes is a call**;
* `ByteMachine.Machine.stepped_jumping` — **until a jump is taken, modes make no difference**;
* `ByteMachine.Machine.jumps_that_push_are_calls` — both, and what modes do to a taken jump.
-/

import ByteMachine.Proofs.Machine.Precedence
import ByteMachine.Proofs.Machine.Reconfigured

set_option relaxedAutoImplicit false
set_option autoImplicit false

namespace ByteMachine

/-- The configuration with another jump mode. -/
def Config.jumping (mode : JumpMode) (c : Config) : Config := { c with jumpMode := mode }

namespace Machine

variable {m n : Machine} {s : Sinks} {i j : Instruction} {a k : Nat}

/-! ### One byte apart -/

/-- **The machines are equal, but for the byte at this address.** -/
def EqualBut (m : Machine) (a : Nat) (n : Machine) : Prop :=
  ∃ memory, n = { m with memory } ∧ ∀ b, b ≠ a → memory.peek b = m.memory.peek b

theorem EqualBut.config_eq (h : m.EqualBut a n) : n.config = m.config := by
  obtain ⟨memory, rfl, -⟩ := h
  rfl

theorem EqualBut.tick (h : m.EqualBut a n) : m.tick.EqualBut a n.tick := by
  obtain ⟨memory, rfl, hmem⟩ := h
  exact ⟨memory, rfl, hmem⟩

/-- A push writes the same byte into both memories. -/
theorem EqualBut.pushed_goto (h : m.EqualBut a n) (v : UInt8) (pc : Nat) :
    ((m.pushed v).goto pc).EqualBut a ((n.pushed v).goto pc) := by
  obtain ⟨memory, rfl, hmem⟩ := h
  refine ⟨memory.put (m.sp - 1) v, rfl, fun b hb => ?_⟩
  change _ = (m.memory.put (m.sp - 1) v).peek b
  rw [Memory.peek_put, Memory.peek_put, hmem b hb]

/-- If it writes over the byte that differs, no difference is left. -/
theorem EqualBut.pushed_eq (h : m.EqualBut a n) (v : UInt8) (ha : (m.sp - 1).toNat = a) :
    n.pushed v = m.pushed v := by
  obtain ⟨memory, rfl, hmem⟩ := h
  have heq : memory.put (m.sp - 1) v = m.memory.put (m.sp - 1) v := Memory.ext_peek fun b => by
    rw [Memory.peek_put, Memory.peek_put, ha]
    split
    · rfl
    · exact hmem b ‹_›
  exact congrArg (fun memory => { m.pushed v with memory }) heq

/-- A byte of memory can be replaced, and nothing else is. -/
theorem exists_poke (m : Machine) (ha : a < 256) (v : UInt8) :
    ∃ n, m.poke a v = .ok n ∧ m.EqualBut a n ∧ n.memory.peek a = some v := by
  have hwrite : m.memory.write a v = .ok ⟨m.memory.bytes.set a v ha⟩ := dif_pos ha
  refine ⟨{ m with memory := _ }, by rw [poke, hwrite], ⟨_, rfl, fun b hb => ?_⟩, ?_⟩
  · rw [Memory.peek_write hwrite, if_neg hb]
  · exact (Memory.peek_write hwrite a).trans (if_pos rfl)

/-! ### Where jumps and calls go -/

/-- Where a jump goes that is taken: the register says so that its operand names. -/
def jumpTarget (m : Machine) (i : Instruction) : Except Fault UInt8 := do
  m.registers.get (← i.first)

/-- **Where a call goes,** if its return address is pushed. -/
def callTarget (m : Machine) (i : Instruction) : Except Fault UInt8 := do
  let target ← m.jumpTarget i
  if 256 ≤ i.next then .error (.memoryOutOfBounds i.next)
  else if m.sp ≤ m.config.stackLimit then .error (.stackOverflow m.sp)
  else return target

theorem jumpTarget_eq_ok_iff {t : UInt8} (hi : m.fetch = .ok i) :
    m.jumpTarget i = .ok t ↔ m.operandValue? 0 = some t := by
  rw [operandValue?_eq_some_iff, operand?_zero hi, jumpTarget, bind_eq_ok_iff]
  simp only [Instruction.first_eq_ok_iff]

theorem callTarget_eq_ok_iff {t : UInt8} :
    m.callTarget i = .ok t ↔
      m.jumpTarget i = .ok t ∧ i.next < 256 ∧ m.config.stackLimit < m.sp := by
  simp only [callTarget, bind_eq_ok_iff, ite_error_eq_ok_iff, pure_eq_ok_iff, Nat.not_le,
    UInt8.not_le]
  constructor
  · rintro ⟨_, ht, hnext, hroom, rfl⟩
    exact ⟨ht, hnext, hroom⟩
  · rintro ⟨ht, hnext, hroom⟩
    exact ⟨t, ht, hnext, hroom, rfl⟩

/-- An instruction that leaves a return address pushes it and goes where a call goes. -/
theorem execute_of_leavesReturn (hop : m.leavesReturn i.opcode = true) :
    m.execute i = (m.callTarget i).map fun t =>
      ((m.pushed (UInt8.ofNat i.next)).goto t.toNat).proceed := by
  have hcall : m.execute i = do
      let target ← m.jumpTarget i
      return ((← m.pushReturn i).goto target.toNat).proceed := by
    rcases leavesReturn_iff.1 hop with hcall | ⟨htaken, hmode⟩
    · simp only [execute, hcall, jumpTarget, bind_assoc]
    · simp only [execute_of_isJump (Opcode.isJump_of_takes htaken), branch, htaken, hmode,
        if_true, jumpTarget, bind_assoc, pure_bind]
  simp only [hcall, callTarget, pushReturn_eq]
  cases m.jumpTarget i with
  | error e => rfl
  | ok t =>
      by_cases hnext : 256 ≤ i.next
      · simp only [if_pos hnext]
        rfl
      · by_cases hsp : m.sp ≤ m.config.stackLimit
        · simp only [if_neg hnext, if_pos hsp]
          rfl
        · simp only [if_neg hnext, if_neg hsp]
          rfl

/-- A jump that is taken and leaves no return address goes to its target. -/
theorem execute_of_plain (htaken : i.opcode.takes m.flags = true)
    (hmode : m.config.jumpMode = .plain) :
    m.execute i = (m.jumpTarget i).map fun t => (m.goto t.toNat).proceed := by
  simp only [execute_of_isJump (Opcode.isJump_of_takes htaken), branch, htaken, hmode, if_true,
    jumpTarget, bind_assoc, pure_bind]
  cases i.first with
  | error e => rfl
  | ok r =>
      cases hget : m.registers.get r with
      | error e => simp only [bind, Except.bind, hget, Except.map]
      | ok t => simp only [bind, Except.bind, hget, Except.map, pure, Except.pure]

/-- An instruction that leaves a return address is two bytes long. -/
theorem next_of_leavesReturn (hop : m.leavesReturn i.opcode = true) : i.next = i.address + 2 := by
  rw [Instruction.next, Opcode.encodedLength, operandCount_of_leavesReturn hop]

/-- Machines that are equal but for one byte let a call through to the same address. -/
theorem EqualBut.callTarget_eq (h : m.EqualBut a n) (hfirst : j.first = i.first)
    (hnext : j.next = i.next) : n.callTarget j = m.callTarget i := by
  obtain ⟨memory, rfl, -⟩ := h
  unfold callTarget jumpTarget
  rw [hfirst, hnext]
  rfl

/-- What a step leaves behind that goes on with a target, or fails because there is none. -/
def goesOn (m : Machine) (s : Sinks) (f : UInt8 → Machine) : Except Fault UInt8 → Outcome Progress
  | .ok t => ⟨.ok .running, (f t).tick, (m.writeTrace s).2⟩
  | .error e => ⟨.error e, m.tick, (m.writeTrace s).2⟩

theorem step_of_execute_eq_map {x : Except Fault UInt8} {f : UInt8 → Machine} (ht : m.Traces s)
    (hi : m.fetch = .ok i) (hexec : m.execute i = x.map fun t => (f t).proceed) :
    m.step s = m.goesOn s f x := by
  cases x with
  | error e => exact step_of_execute_eq_error ht hi hexec
  | ok t => exact step_of_executes ht hi (executes_of_execute_eq_ok hexec) rfl

/-- **The step of a call,** or of a jump that is one. -/
theorem step_of_leavesReturn (ht : m.Traces s) (hi : m.fetch = .ok i)
    (hop : m.leavesReturn i.opcode = true) :
    m.step s =
      m.goesOn s (fun t => (m.pushed (UInt8.ofNat i.next)).goto t.toNat) (m.callTarget i) :=
  step_of_execute_eq_map ht hi (execute_of_leavesReturn hop)

/-- The step of a jump that is taken and leaves no return address. -/
theorem step_of_plain (ht : m.Traces s) (hi : m.fetch = .ok i)
    (htaken : i.opcode.takes m.flags = true) (hmode : m.config.jumpMode = .plain) :
    m.step s = m.goesOn s (fun t => m.goto t.toNat) (m.jumpTarget i) :=
  step_of_execute_eq_map ht hi (execute_of_plain htaken hmode)

/-! ### A jump and a call in its place -/

/-- The next instruction is a jump that is taken. -/
def AtTakenJump (m : Machine) : Prop := ∃ i, m.fetch = .ok i ∧ i.opcode.takes m.flags = true

/-- With the byte of a call in its place, an instruction with its operands is a call. -/
theorem EqualBut.fetch_call (h : m.EqualBut m.pc n)
    (hbyte : n.memory.peek m.pc = some Opcode.call.encode) (hi : m.fetch = .ok i) :
    n.fetch = .ok { i with opcode := .call } := by
  obtain ⟨-, haddress, hfirst, hsecond⟩ := fetch_eq_ok_iff.1 hi
  obtain ⟨memory, rfl, hmem⟩ := h
  refine fetch_eq_ok_iff.2 ⟨hbyte, haddress, ?_, ?_⟩
  · exact hfirst.trans (hmem _ (by omega)).symm
  · exact hsecond.trans (hmem _ (by omega)).symm

/-- **The two steps are made alike:** they go on or fail with the same result, write the same, and
leave machines behind that are equal but for the byte at this address.  If the stack pointer now
stands there, they are equal. -/
structure Alike (a : Nat) (o o' : Outcome Progress) : Prop where
  result : o'.result = o.result
  goes : o.result ≠ .ok .halted
  sinks : o'.sinks = o.sinks
  machine : o.machine.EqualBut a o'.machine
  pushed : o.result = .ok .running → o.machine.sp.toNat = a → o'.machine = o.machine

/-- **A jump that pushes is a call.** -/
theorem step_of_replaced (hmode : m.config.jumpMode = .pushReturn)
    (htrace : m.config.trace = false) (hjump : m.AtTakenJump) (h : m.EqualBut m.pc n)
    (hbyte : n.memory.peek m.pc = some Opcode.call.encode) :
    Alike m.pc (m.step s) (n.step s) := by
  obtain ⟨i, hi, htaken⟩ := hjump
  have hleaves : m.leavesReturn i.opcode = true := leavesReturn_iff.2 (.inr ⟨htaken, hmode⟩)
  have hcalls : n.leavesReturn .call = true := leavesReturn_iff.2 (.inl rfl)
  have hcall := h.fetch_call hbyte hi
  have hnext : Instruction.next { i with opcode := .call } = i.next :=
    (next_of_leavesReturn hcalls).trans (next_of_leavesReturn hleaves).symm
  have htarget : n.callTarget { i with opcode := .call } = m.callTarget i :=
    h.callTarget_eq rfl hnext
  have hwrite : m.writeTrace s = (.ok (), s) := writeTrace_of_trace_eq_false htrace s
  have hwrite' : n.writeTrace s = (.ok (), s) :=
    writeTrace_of_trace_eq_false (h.config_eq.symm ▸ htrace) s
  rw [step_of_leavesReturn (congrArg Prod.fst hwrite) hi hleaves,
    step_of_leavesReturn (congrArg Prod.fst hwrite') hcall hcalls, htarget, hnext]
  cases m.callTarget i with
  | error e =>
      simp only [goesOn, hwrite, hwrite']
      exact ⟨rfl, nofun, rfl, h.tick, nofun⟩
  | ok t =>
      simp only [goesOn, hwrite, hwrite']
      refine ⟨rfl, nofun, rfl, (h.pushed_goto _ _).tick, fun _ hsp => ?_⟩
      change (m.pushed (UInt8.ofNat i.next)).sp.toNat = m.pc at hsp
      rw [sp_pushed] at hsp
      rw [h.pushed_eq _ hsp]

/-! ### The same machine in both modes -/

/-- **The machine in another jump mode.** -/
def jumping (m : Machine) (mode : JumpMode) : Machine := m.reconfigured (.jumping mode)

/-- **The next step takes a jump:** it comes to execute one, and the jump is taken. -/
structure TakesJump (m : Machine) (s : Sinks) : Prop where
  traces : m.Traces s
  atJump : m.AtTakenJump

/-- None of the first `k` steps takes a jump. -/
def PassesJumps (m : Machine) (s : Sinks) (k : Nat) : Prop :=
  ∀ j < k, ¬(m.stepped s j).machine.TakesJump (m.stepped s j).sinks

/-- A step that takes no jump is the same in both modes. -/
theorem step_jumping (h : ¬m.TakesJump s) (mode : JumpMode) :
    (m.jumping mode).step s = (m.step s).reconfigured (.jumping mode) :=
  step_reconfigured rfl fun htrace i hi =>
    ⟨rfl, fun _ _ _ _ => rfl, fun htaken => absurd ⟨htrace, i, hi, htaken⟩ h⟩

/-- **Until a jump is taken, modes make no difference.** -/
theorem stepped_jumping (h : m.PassesJumps s k) (mode : JumpMode) :
    (m.jumping mode).stepped s k = (m.stepped s k).reconfigured (.jumping mode) :=
  stepped_reconfigured fun j hj => step_jumping (h j hj) mode

theorem stepped_succ_jumping (h : m.PassesJumps s k) (mode : JumpMode) :
    (m.jumping mode).stepped s (k + 1) =
      ((m.stepped s k).machine.jumping mode).step (m.stepped s k).sinks :=
  stepped_succ_reconfigured (stepped_jumping h mode)

/-- A run that takes no jump is the same in both modes. -/
theorem run_jumping {o : Outcome Halt} (hrun : m.run s = some o)
    (h : ∀ k, IsLeast {k | m.Stops s k} k → m.PassesJumps s k) (mode : JumpMode) :
    (m.jumping mode).run s = some (o.reconfigured (.jumping mode)) := by
  obtain ⟨k, hk, -⟩ := exists_isLeast_of_run hrun
  exact run_reconfigured (g := .jumping mode) (fun _ => rfl) hrun hk fun j hj =>
    step_jumping (h k hk j hj) mode

/-! ### A jump that is taken -/

theorem TakesJump.jumping (h : m.TakesJump s) (mode : JumpMode) :
    (m.jumping mode).TakesJump s :=
  ⟨traces_reconfigured rfl h.traces, h.atJump⟩

/-- **A jump that leaves no return address** changes the program counter and the count. -/
theorem step_plain_of_ok (h : m.TakesJump s) (hmode : m.config.jumpMode = .plain) {p : Progress}
    (hok : (m.step s).result = .ok p) :
    ∃ t, m.operandValue? 0 = some t ∧
      m.step s = ⟨.ok .running, { m with pc := t.toNat, cycles := m.cycles + 1 },
        (m.writeTrace s).2⟩ := by
  obtain ⟨ht, i, hi, htaken⟩ := h
  have hstep := step_of_plain ht hi htaken hmode
  rw [hstep] at hok ⊢
  cases htarget : m.jumpTarget i with
  | error e =>
      rw [htarget] at hok
      cases hok
  | ok t => exact ⟨t, (jumpTarget_eq_ok_iff hi).1 htarget, rfl⟩

/-- **A jump that leaves a return address** also pushes the address two bytes behind it. -/
theorem step_pushReturn_of_ok (h : m.TakesJump s) (hmode : m.config.jumpMode = .pushReturn)
    {p : Progress} (hok : (m.step s).result = .ok p) :
    ∃ t sp, m.operandValue? 0 = some t ∧ sp.toNat + 1 = m.sp.toNat ∧ m.pc + 2 < 256 ∧
      m.step s = ⟨.ok .running,
        { m with
          pc := t.toNat
          cycles := m.cycles + 1
          registers := m.registers.setSp sp
          memory := m.memory.put sp (UInt8.ofNat (m.pc + 2)) },
        (m.writeTrace s).2⟩ := by
  obtain ⟨ht, i, hi, htaken⟩ := h
  have hleaves : m.leavesReturn i.opcode = true := leavesReturn_iff.2 (.inr ⟨htaken, hmode⟩)
  have hnext : i.next = m.pc + 2 := by
    rw [next_of_leavesReturn hleaves, (fetch_eq_ok_iff.1 hi).2.1]
  have hstep := step_of_leavesReturn ht hi hleaves
  rw [hstep] at hok ⊢
  cases htarget : m.callTarget i with
  | error e =>
      rw [htarget] at hok
      cases hok
  | ok t =>
      obtain ⟨hjump, hlt, hroom⟩ := callTarget_eq_ok_iff.1 htarget
      rw [hnext] at hlt ⊢
      exact ⟨t, m.sp - 1, (jumpTarget_eq_ok_iff hi).1 hjump, toNat_sub_one hroom, hlt, rfl⟩

/-- **A jump that pushes is a call, and modes differ in nothing else.**  A machine that pushes return
addresses, and stands at a jump that is taken, makes the step that it would make with the byte of a
call in place of the jump's.  In both modes a machine makes the same steps, with the same results
and texts, until it takes a jump; so a run that takes none is the same in both.  A jump that is
taken sends the machine where the register says that its operand names; if return addresses are
pushed, it also puts the address two bytes behind it on top of the stack. -/
theorem jumps_that_push_are_calls (m : Machine) (s : Sinks) :
    (m.config.jumpMode = .pushReturn → m.config.trace = false → m.AtTakenJump →
      ∃ n, m.poke m.pc Opcode.call.encode = .ok n ∧ Alike m.pc (m.step s) (n.step s)) ∧
    (∀ k, m.PassesJumps s k → ∀ mode,
      (m.jumping mode).stepped s k = (m.stepped s k).reconfigured (.jumping mode)) ∧
    (∀ o, m.run s = some o → (∀ k, IsLeast {k | m.Stops s k} k → m.PassesJumps s k) →
      ∀ mode, (m.jumping mode).run s = some (o.reconfigured (.jumping mode))) ∧
    ∀ k r n t, m.PassesJumps s k → m.stepped s k = ⟨r, n, t⟩ → n.TakesJump t →
      (∀ p, ((m.jumping .plain).stepped s (k + 1)).result = .ok p →
        ∃ v, n.operandValue? 0 = some v ∧
          (m.jumping .plain).stepped s (k + 1) =
            ⟨.ok .running, { n.jumping .plain with pc := v.toNat, cycles := n.cycles + 1 },
              (n.writeTrace t).2⟩) ∧
      ∀ p, ((m.jumping .pushReturn).stepped s (k + 1)).result = .ok p →
        ∃ v sp, n.operandValue? 0 = some v ∧ sp.toNat + 1 = n.sp.toNat ∧ n.pc + 2 < 256 ∧
          (m.jumping .pushReturn).stepped s (k + 1) = ⟨.ok .running,
            { n.jumping .pushReturn with
              pc := v.toNat
              cycles := n.cycles + 1
              registers := n.registers.setSp sp
              memory := n.memory.put sp (UInt8.ofNat (n.pc + 2)) },
            (n.writeTrace t).2⟩ := by
  refine ⟨fun hmode htrace hjump => ?_, fun k => stepped_jumping, fun o => run_jumping, ?_⟩
  · obtain ⟨i, hi, -⟩ := id hjump
    obtain ⟨n, hpoke, hequal, hbyte⟩ := m.exists_poke (pc_lt_of_fetch hi) Opcode.call.encode
    exact ⟨n, hpoke, step_of_replaced hmode htrace hjump hequal hbyte⟩
  · intro k r n t hpasses hk htakes
    have hwrite : ∀ mode, (n.jumping mode).writeTrace t = n.writeTrace t :=
      fun mode => writeTrace_reconfigured rfl t
    simp only [stepped_succ_jumping hpasses, hk]
    refine ⟨fun p hok => ?_, fun p hok => ?_⟩
    · have hplain := step_plain_of_ok (htakes.jumping .plain) rfl hok
      rwa [hwrite] at hplain
    · have hpush := step_pushReturn_of_ok (htakes.jumping .pushReturn) rfl hok
      rwa [hwrite] at hpush

/-- A machine that pushes return addresses and has its stack right above a jump, to itself. -/
def jumpsBelowStack : Machine :=
  { fresh { Config.default with stackTop := 1, jumpMode := .pushReturn } with
    memory := Memory.empty.put 0 0x54 }

/-- The jump puts its return address over its own byte, as a call in its place does; without a
return address the byte is kept. -/
theorem jump_pushes_over_itself :
    (∃ n, jumpsBelowStack.poke 0 0x50 = .ok n ∧
      (jumpsBelowStack.step .unlimited).machine.memory.peek 0 = some 2 ∧
      (n.step .unlimited).machine = (jumpsBelowStack.step .unlimited).machine) ∧
    (∃ sp : UInt8, sp.toNat + 1 = 1 ∧
      ((jumpsBelowStack.jumping .pushReturn).stepped .unlimited 1).machine.memory =
        jumpsBelowStack.memory.put sp 2) ∧
    ((jumpsBelowStack.jumping .plain).stepped .unlimited 1).machine.memory =
      jumpsBelowStack.memory := by
  have hjump : jumpsBelowStack.AtTakenJump := ⟨⟨.jmp, 0, some 0, some 0⟩, rfl, rfl⟩
  obtain ⟨hreplace, -, -, htake⟩ := jumps_that_push_are_calls jumpsBelowStack .unlimited
  obtain ⟨n, hpoke, halike⟩ := hreplace rfl rfl hjump
  have hpasses : jumpsBelowStack.PassesJumps .unlimited 0 := fun j hj => by cases hj
  obtain ⟨hplain, hpush⟩ := htake 0 _ _ _ hpasses rfl ⟨rfl, hjump⟩
  obtain ⟨_, -, hplain⟩ := hplain .running rfl
  obtain ⟨_, sp, -, hsp, -, hpush⟩ := hpush .running rfl
  rw [hplain, hpush]
  exact ⟨⟨n, hpoke, rfl, halike.pushed rfl rfl⟩, ⟨sp, hsp, rfl⟩, rfl⟩

end Machine

end ByteMachine
