/-
**Steps that change the machine in place.**

An interpreter that owns its machine does not build a new one for each instruction.  It writes into
the one it has, one field after the other, and what it has written when something is refused stays
written.  Such an interpreter is given here, with every read, check and write of an instruction in
its place.  It agrees with the step that leaves the machine alone when it fails: all that can be
refused is looked at before the first write.

Main definitions:

* `ByteMachine.InPlace` — computations whose changes stay when they fail;
* `ByteMachine.InPlace.load`, `InPlace.poke`, `InPlace.execute`, `InPlace.step` — the interpreter;
* `ByteMachine.InPlace.Settles`, `InPlace.Agrees` — parts and instructions that end as they should.

Main results:

* `ByteMachine.InPlace.settles_load` — an image that is copied byte by byte is copied whole or not
  at all;
* `ByteMachine.InPlace.run_step` — **the two interpreters agree**.
-/

import ByteMachine.Proofs.Machine.Steps

set_option relaxedAutoImplicit false
set_option autoImplicit false

namespace ByteMachine

/-- **A computation on a machine in place:** it leaves a machine behind also when it fails. -/
def InPlace (α : Type) : Type := Machine → Sinks → Outcome α

namespace InPlace

variable {α β : Type}

instance : Monad InPlace where
  pure a := fun m s => ⟨.ok a, m, s⟩
  bind x f := fun m s =>
    match x m s with
    | ⟨.ok a, m, s⟩ => f a m s
    | ⟨.error e, m, s⟩ => ⟨.error e, m, s⟩

/-- Looks at the machine. -/
def ask (f : Machine → Except Fault α) : InPlace α := fun m s => ⟨f m, m, s⟩

/-- Writes into the machine. -/
def change (f : Machine → Machine) : InPlace Unit := fun m s => ⟨.ok (), f m, s⟩

/-- Writes a text into a sink. -/
def emit (f : Machine → Sinks → Except Sink.Error Unit × Sinks) : InPlace Unit := fun m s =>
  match f m s with
  | (.ok (), s) => ⟨.ok (), m, s⟩
  | (.error x, s) => ⟨.error x.fault, m, s⟩

/-- What the computation leaves behind. -/
def run (x : InPlace α) (m : Machine) (s : Sinks) : Outcome α := x m s

@[simp] theorem run_change (f : Machine → Machine) (m : Machine) (s : Sinks) :
    (change f).run m s = ⟨.ok (), f m, s⟩ := rfl

theorem run_bind (x : InPlace α) (k : α → InPlace β) (m : Machine) (s : Sinks) :
    (x >>= k).run m s =
      match x.run m s with
      | ⟨.ok a, m, s⟩ => (k a).run m s
      | ⟨.error e, m, s⟩ => ⟨.error e, m, s⟩ := rfl

theorem run_ask_bind (f : Machine → Except Fault α) (k : α → InPlace β) (m : Machine)
    (s : Sinks) :
    (ask f >>= k).run m s =
      match f m with
      | .ok a => (k a).run m s
      | .error e => ⟨.error e, m, s⟩ := by
  rw [run_bind, run, ask]
  cases f m <;> rfl

/-! ### The interpreter -/

/-- Writes one byte of memory from outside. -/
def poke (address : Nat) (value : UInt8) : InPlace Unit := do
  let memory ← ask fun m => m.memory.write address value
  change fun m => { m with memory }

/-- Writes bytes from outside, one after the other. -/
def copy (address : Nat) : List UInt8 → InPlace Unit
  | [] => return
  | b :: bs => do
    poke address b
    copy (address + 1) bs

/-- Writes an image from outside, whose length is looked at first. -/
def load (image : List UInt8) : InPlace Unit := do
  let _ ← ask fun _ =>
    if image.length ≤ Memory.size then .ok ()
    else .error (.programTooLarge image.length Memory.size)
  copy 0 image

/-- Writes a register, and behind it the stack base if that register is the stack pointer. -/
def setRegister (index value : UInt8) : InPlace Unit := do
  let registers ← ask fun m => m.registers.set index value
  change fun m => { m with registers }
  if index = Registers.spIndex then
    change fun m => { m with stackBase := value }

/-- Pushes a byte: memory is written before the stack pointer. -/
def push (value : UInt8) : InPlace Unit := do
  let sp ← ask fun m =>
    if m.sp ≤ m.config.stackLimit then .error (.stackOverflow m.sp) else .ok (m.sp - 1)
  let memory ← ask fun m => m.memory.write sp.toNat value
  change fun m => { m with memory }
  change fun m => { m with registers := m.registers.setSp sp }

/-- Pops a byte. -/
def pop : InPlace UInt8 := do
  let sp ← ask fun m =>
    if m.stackBase ≤ m.sp then .error (.stackUnderflow m.sp) else .ok m.sp
  let value ← ask fun m => m.memory.read sp.toNat
  change fun m => { m with registers := m.registers.setSp (sp + 1) }
  return value

/-- Pops a byte into a register. -/
def popInto (register : UInt8) : InPlace Unit := do
  setRegister register (← pop)

/-- Pushes the address behind the instruction. -/
def pushReturn (i : Instruction) : InPlace Unit := do
  let address ← ask fun _ =>
    if i.next < 256 then .ok (UInt8.ofNat i.next) else .error (.memoryOutOfBounds i.next)
  push address

/-- Where an instruction leaves the program counter to go. -/
inductive Onward where
  | next
  | jump (target : UInt8)
  | halt

/-- Jumps to the address in a register if `taken` holds, perhaps as a call does. -/
def branch (i : Instruction) (taken : Bool) : InPlace Onward := do
  let r ← ask fun _ => i.first
  let target ← ask fun m => m.registers.get r
  if taken then
    let mode ← ask fun m => .ok m.config.jumpMode
    if mode = .pushReturn then pushReturn i
    return .jump target
  else
    return .next

/-- An operation of the arithmetic unit. -/
def arithmetic (i : Instruction) (op : AluOp) : InPlace Onward := do
  let a ← ask fun _ => i.first
  let b ← ask fun _ => i.second
  let left ← ask fun m => m.registers.get a
  let right ← ask fun m => m.registers.get b
  match ← ask fun m => op.apply left right m.config.overflow with
  | .value v => setRegister a v
  | .flags flags => change fun m => { m with flags }
  return .next

/-- **Executes a decoded instruction in place**, apart from the program counter. -/
def execute (i : Instruction) : InPlace Onward := do
  match i.opcode with
  | .hlt => return .halt
  | .ldi =>
    let register ← ask fun _ => i.first
    let value ← ask fun _ => i.second
    setRegister register value
    return .next
  | .prn =>
    let register ← ask fun _ => i.first
    let value ← ask fun m => m.registers.get register
    emit fun _ s => Machine.writeValue s (some value)
    return .next
  | .add => arithmetic i .add
  | .mul => arithmetic i .mul
  | .cmp => arithmetic i .cmp
  | .push =>
    let register ← ask fun _ => i.first
    let value ← ask fun m => m.registers.get register
    push value
    return .next
  | .pop =>
    let register ← ask fun _ => i.first
    let _ ← ask fun m => m.registers.get register
    popInto register
    return .next
  | .call =>
    let register ← ask fun _ => i.first
    let target ← ask fun m => m.registers.get register
    pushReturn i
    return .jump target
  | .ret => return .jump (← pop)
  | .jmp => branch i true
  | .jeq => branch i (← ask fun m => .ok m.flags.equal)
  | .jne => branch i (!(← ask fun m => .ok m.flags.equal))

/-- Moves the program counter behind an executed instruction. -/
def proceed (i : Instruction) : Onward → InPlace Progress
  | .next => do
    change fun m => m.goto i.next
    return .running
  | .jump target => do
    change fun m => m.goto target.toNat
    return .running
  | .halt => return .halted

/-- **One step in place.** -/
def step : InPlace Progress := do
  emit Machine.writeTrace
  let i ← ask Machine.fetch
  change Machine.tick
  proceed i (← execute i)

/-! ### Writes come last -/

section Settling

variable {m : Machine} {i : Instruction}

/-- **The computation fails before it writes anything**, or it does not fail: it ends with the
machine that `e` gives, and with the machine it began with if `e` gives none. -/
def Settles (x : InPlace Unit) (m : Machine) (e : Except Fault Machine) : Prop :=
  ∀ s, x.run m s =
    match e with
    | .ok m' => ⟨.ok (), m', s⟩
    | .error f => ⟨.error f, m, s⟩

theorem settles_poke (a : Nat) (v : UInt8) : Settles (poke a v) m (m.poke a v) := by
  intro s
  rw [poke, run_ask_bind, Machine.poke]
  cases m.memory.write a v with
  | error e => rfl
  | ok n => rfl

/-- Bytes that lie in memory are all written. -/
theorem run_copy (m : Machine) (s : Sinks) {a : Nat} (bs : List UInt8)
    (h : a + bs.length ≤ 256) :
    ∃ n : Memory, (copy a bs).run m s = ⟨.ok (), { m with memory := n }, s⟩ ∧
      ∀ k, n.peek k = if a ≤ k ∧ k < a + bs.length then bs[k - a]? else m.memory.peek k := by
  -- induction on the bytes that are still to be written
  induction bs generalizing a m with
  | nil =>
      refine ⟨m.memory, rfl, fun k => (if_neg ?_).symm⟩
      simp only [List.length_nil]
      omega
  | cons b bs ih =>
      simp only [List.length_cons] at h ⊢
      have hwrite : m.memory.write a b = .ok ⟨m.memory.bytes.set a b (by omega)⟩ :=
        dif_pos (by omega)
      obtain ⟨n, hrun, hpeek⟩ := ih { m with memory := _ } (a := a + 1) (by omega)
      refine ⟨n, ?_, fun k => ?_⟩
      · rw [copy, run_bind, settles_poke, Machine.poke, hwrite]
        exact hrun
      · rw [hpeek, Memory.peek_write hwrite]
        rcases Nat.lt_trichotomy k a with hk | rfl | hk
        · rw [if_neg (by omega), if_neg (by omega), if_neg (by omega)]
        · rw [if_neg (by omega), if_pos rfl, if_pos (by omega), Nat.sub_self,
            List.getElem?_cons_zero]
        · obtain ⟨j, rfl⟩ : ∃ j, k = a + 1 + j := ⟨k - (a + 1), by omega⟩
          rw [if_neg (show a + 1 + j ≠ a by omega), Nat.add_sub_cancel_left,
            show a + 1 + j - a = j + 1 by omega, List.getElem?_cons_succ]
          by_cases hj : j < bs.length
          · rw [if_pos (by omega), if_pos (by omega)]
          · rw [if_neg (by omega), if_neg (by omega)]

theorem settles_load (image : List UInt8) : Settles (load image) m (m.load image) := by
  intro s
  rw [load, run_ask_bind, Machine.load]
  by_cases h : image.length ≤ Memory.size
  · obtain ⟨n, hrun, hpeek⟩ := run_copy m s (a := 0) image (by rw [Nat.zero_add]; exact h)
    obtain ⟨n', hload⟩ : ∃ n', m.memory.load image = .ok n' := ⟨_, if_pos h⟩
    obtain rfl : n = n' := Memory.ext_peek fun k => by simp [hpeek, Memory.peek_load hload]
    simp only [if_pos h, hload]
    exact hrun
  · simp only [Memory.load, if_neg h]

theorem settles_setRegister (r v : UInt8) : Settles (setRegister r v) m (m.setRegister r v) := by
  intro s
  rw [Machine.setRegister_eq, setRegister, run_ask_bind, Registers.set_eq]
  by_cases hr : 8 ≤ r.toNat
  · simp only [if_pos hr]
  · by_cases hsp : r = Registers.spIndex
    · subst hsp
      rfl
    · simp only [if_neg hr, if_neg hsp, run_bind, Machine.assigned]
      rfl

theorem settles_push (v : UInt8) : Settles (push v) m (m.push v) := by
  intro s
  rw [Machine.push_eq, push, run_ask_bind]
  by_cases hfull : m.sp ≤ m.config.stackLimit
  · simp only [if_pos hfull]
  · simp only [if_neg hfull, run_ask_bind, Memory.write_toNat]
    rfl

theorem run_pop (m : Machine) (s : Sinks) :
    pop.run m s =
      match m.pop with
      | .ok (v, m') => ⟨.ok v, m', s⟩
      | .error f => ⟨.error f, m, s⟩ := by
  rw [Machine.pop_eq, pop, run_ask_bind]
  by_cases hempty : m.stackBase ≤ m.sp
  · simp only [if_pos hempty]
  · simp only [if_neg hempty, run_ask_bind, Memory.read_toNat]
    rfl

theorem settles_popInto {r : UInt8} (hr : r.toNat < 8) :
    Settles (popInto r) m (m.pop >>= fun p => p.2.setRegister r p.1) := by
  intro s
  rw [popInto, run_bind, run_pop]
  cases m.pop with
  | error f => rfl
  | ok p =>
      -- the register exists, so nothing is refused behind the pop
      have hset : p.2.setRegister r p.1 = .ok (p.2.assigned r p.1) :=
        Machine.setRegister_eq_ok_iff.2 ⟨hr, rfl⟩
      have hsettles := settles_setRegister (m := p.2) r p.1 s
      rw [hset] at hsettles
      simp only [hsettles, bind, Except.bind, hset]

theorem settles_pushReturn (i : Instruction) : Settles (pushReturn i) m (m.pushReturn i) := by
  intro s
  rw [pushReturn, run_ask_bind, Machine.pushReturn]
  by_cases hnext : i.next < 256
  · simp only [if_pos hnext]
    exact settles_push _ s
  · simp only [if_neg hnext]

end Settling

/-! ### The two interpreters -/

section Agreement

variable {m : Machine} {i : Instruction}

/-- **The instruction `i` ends as the effect says:** what is printed is written, then the program
counter moves; if there is no effect the machine is left alone. -/
def Agrees (x : InPlace Onward) (i : Instruction) (m : Machine) (r : Except Fault Effect) : Prop :=
  ∀ s, (x >>= proceed i).run m s =
    match r with
    | .error e => ⟨.error e, m, s⟩
    | .ok f =>
      match Machine.writeValue s f.printed with
      | (.error e, s) => ⟨.error e.fault, m, s⟩
      | (.ok (), s) => ⟨.ok (if f.halts then .halted else .running), f.machine, s⟩

theorem Agrees.ask {f : Machine → Except Fault α} {x : α → InPlace Onward}
    {r : α → Except Fault Effect} (h : ∀ a, f m = .ok a → Agrees (x a) i m (r a)) :
    Agrees (InPlace.ask f >>= x) i m (f m >>= r) := by
  intro s
  rw [run_bind, run_ask_bind]
  cases hf : f m with
  | error e => rfl
  | ok a => exact h a hf s

/-- A look at what is always there changes nothing. -/
theorem Agrees.ask_of_eq {f : Machine → Except Fault α} {x : α → InPlace Onward} {a : α}
    {r : Except Fault Effect} (hf : f m = .ok a) (h : Agrees (x a) i m r) :
    Agrees (InPlace.ask f >>= x) i m r := by
  intro s
  rw [run_bind, run_ask_bind, hf]
  exact h s

/-- What only ends an instruction agrees if it does not fail behind a write. -/
theorem Settles.agrees {x : InPlace Unit} {e : Except Fault Machine} (h : Settles x m e) :
    Agrees (x >>= fun _ => pure .next) i m (e >>= fun m' => pure (m'.goto i.next).proceed) := by
  intro s
  rw [run_bind, run_bind, h s]
  cases e with
  | error f => rfl
  | ok m' => rfl

theorem Settles.agrees_jump {x : InPlace Unit} {e : Except Fault Machine} (h : Settles x m e)
    (t : UInt8) :
    Agrees (x >>= fun _ => pure (.jump t)) i m
      (e >>= fun m' => pure (m'.goto t.toNat).proceed) := by
  intro s
  rw [run_bind, run_bind, h s]
  cases e with
  | error f => rfl
  | ok m' => rfl

theorem agrees_arithmetic (op : AluOp) :
    Agrees (arithmetic i op) i m
      (m.arithmetic i op >>= fun m' => pure (m'.goto i.next).proceed) := by
  unfold arithmetic Machine.arithmetic
  simp only [bind_assoc]
  refine .ask fun a _ => .ask fun b _ => .ask fun x _ => .ask fun y _ => .ask fun v _ => ?_
  cases v with
  | value v => exact (settles_setRegister a v).agrees
  | flags f => exact fun s => rfl

theorem agrees_branch (taken : Bool) :
    Agrees (branch i taken) i m (m.branch i taken >>= fun m' => pure m'.proceed) := by
  unfold branch Machine.branch
  simp only [bind_assoc]
  refine .ask fun r _ => .ask fun t _ => ?_
  cases taken with
  | false => exact fun s => rfl
  | true =>
      refine .ask_of_eq rfl ?_
      cases m.config.jumpMode with
      | plain => exact fun s => rfl
      | pushReturn =>
          have h := (settles_pushReturn i).agrees_jump (i := i) (m := m) t
          simp only [if_true, bind_assoc, pure_bind]
          exact h

theorem agrees_execute : Agrees (execute i) i m (m.execute i) := by
  unfold execute Machine.execute
  cases i.opcode with
  | hlt => exact fun s => rfl
  | ldi => exact .ask fun r _ => .ask fun v _ => (settles_setRegister r v).agrees
  | prn =>
      refine .ask fun r _ => .ask fun v _ => fun s => ?_
      rw [run_bind, run_bind, run, emit]
      rcases hw : Machine.writeValue s (some v) with ⟨_ | _, t⟩
      · simp only [pure, Except.pure, hw]
      · simp only [pure, Except.pure, hw]
        rfl
  | add => exact agrees_arithmetic .add
  | mul => exact agrees_arithmetic .mul
  | cmp => exact agrees_arithmetic .cmp
  | push => exact .ask fun r _ => .ask fun v _ => (settles_push v).agrees
  | pop =>
      refine .ask fun r _ => .ask fun _ hget => ?_
      have h := (settles_popInto (m := m) (Registers.lt_of_get hget)).agrees (i := i)
      rwa [bind_assoc] at h
  | call => exact .ask fun r _ => .ask fun t _ => (settles_pushReturn i).agrees_jump t
  | ret =>
      intro s
      rw [run_bind, run_bind, run_pop]
      cases m.pop <;> rfl
  | jmp => exact agrees_branch true
  | jeq => exact agrees_branch m.flags.equal
  | jne => exact agrees_branch !m.flags.equal

/-- An instruction does not look at the number of instructions executed. -/
theorem execute_tick :
    m.tick.execute i = (m.execute i).map fun f => { f with machine := f.machine.tick } := by
  cases h : m.execute i with
  | ok f =>
      refine Machine.execute_eq_ok_iff.2 ?_
      cases Machine.execute_eq_ok_iff.1 h with
      | hlt hop => exact .hlt hop
      | ldi hop hr hv hlt => exact .ldi hop hr hv hlt
      | prn hop hr hget => exact .prn hop hr hget
      | arith hop ha hb hx hy hv => exact .arith hop ha hb hx hy hv
      | cmp hop ha hb hx hy => exact .cmp hop ha hb hx hy
      | push hop hr hget hroom => exact .push hop hr hget hroom
      | pop hop hr hlt hfull => exact .pop hop hr hlt hfull
      | call hop hr hget hnext hroom => exact .call hop hr hget hnext hroom
      | ret hop hfull => exact .ret hop hfull
      | jump hop hmode hr hget => exact .jump hop hmode hr hget
      | pass hop hnot hr hget => exact .pass hop hnot hr hget
  | error e =>
      refine Machine.execute_eq_error_iff.2 ?_
      cases Machine.execute_eq_error_iff.1 h with
      | first hop hr => exact .first hop hr
      | second hop hr hv => exact .second hop hr hv
      | register hop hr hv hge => exact .register hop hr hv hge
      | secondRegister hop ha hb hlt hge => exact .secondRegister hop ha hb hlt hge
      | returnAddress hop hr hlt hnext => exact .returnAddress hop hr hlt hnext
      | overflow hop hr hlt hsp => exact .overflow hop hr hlt hsp
      | underflow hop hsp => exact .underflow hop hsp
      | arithmetic hop ha hb hx hy hv => exact .arithmetic hop ha hb hx hy hv

/-- **The two interpreters agree.**  A step in place ends as the step does that builds a new
machine, with the same machine also if it fails. -/
theorem run_step (m : Machine) (s : Sinks) : step.run m s = m.step s := by
  rw [step, run_bind, run, emit, Machine.step]
  rcases m.writeTrace s with ⟨_ | _, t⟩
  · rfl
  · simp only [run_ask_bind]
    cases m.fetch with
    | error e => rfl
    | ok i =>
        simp only [run_bind _ _ m, run_change]
        rw [agrees_execute, execute_tick]
        cases m.execute i with
        | error e => rfl
        | ok f => rfl

end Agreement

end InPlace

end ByteMachine
