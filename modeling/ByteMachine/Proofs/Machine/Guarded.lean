/-
**Steps that watch themselves.**

Instructions are carried out by several units: one loads registers, one does arithmetic, one serves
the stack, one the program counter and one the output.  A unit that is handed an instruction of
another unit does not know what to do.  Nor would there be anything sensible to do if memory refused
a byte that the stack has room for, if the stack pointer ran over, or if an address came up far
behind memory.  The machine steps as if nothing of this could happen.  Here is a machine that does
not rely on it: its step looks for every such *defect* and stops at the first one, which is
something else than a fault of the program.

For a machine in a state that calls can lead to, the two machines make the same steps.  So there are
no defects, and what would have to be done about them is never done.  Every defect is out of reach
for a reason of its own: the units divide the opcodes among themselves, the opcodes of the
arithmetic unit are those that are marked for it, a push is made above the stack limit and a pop
below the stack base, a register is looked at before anything is popped into it, and the program
counter is at most one behind memory.

Main definitions:

* `ByteMachine.Defect`, `ByteMachine.Guarded` — defects, and computations that look for them;
* `ByteMachine.ExecutionUnit`, `Opcode.executionUnit` — the units and their opcodes;
* `ByteMachine.Guarded.carryOut`, `Guarded.execute`, `Guarded.step` — the machine that watches
  itself.

Main results:

* `ByteMachine.Guarded.push_eq`, `pop_eq` — the stack does not refuse what it has checked;
* `ByteMachine.Guarded.execute_eq` — no instruction that can be fetched meets a defect;
* `ByteMachine.Guarded.exists_defect_iff` — a unit stops at the instructions of the others;
* `ByteMachine.Machine.steps_meet_no_defect` — **no step meets a defect**.
-/

import ByteMachine.Proofs.Machine.InPlace
import ByteMachine.Proofs.Machine.Reachable

set_option relaxedAutoImplicit false
set_option autoImplicit false

namespace ByteMachine

/-! ### Units -/

/-- The units that carry out instructions. -/
inductive ExecutionUnit where
  | load
  | arithmetic
  | stack
  | control
  | output
  deriving DecidableEq, Repr

/-- **The unit that an instruction is handed to.** -/
def Opcode.executionUnit : Opcode → ExecutionUnit
  | ldi => .load
  | add | mul | cmp => .arithmetic
  | push | pop => .stack
  | hlt | call | ret | jmp | jeq | jne => .control
  | prn => .output

/-! ### Defects -/

/-- **What must never come up in a step.** -/
inductive Defect where
  /-- A unit has been handed an instruction of another unit. -/
  | misdirected (unit : ExecutionUnit) (op : Opcode)
  /-- The arithmetic unit finds no operation for its instruction. -/
  | noOperation (op : Opcode)
  /-- A write or read has failed behind the checks that were to ensure it. -/
  | refused (e : Fault)
  /-- The stack pointer is taken down from zero. -/
  | belowZero
  /-- The stack pointer is taken up from 255. -/
  | aboveByte
  /-- An address lies further behind memory than the two bytes that are looked at together with an
  opcode. -/
  | farAddress (address : Nat)
  deriving DecidableEq, Repr

/-- **A computation that looks for defects.**  It stops at a defect; otherwise it ends or fails as
computations on a machine do. -/
abbrev Guarded : Type → Type := ExceptT Fault (Except Defect)

namespace Guarded

variable {α β : Type}

/-- Stops at a defect. -/
def stop (d : Defect) : Guarded α := ExceptT.mk (.error d)

/-- What may fail. -/
def of (x : Except Fault α) : Guarded α := ExceptT.mk (.ok x)

/-- What may not fail. -/
def surely : Except Fault α → Guarded α
  | .ok a => of (.ok a)
  | .error e => stop (.refused e)

/-- An address that is computed. -/
def address (a : Nat) : Guarded Nat := if a ≤ 258 then of (.ok a) else stop (.farAddress a)

/-- A stack pointer, one down. -/
def down (sp : UInt8) : Guarded UInt8 :=
  if 1 ≤ sp.toNat then of (.ok (sp - 1)) else stop .belowZero

/-- A stack pointer, one up. -/
def up (sp : UInt8) : Guarded UInt8 :=
  if sp.toNat + 1 ≤ 255 then of (.ok (sp + 1)) else stop .aboveByte

/-! ### Parts of an instruction -/

/-- The first operand. -/
def first (i : Instruction) : Guarded UInt8 := do
  let _ ← address (i.address + 1)
  of i.first

/-- The second operand. -/
def second (i : Instruction) : Guarded UInt8 := do
  let _ ← address (i.address + 2)
  of i.second

/-- The address behind the instruction. -/
def next (i : Instruction) : Guarded Nat := address (i.address + i.opcode.encodedLength)

/-- Pushes a byte. -/
def push (m : Machine) (value : UInt8) : Guarded Machine :=
  if m.sp ≤ m.config.stackLimit then of (.error (.stackOverflow m.sp))
  else do
    let sp ← down m.sp
    let memory ← surely (m.memory.write sp.toNat value)
    return { m with memory, registers := m.registers.setSp sp }

/-- Pops a byte. -/
def pop (m : Machine) : Guarded (UInt8 × Machine) :=
  if m.stackBase ≤ m.sp then of (.error (.stackUnderflow m.sp))
  else do
    let value ← surely (m.memory.read m.sp.toNat)
    let sp ← up m.sp
    return (value, { m with registers := m.registers.setSp sp })

/-- Pushes the address behind the instruction. -/
def pushReturn (m : Machine) (i : Instruction) : Guarded Machine := do
  let next ← next i
  if next < 256 then push m (UInt8.ofNat next) else of (.error (.memoryOutOfBounds next))

/-! ### The units at work -/

/-- **What a unit hands back:** the machine without a new program counter, a value to print, and
where to go. -/
structure Handed where
  machine : Machine
  printed : Option UInt8
  onward : InPlace.Onward

/-- The unit that loads registers. -/
def load (m : Machine) (i : Instruction) : Guarded Handed :=
  match i.opcode with
  | .ldi => do
    let register ← first i
    let value ← second i
    return ⟨← of (m.setRegister register value), none, .next⟩
  | op => stop (.misdirected .load op)

/-- The arithmetic unit.  It looks at the opcode byte for what to do. -/
def arithmetic (m : Machine) (i : Instruction) : Guarded Handed :=
  match AluOp.ofByte? i.opcode.encode with
  | some op => do
    let a ← first i
    let b ← second i
    let left ← of (m.registers.get a)
    let right ← of (m.registers.get b)
    match ← of (op.apply left right m.config.overflow) with
    | .value v => return ⟨← surely (m.setRegister a v), none, .next⟩
    | .flags flags => return ⟨{ m with flags }, none, .next⟩
  | none => stop (.noOperation i.opcode)

/-- The unit that serves the stack.  It looks at its operand before it looks what to do. -/
def stack (m : Machine) (i : Instruction) : Guarded Handed := do
  let register ← first i
  match i.opcode with
  | .push =>
    let value ← of (m.registers.get register)
    return ⟨← push m value, none, .next⟩
  | .pop =>
    let _ ← of (m.registers.get register)
    let (value, m) ← pop m
    return ⟨← surely (m.setRegister register value), none, .next⟩
  | op => stop (.misdirected .stack op)

/-- A jump that is taken or not. -/
def branch (m : Machine) (i : Instruction) (taken : Bool) : Guarded Handed := do
  let target ← of (m.registers.get (← first i))
  if taken then
    match m.config.jumpMode with
    | .plain => return ⟨m, none, .jump target⟩
    | .pushReturn => return ⟨← pushReturn m i, none, .jump target⟩
  else
    return ⟨m, none, .next⟩

/-- The unit that sets the program counter. -/
def control (m : Machine) (i : Instruction) : Guarded Handed :=
  match i.opcode with
  | .hlt => return ⟨m, none, .halt⟩
  | .call => do
    let target ← of (m.registers.get (← first i))
    return ⟨← pushReturn m i, none, .jump target⟩
  | .ret => do
    let (target, m) ← pop m
    return ⟨m, none, .jump target⟩
  | .jmp => branch m i true
  | .jeq => branch m i m.flags.equal
  | .jne => branch m i (!m.flags.equal)
  | op => stop (.misdirected .control op)

/-- The unit that prints. -/
def output (m : Machine) (i : Instruction) : Guarded Handed :=
  match i.opcode with
  | .prn => do
    let value ← of (m.registers.get (← first i))
    return ⟨m, some value, .next⟩
  | op => stop (.misdirected .output op)

/-- **The work of a unit** on an instruction, its own or not. -/
def carryOut : ExecutionUnit → Machine → Instruction → Guarded Handed
  | .load => load
  | .arithmetic => arithmetic
  | .stack => stack
  | .control => control
  | .output => output

/-- The new program counter. -/
def proceed (i : Instruction) (h : Handed) : Guarded Effect :=
  match h.onward with
  | .next => return ⟨h.machine.goto (← next i), h.printed, false⟩
  | .jump target => return ⟨h.machine.goto (← address target.toNat), h.printed, false⟩
  | .halt => return ⟨h.machine, h.printed, true⟩

/-- **Executes a decoded instruction.** -/
def execute (m : Machine) (i : Instruction) : Guarded Effect := do
  proceed i (← carryOut i.opcode.executionUnit m i)

/-- The instruction at the program counter. -/
def fetch (m : Machine) : Guarded Instruction := do
  let pc ← address m.pc
  let byte ← of (m.memory.read pc)
  let one ← address (pc + 1)
  let two ← address (pc + 2)
  let opcode ← of (Opcode.decode byte pc)
  return { opcode, address := pc, first? := m.memory.peek one, second? := m.memory.peek two }

/-- The bytes of a trace line. -/
def lookAhead (m : Machine) : Guarded Unit :=
  if m.config.trace then do
    let _ ← address (m.pc + 1)
    let _ ← address (m.pc + 2)
  else return

/-- **One step.** -/
def step (m : Machine) (s : Sinks) : Except Defect (Outcome Progress) := do
  let _ ← lookAhead m
  match m.writeTrace s with
  | (.error e, s) => return ⟨.error e.fault, m, s⟩
  | (.ok (), s) =>
    match ← fetch m with
    | .error e => return ⟨.error e, m, s⟩
    | .ok i =>
      match ← execute m i with
      | .error e => return ⟨.error e, m.tick, s⟩
      | .ok effect =>
        match Machine.writeValue s effect.printed with
        | (.error e, s) => return ⟨.error e.fault, m.tick, s⟩
        | (.ok (), s) =>
          return ⟨.ok (if effect.halts then .halted else .running), effect.machine.tick, s⟩

/-! ### What holds of the parts -/

variable {m : Machine} {i : Instruction}

/-- A sequence meets no defect if its first part meets none and neither does what follows. -/
theorem bind_of {x : Except Fault α} {g : α → Guarded β} {f : α → Except Fault β}
    (h : ∀ a, x = .ok a → g a = of (f a)) : of x >>= g = of (x >>= f) := by
  cases x with
  | error e => rfl
  | ok a => exact h a rfl

theorem surely_of_eq_ok {x : Except Fault α} {a : α} (h : x = .ok a) : surely x = of x := by
  subst h
  rfl

theorem address_of_le {a : Nat} (h : a ≤ 258) : address a = pure a := if_pos h

theorem first_eq (hi : i.address < 256) : first i = of i.first := by
  unfold first
  rw [address_of_le (by omega), pure_bind]

theorem second_eq (hi : i.address < 256) : second i = of i.second := by
  unfold second
  rw [address_of_le (by omega), pure_bind]

theorem next_eq (hi : i.address < 256) : next i = pure i.next := by
  have htwo := i.opcode.operandCount_le_two
  refine address_of_le ?_
  unfold Opcode.encodedLength
  omega

/-- **The stack does not refuse what it has room for.**  With the stack pointer above the stack
limit it is above zero. -/
theorem push_eq (m : Machine) (value : UInt8) : push m value = of (m.push value) := by
  rw [push, Machine.push_eq]
  split
  · rfl
  · rename_i hroom
    have hone := Machine.toNat_sub_one (UInt8.not_le.1 hroom)
    rw [down, if_pos (by omega)]
    change (surely (m.memory.write (m.sp - 1).toNat value) >>= _) = _
    rw [Memory.write_toNat]
    rfl

/-- **The stack gives what it holds.**  With the stack pointer below the stack base it is below
255. -/
theorem pop_eq (m : Machine) : pop m = of m.pop := by
  rw [pop, Machine.pop_eq]
  split
  · rfl
  · rename_i hfull
    have hone := Machine.toNat_add_one (UInt8.not_le.1 hfull)
    have hlt : (m.sp + 1).toNat < 256 := (m.sp + 1).toNat_lt
    rw [up, if_pos (by omega), Memory.read_toNat]
    rfl

theorem pushReturn_eq (hi : i.address < 256) : pushReturn m i = of (m.pushReturn i) := by
  rw [pushReturn, next_eq hi, pure_bind, Machine.pushReturn]
  split
  · exact push_eq m _
  · rfl

/-- A register that can be looked at can be written. -/
theorem surely_setRegister (m : Machine) {r : UInt8} (hr : r.toNat < 8) (value : UInt8) :
    surely (m.setRegister r value) = of (m.setRegister r value) :=
  surely_of_eq_ok (Machine.setRegister_eq_ok_iff.2 ⟨hr, rfl⟩)

/-! ### What holds of the units -/

theorem proceed_next (hi : i.address < 256) (printed : Option UInt8) :
    proceed i ⟨m, printed, .next⟩ = of (.ok ⟨m.goto i.next, printed, false⟩) := by
  rw [proceed, next_eq hi]
  rfl

theorem proceed_jump (i : Instruction) (target : UInt8) :
    proceed i ⟨m, none, .jump target⟩ = of (.ok (m.goto target.toNat).proceed) := by
  have hlt : target.toNat < 256 := target.toNat_lt
  change (address target.toNat >>= _) = _
  rw [address_of_le (by omega)]
  rfl

/-- The operations that the arithmetic unit finds by the opcode byte are those of its
instructions. -/
theorem ofByte?_encode (op : Opcode) : AluOp.ofByte? op.encode = AluOp.ofOpcode? op := by
  cases op <;> decide

theorem arithmetic_eq (hi : i.address < 256) {op : AluOp}
    (hop : AluOp.ofOpcode? i.opcode = some op) :
    arithmetic m i >>= proceed i = of (m.execute i) := by
  rw [Machine.execute_of_alu hop, arithmetic, ofByte?_encode, hop, Machine.arithmetic]
  simp only [first_eq hi, second_eq hi, bind_assoc]
  refine bind_of fun a _ => bind_of fun b _ => bind_of fun x hx => bind_of fun y _ =>
    bind_of fun result _ => ?_
  cases result with
  | value v =>
      simp only [surely_setRegister m (Registers.lt_of_get hx), bind_assoc]
      exact bind_of fun m' _ => proceed_next hi none
  | flags f => exact proceed_next hi none

theorem branch_eq (hi : i.address < 256) (taken : Bool) :
    branch m i taken >>= proceed i =
      of (m.branch i taken >>= fun m' => pure m'.proceed) := by
  unfold branch Machine.branch
  simp only [first_eq hi, pushReturn_eq hi, bind_assoc]
  refine bind_of fun r _ => bind_of fun t _ => ?_
  cases taken with
  | false => exact proceed_next hi none
  | true =>
      cases m.config.jumpMode with
      | plain => exact proceed_jump i t
      | pushReturn =>
          simp only [if_true, bind_assoc]
          exact bind_of fun m' _ => proceed_jump i t

/-- **No instruction meets a defect** that lies inside memory. -/
theorem execute_eq (hi : i.address < 256) : execute m i = of (m.execute i) := by
  unfold execute Machine.execute
  cases hop : i.opcode with
  | hlt =>
      simp only [Opcode.executionUnit, carryOut, control, hop]
      rfl
  | ldi =>
      simp only [Opcode.executionUnit, carryOut, load, hop, first_eq hi, second_eq hi, bind_assoc]
      exact bind_of fun r _ => bind_of fun v _ => bind_of fun m' _ => proceed_next hi none
  | prn =>
      simp only [Opcode.executionUnit, carryOut, output, hop, first_eq hi, bind_assoc]
      exact bind_of fun r _ => bind_of fun v _ => proceed_next hi (some v)
  | add | mul | cmp =>
      have halu := congrArg AluOp.ofOpcode? hop
      exact (arithmetic_eq hi halu).trans (congrArg of (Machine.execute_of_alu halu))
  | push =>
      simp only [Opcode.executionUnit, carryOut, stack, hop, first_eq hi, push_eq, bind_assoc]
      exact bind_of fun r _ => bind_of fun v _ => bind_of fun m' _ => proceed_next hi none
  | pop =>
      simp only [Opcode.executionUnit, carryOut, stack, hop, first_eq hi, pop_eq, bind_assoc]
      refine bind_of fun r _ => bind_of fun v hget => bind_of fun p _ => ?_
      -- the register was looked at before the stack pointer moved
      simp only [surely_setRegister p.2 (Registers.lt_of_get hget)]
      exact bind_of fun m' _ => proceed_next hi none
  | call =>
      simp only [Opcode.executionUnit, carryOut, control, hop, first_eq hi, pushReturn_eq hi,
        bind_assoc]
      exact bind_of fun r _ => bind_of fun t _ => bind_of fun m' _ => proceed_jump i t
  | ret =>
      simp only [Opcode.executionUnit, carryOut, control, hop, pop_eq, bind_assoc]
      exact bind_of fun p _ => proceed_jump i p.1
  | jmp | jeq | jne =>
      simp only [Opcode.executionUnit, carryOut, control, hop]
      exact branch_eq hi _

/-! ### What holds of a step -/

/-- Outside memory the opcode byte is missed before the two bytes behind it are looked at. -/
theorem fetch_eq (hpc : m.pc ≤ 256) : fetch m = of m.fetch := by
  unfold fetch Machine.fetch
  rw [address_of_le (by omega), pure_bind]
  rw [address_of_le (by omega), address_of_le (by omega)]
  exact bind_of fun byte _ => bind_of fun op _ => rfl

theorem lookAhead_eq (hpc : m.pc ≤ 256) : lookAhead m = pure () := by
  unfold lookAhead
  rw [address_of_le (by omega), address_of_le (by omega)]
  exact ite_self _

/-- **A step meets no defect** if it begins inside memory or right behind it. -/
theorem step_eq (hpc : m.pc ≤ 256) (s : Sinks) : step m s = .ok (m.step s) := by
  have hlook : lookAhead m = Except.ok (.ok ()) := lookAhead_eq hpc
  have hfetch : fetch m = Except.ok m.fetch := fetch_eq hpc
  unfold step Machine.step
  rcases m.writeTrace s with ⟨_ | _, t⟩
  · rw [hlook]
    rfl
  · cases hi : m.fetch with
    | error e =>
        rw [hlook, hfetch, hi]
        rfl
    | ok i =>
        obtain ⟨-, haddress, -⟩ := Machine.fetch_eq_ok_iff.1 hi
        have hlt : i.address < 256 := haddress ▸ Machine.pc_lt_of_fetch hi
        have hexecute : execute m i = Except.ok (m.execute i) := execute_eq hlt
        rw [hlook, hfetch, hi]
        simp only [bind, Except.bind, hexecute]
        cases m.execute i with
        | error e => rfl
        | ok f =>
            dsimp only
            rcases Machine.writeValue t f.printed with ⟨_ | _, _⟩ <;> rfl

/-! ### The guards are not idle -/

variable {u : ExecutionUnit}

/-- A unit stops at the instructions of the others.  The arithmetic unit finds no operation for
them, and the stack unit stops behind their operand. -/
theorem exists_defect_of_ne (hi : i.address < 256) (hfirst : i.first? ≠ none)
    (hu : i.opcode.executionUnit ≠ u) : ∃ d, carryOut u m i = stop d := by
  cases u with
  | load =>
      rw [carryOut, load]
      cases hop : i.opcode with
      | ldi => exact absurd (congrArg Opcode.executionUnit hop) hu
      | _ => exact ⟨_, rfl⟩
  | arithmetic =>
      rw [carryOut, arithmetic, ofByte?_encode]
      cases hop : i.opcode with
      | add | mul | cmp => exact absurd (congrArg Opcode.executionUnit hop) hu
      | _ => exact ⟨_, rfl⟩
  | stack =>
      obtain ⟨r, hr⟩ := Option.ne_none_iff_exists'.1 hfirst
      rw [carryOut, stack, first_eq hi, Instruction.first_eq_ok_iff.2 hr]
      cases hop : i.opcode with
      | push | pop => exact absurd (congrArg Opcode.executionUnit hop) hu
      | _ => exact ⟨_, rfl⟩
  | control =>
      rw [carryOut, control]
      cases hop : i.opcode with
      | hlt | call | ret | jmp | jeq | jne => exact absurd (congrArg Opcode.executionUnit hop) hu
      | _ => exact ⟨_, rfl⟩
  | output =>
      rw [carryOut, output]
      cases hop : i.opcode with
      | prn => exact absurd (congrArg Opcode.executionUnit hop) hu
      | _ => exact ⟨_, rfl⟩

/-- **A unit stops at the instructions of the others**, and at none of its own. -/
theorem exists_defect_iff (hi : i.address < 256) (hfirst : i.first? ≠ none) :
    (∃ d, carryOut u m i = stop d) ↔ i.opcode.executionUnit ≠ u := by
  constructor
  · rintro ⟨d, hd⟩ rfl
    have hexecute := execute_eq (m := m) hi
    rw [execute, hd] at hexecute
    cases hexecute
  · exact exists_defect_of_ne hi hfirst

end Guarded

namespace Machine

/-- **Reachable machines step without defects.**  The machine that watches itself makes exactly the
steps of the machine that does not: no unit is handed an instruction of another one, the arithmetic
unit finds its operation, memory takes every byte that is pushed and gives every byte that is
popped, the register of a pop can be written, the stack pointer does not run over in either
direction, and no address is above 258.  The guards would be noticed: a unit that is handed an
instruction of another one does stop. -/
theorem steps_meet_no_defect {c : Config} {m : Machine} (h : Reachable c m) :
    (∀ s, Guarded.step m s = .ok (m.step s)) ∧
      ∀ u i, i.address < 256 → i.first? ≠ none →
        ((∃ d, Guarded.carryOut u m i = Guarded.stop d) ↔ i.opcode.executionUnit ≠ u) :=
  ⟨fun s => Guarded.step_eq h.invariant.pc_le s, fun _ _ hi hfirst =>
    Guarded.exists_defect_iff hi hfirst⟩

/-- The stack pointer goes up to the last address: a byte is pushed below a stack base of 255 and
popped again. -/
theorem pops_up_to_last_address :
    ∃ m, Reachable Config.default m ∧ m.sp = 254 ∧ m.stackBase = 255 ∧
      (∀ s, Guarded.step m s = .ok (m.step s)) ∧ (m.step .unlimited).machine.sp = 255 := by
  have h : Reachable Config.default _ := .afterAll (.start rfl) [.poke 0 0x82, .poke 1 7,
    .poke 2 255, .poke 3 0x45, .poke 5 0x46, .poke 6 1, .step .unlimited, .step .unlimited] rfl
  exact ⟨_, h, rfl, rfl, (steps_meet_no_defect h).1, rfl⟩

end Machine

end ByteMachine
