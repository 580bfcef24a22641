/-
**The states that a machine can be in.**

A machine is built from a configuration and then used through calls, in any order: its memory is
written from outside, it makes single steps, it runs.  A call may fail, and a machine that has
failed or halted may be used further.  Whatever the calls and wherever their texts go, the stack
pointer stays between the stack limit and the stack base, the program counter at most one behind
memory, and the flags hold what a comparison can leave.

Main definitions:

* `ByteMachine.Call`, `Machine.after` — a call, and the machine that it leaves behind;
* `ByteMachine.Machine.Reachable` — what a sequence of calls can lead to;
* `ByteMachine.Machine.StackBounds`, `Machine.Invariant` — what holds all the time.

Main results:

* `ByteMachine.Machine.StackBounds.executes`, `pc_executes_le` — what an instruction keeps;
* `ByteMachine.Machine.Invariant.step`, `Invariant.after` — one step and one call keep it;
* `ByteMachine.Machine.Reachable.invariant` — **so it holds after any calls**;
* `ByteMachine.Machine.reachable_states_are_bounded` — and an access outside memory can only be one
  to the address right behind it.
-/

import ByteMachine.Proofs.Machine.Steps

set_option relaxedAutoImplicit false
set_option autoImplicit false

namespace ByteMachine

/-! ### Calls -/

/-- **A call on a machine.**  A call that writes text is given its sinks, so every call may write
somewhere else. -/
inductive Call where
  | load (image : List UInt8)
  | loadProgram (program : Program)
  | poke (address : Nat) (value : UInt8)
  | step (sinks : Sinks)
  | run (sinks : Sinks)

namespace Machine

variable {m m' : Machine} {i : Instruction} {f : Effect}

/-- The machine that is left when memory was to be written from outside. -/
def orKeep (m : Machine) : Except Fault Machine → Machine
  | .ok m' => m'
  | .error _ => m

/-- **The machine that a call leaves behind**, whether it succeeds or fails.  A run that goes on for
ever leaves none. -/
def after (m : Machine) : Call → Option Machine
  | .load image => some (m.orKeep (m.load image))
  | .loadProgram program => some (m.orKeep (m.loadProgram program))
  | .poke address value => some (m.orKeep (m.poke address value))
  | .step sinks => some (m.step sinks).machine
  | .run sinks => (m.run sinks).map (·.machine)

/-- **What a sequence of calls can lead to,** starting from a new machine. -/
inductive Reachable (c : Config) : Machine → Prop
  | start {m : Machine} (h : ofConfig c = .ok m) : Reachable c m
  | call {m m' : Machine} (k : Call) (h : Reachable c m) (hk : m.after k = some m') :
      Reachable c m'

/-- The machine that a sequence of calls leaves behind. -/
def afterAll (m : Machine) : List Call → Option Machine
  | [] => some m
  | k :: ks => (m.after k).bind (·.afterAll ks)

theorem Reachable.afterAll {c : Config} (h : Reachable c m) (ks : List Call)
    (hks : m.afterAll ks = some m') : Reachable c m' := by
  induction ks generalizing m with
  | nil =>
      obtain rfl := Option.some.inj hks
      exact h
  | cons k ks ih =>
      obtain ⟨m₁, hk, hks⟩ := Option.bind_eq_some_iff.1 hks
      exact ih (h.call k hk) hks

/-! ### The stack pointer -/

/-- **The stack pointer lies between the stack limit and the stack base.**  An instruction may move
both below the stack limit, but then the stack is empty. -/
structure StackBounds (m : Machine) : Prop where
  sp_le : m.sp ≤ m.stackBase
  limit_le : m.sp < m.stackBase → m.config.stackLimit ≤ m.sp

namespace StackBounds

theorem congr (h : m.StackBounds) (hsp : m'.sp = m.sp) (hbase : m'.stackBase = m.stackBase)
    (hconfig : m'.config = m.config) : m'.StackBounds := by
  constructor
  · rw [hsp, hbase]
    exact h.sp_le
  · rw [hsp, hbase, hconfig]
    exact h.limit_le

/-- Writing the stack pointer empties the stack; writing another register does not touch it. -/
theorem assigned (h : m.StackBounds) (r v : UInt8) : (m.assigned r v).StackBounds := by
  by_cases hr : r = Registers.spIndex
  · subst hr
    constructor
    · simp
    · simp
  · exact h.congr (m.sp_assigned_of_ne hr v) (m.stackBase_assigned_of_ne hr v) rfl

theorem pushed (h : m.StackBounds) (hroom : m.config.stackLimit < m.sp) (v : UInt8) :
    (m.pushed v).StackBounds := by
  have hone := toNat_sub_one hroom
  have hle := UInt8.le_iff_toNat_le.1 h.sp_le
  have hlt := UInt8.lt_iff_toNat_lt.1 hroom
  constructor
  · rw [sp_pushed, stackBase_pushed, UInt8.le_iff_toNat_le]
    omega
  · rw [sp_pushed, config_pushed, UInt8.le_iff_toNat_le]
    omega

theorem popped (h : m.StackBounds) (hfull : m.sp < m.stackBase) : m.popped.StackBounds := by
  have hone := toNat_add_one hfull
  have hlimit := UInt8.le_iff_toNat_le.1 (h.limit_le hfull)
  have hlt := UInt8.lt_iff_toNat_lt.1 hfull
  constructor
  · rw [sp_popped, stackBase_popped, UInt8.le_iff_toNat_le]
    omega
  · rw [sp_popped, config_popped, UInt8.le_iff_toNat_le]
    omega

/-- Every instruction keeps the bounds. -/
theorem executes (h : m.StackBounds) (hf : m.Executes i f) : f.machine.StackBounds := by
  cases hf with
  | hlt => exact h
  | ldi | arith => exact (h.assigned _ _).congr rfl rfl rfl
  | prn | cmp | jump | pass => exact h.congr rfl rfl rfl
  | @push _ v _ _ _ hroom => exact (h.pushed hroom v).congr rfl rfl rfl
  | call _ _ _ _ hroom => exact (h.pushed hroom (UInt8.ofNat i.next)).congr rfl rfl rfl
  | pop _ _ _ hfull => exact ((h.popped hfull).assigned _ _).congr rfl rfl rfl
  | ret _ hfull => exact (h.popped hfull).congr rfl rfl rfl

end StackBounds

/-! ### The program counter -/

/-- An instruction is fetched from inside memory. -/
theorem pc_lt_of_fetch (hi : m.fetch = .ok i) : m.pc < 256 := by
  obtain ⟨hb, -, -, -⟩ := fetch_eq_ok_iff.1 hi
  exact Memory.peek_isSome.1 (by rw [hb]; rfl)

/-- The first operand is read from inside memory. -/
theorem pc_lt_of_first {r : UInt8} (hi : m.fetch = .ok i) (hr : i.first? = some r) :
    m.pc + 1 < 256 := by
  obtain ⟨-, -, hfirst, -⟩ := fetch_eq_ok_iff.1 hi
  exact Memory.peek_isSome.1 (by rw [← hfirst, hr]; rfl)

/-- The second operand is read from inside memory. -/
theorem pc_lt_of_second {v : UInt8} (hi : m.fetch = .ok i) (hv : i.second? = some v) :
    m.pc + 2 < 256 := by
  obtain ⟨-, -, -, hsecond⟩ := fetch_eq_ok_iff.1 hi
  exact Memory.peek_isSome.1 (by rw [← hsecond, hv]; rfl)

theorem next_of_fetch (hi : m.fetch = .ok i) : i.next = m.pc + 1 + i.opcode.operandCount := by
  obtain ⟨-, ha, -, -⟩ := fetch_eq_ok_iff.1 hi
  unfold Instruction.next Opcode.encodedLength
  omega

/-- **Every instruction leaves the program counter at most one behind memory:** it has read all the
operands that it steps over. -/
theorem pc_executes_le (hi : m.fetch = .ok i) (hf : m.Executes i f) : f.machine.pc ≤ 256 := by
  have hbyte : ∀ t : UInt8, t.toNat ≤ 256 := fun t => Nat.le_of_lt t.toNat_lt
  have hnext := next_of_fetch hi
  cases hf with
  | hlt => exact Nat.le_of_lt (pc_lt_of_fetch hi)
  | ldi _ _ hv | arith _ _ hv | cmp _ _ hv =>
      have hpc := pc_lt_of_second hi hv
      have htwo := i.opcode.operandCount_le_two
      change i.next ≤ 256
      omega
  | prn hop hr | push hop hr | pop hop hr =>
      have hpc := pc_lt_of_first hi hr
      have hone := congrArg Opcode.operandCount hop
      change i.opcode.operandCount = 1 at hone
      change i.next ≤ 256
      omega
  | pass hop _ hr =>
      have hpc := pc_lt_of_first hi hr
      have hone := Opcode.operandCount_of_isJump hop
      change i.next ≤ 256
      omega
  | call | ret | jump => exact hbyte _

/-! ### The flags -/

/-- A comparison leaves one bit. -/
theorem compare_bits_mem (x y : UInt8) :
    (Flags.compare x y).bits ∈ ([0, 1, 2, 4] : List UInt8) := by
  unfold Flags.compare
  split
  · decide
  · split <;> decide

/-! ### The invariant -/

/-- **What holds of a machine all the time.** -/
structure Invariant (c : Config) (m : Machine) : Prop where
  stack : m.StackBounds
  pc_le : m.pc ≤ 256
  flags_mem : m.flags.bits ∈ ([0, 1, 2, 4] : List UInt8)
  config_eq : m.config = c

namespace Invariant

variable {c : Config}

theorem fresh (c : Config) : (fresh c).Invariant c where
  stack := by
    constructor
    · rw [sp_fresh]
      exact UInt8.le_refl _
    · intro hlt
      rw [sp_fresh] at hlt
      exact absurd hlt (UInt8.lt_irrefl _)
  pc_le := Nat.zero_le _
  flags_mem := List.mem_cons_self
  config_eq := rfl

/-- Memory is free to change. -/
theorem of_memory (h : m.Invariant c) (memory : Memory) :
    ({ m with memory } : Machine).Invariant c :=
  ⟨h.stack.congr rfl rfl rfl, h.pc_le, h.flags_mem, h.config_eq⟩

theorem load (h : m.Invariant c) (image : List UInt8) :
    (m.orKeep (m.load image)).Invariant c := by
  unfold Machine.load
  split
  · exact h.of_memory _
  · exact h

theorem poke (h : m.Invariant c) (a : Nat) (v : UInt8) :
    (m.orKeep (m.poke a v)).Invariant c := by
  unfold Machine.poke
  split
  · exact h.of_memory _
  · exact h

theorem tick (h : m.Invariant c) : m.tick.Invariant c :=
  ⟨h.stack.congr rfl rfl rfl, h.pc_le, h.flags_mem, h.config_eq⟩

theorem executes (h : m.Invariant c) (hi : m.fetch = .ok i) (hf : m.Executes i f) :
    f.machine.Invariant c where
  stack := h.stack.executes hf
  pc_le := pc_executes_le hi hf
  flags_mem := by
    cases hf with
    | cmp => exact compare_bits_mem _ _
    | _ => exact h.flags_mem
  config_eq := by
    cases hf with
    | _ => exact h.config_eq

/-- **A step keeps the invariant**, also one that fails. -/
theorem step (h : m.Invariant c) (s : Sinks) : (m.step s).machine.Invariant c := by
  cases hr : (m.step s).result with
  | ok p =>
      obtain ⟨i, f, hi, hf, hm, -⟩ := exists_executes_of_step hr
      rw [hm]
      exact (h.executes hi hf).tick
  | error e =>
      rcases machine_step_of_error hr with hm | hm
      · rw [hm]
        exact h
      · rw [hm]
        exact h.tick

/-- **Every call keeps the invariant.** -/
theorem after (h : m.Invariant c) {k : Call} (hk : m.after k = some m') : m'.Invariant c := by
  cases k with
  | load image =>
      cases hk
      exact h.load image
  | loadProgram program =>
      cases hk
      exact h.load program.bytes
  | poke a v =>
      cases hk
      exact h.poke a v
  | step s =>
      cases hk
      exact h.step s
  | run s =>
      obtain ⟨o, hrun, rfl⟩ := Option.map_eq_some_iff.1 hk
      exact run_induction (P := Invariant c) (fun _ s hm => hm.step s) hrun h

end Invariant

/-- **The invariant holds after any calls.** -/
theorem Reachable.invariant {c : Config} (h : Reachable c m) : m.Invariant c := by
  -- induction on the sequence of calls
  induction h with
  | start h =>
      obtain ⟨-, rfl⟩ := ofConfig_eq_ok_iff.1 h
      exact .fresh c
  | call k _ hk ih => exact ih.after hk

/-! ### Accesses outside memory -/

/-- An instruction that asks for a byte outside memory asks for the one right behind it. -/
theorem eq_size_of_faults {a : Nat} (hi : m.fetch = .ok i)
    (hf : m.Faults i (.memoryOutOfBounds a)) : a = 256 := by
  have hpc := pc_lt_of_fetch hi
  have hnext := next_of_fetch hi
  obtain ⟨-, haddress, hfirst, hsecond⟩ := fetch_eq_ok_iff.1 hi
  cases hf with
  | first _ hr =>
      have hle := Memory.peek_eq_none_iff.1 (hfirst.symm.trans hr)
      omega
  | second _ hr hv =>
      have hlt := pc_lt_of_first hi hr
      have hle := Memory.peek_eq_none_iff.1 (hsecond.symm.trans hv)
      omega
  | returnAddress hop hr _ hge =>
      have hlt := pc_lt_of_first hi hr
      have hone := operandCount_of_leavesReturn hop
      omega

/-- With the program counter at most one behind memory, so does a step. -/
theorem eq_size_of_step {s : Sinks} {a : Nat} (hpc : m.pc ≤ 256)
    (h : (m.step s).result = .error (.memoryOutOfBounds a)) : a = 256 := by
  have hstep := m.steps_step s
  generalize m.step s = o at h hstep
  cases hstep with
  | untraced | unprinted => simp [Sink.Error.fault] at h
  | unfetched _ hi =>
      cases h
      rcases fetch_eq_error_iff.1 hi with ⟨hge, he⟩ | ⟨b, -, -, he⟩
      · cases he
        omega
      · split at he <;> cases he
  | failed _ hi he =>
      cases h
      exact eq_size_of_faults hi he
  | done => cases h

/-- **What holds of every machine that calls can lead to.**  The stack pointer is not above the
stack base, and not below the stack limit unless the stack is empty; the program counter is at most
one behind memory; the flags hold no comparison or the one bit of a comparison; the configuration
never changes.  So a step or a run that asks for a byte outside memory asks for the one right behind
it. -/
theorem reachable_states_are_bounded {c : Config} (h : Reachable c m) :
    (m.sp ≤ m.stackBase ∧ (m.sp < m.stackBase → c.stackLimit ≤ m.sp) ∧ m.pc ≤ 256 ∧
      m.flags.bits ∈ ([0, 1, 2, 4] : List UInt8) ∧ m.config = c) ∧
    (∀ s a, (m.step s).result = .error (.memoryOutOfBounds a) → a = 256) ∧
    ∀ s o a, m.run s = some o → o.result = .error (.memoryOutOfBounds a) → a = 256 := by
  have hinv := h.invariant
  refine ⟨⟨hinv.stack.sp_le, ?_, hinv.pc_le, hinv.flags_mem, hinv.config_eq⟩, ?_, ?_⟩
  · intro hlt
    rw [← hinv.config_eq]
    exact hinv.stack.limit_le hlt
  · intro s a hstep
    exact eq_size_of_step hinv.pc_le hstep
  · intro s o a hrun he
    rcases error_of_run hrun he with ⟨n, m₀, s₀, hadv, -, hstep, -⟩ | ⟨_, _, x, -, -, hx, -⟩
    · have h₀ : m₀.Invariant c := hadv.induction (fun _ s hm => hm.step s) hinv
      exact eq_size_of_step h₀.pc_le hstep
    · cases hx

/-- The bounds are met: behind a push in the last two bytes of memory. -/
theorem bounded_behind_push_at_end_of_memory :
    ∃ m, Reachable Config.default m ∧ m.sp = 0xF3 ∧ m.stackBase = 0xF4 ∧ m.pc = 256 ∧
      (m.sp < m.stackBase → Config.default.stackLimit ≤ m.sp) ∧
      (m.step .unlimited).result = .error (.memoryOutOfBounds 256) ∧
      ∀ s a, (m.step s).result = .error (.memoryOutOfBounds a) → a = 256 := by
  have h : Reachable Config.default _ := .afterAll (.start rfl) [.poke 0 0x82, .poke 2 254,
    .poke 3 0x54, .poke 254 0x45, .step .unlimited, .step .unlimited, .step .unlimited] rfl
  obtain ⟨⟨-, hlimit, -⟩, hstep, -⟩ := reachable_states_are_bounded h
  exact ⟨_, h, rfl, rfl, rfl, hlimit, rfl, hstep⟩

end Machine

end ByteMachine
