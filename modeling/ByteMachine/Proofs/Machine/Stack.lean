/-
**The stack as a list.**

A machine has no stack of its own: a register points into memory, and the stack is what lies between
it and the stack base.  Read as a list of bytes, with the byte at the stack pointer first, that
region behaves like a stack: an instruction puts a byte in front of the list, takes one off it,
empties it by writing the stack pointer, or leaves it alone.

Main definitions:

* `ByteMachine.Memory.slice`, `Machine.stack` — the list;
* `ByteMachine.Machine.StackLaw` — what each instruction does to the list.

Main results:

* `ByteMachine.Machine.stack_pushed`, `stack_popped`, `stack_assigned_of_ne` — the parts of an
  instruction on the list;
* `ByteMachine.Machine.stack_refinement` — **a step does to the list what its instruction says**,
  and taking from the list fails exactly when it is empty.
-/

import ByteMachine.Proofs.Machine.Reachable

set_option relaxedAutoImplicit false
set_option autoImplicit false

namespace ByteMachine

/-! ### A region of memory -/

namespace Memory

variable {m n : Memory} {start stop : Nat}

/-- The bytes from one address up to another. -/
def slice (m : Memory) (start stop : Nat) : List UInt8 := (m.bytes.toList.take stop).drop start

theorem getElem?_slice (m : Memory) (start stop k : Nat) :
    (m.slice start stop)[k]? = if start + k < stop then m.peek (start + k) else none := by
  simp [slice, peek, List.getElem?_take]

theorem slice_congr (h : ∀ a, start ≤ a → a < stop → m.peek a = n.peek a) :
    m.slice start stop = n.slice start stop := by
  refine List.ext_getElem? fun k => ?_
  rw [getElem?_slice, getElem?_slice]
  split
  · rename_i hk
    exact h (start + k) (Nat.le_add_right start k) hk
  · rfl

theorem slice_eq_nil (h : stop ≤ start) : m.slice start stop = [] := by
  refine List.ext_getElem? fun k => ?_
  rw [getElem?_slice, if_neg (by omega), List.getElem?_nil]

theorem slice_eq_cons {b : UInt8} (h : start < stop) (hb : m.peek start = some b) :
    m.slice start stop = b :: m.slice (start + 1) stop := by
  refine List.ext_getElem? fun k => ?_
  cases k with
  | zero => rw [getElem?_slice, Nat.add_zero, if_pos h, hb, List.getElem?_cons_zero]
  | succ k =>
      rw [getElem?_slice, List.getElem?_cons_succ, getElem?_slice,
        show start + (k + 1) = start + 1 + k by omega]

end Memory

namespace Machine

variable {m m' : Machine} {i : Instruction} {f : Effect}

/-! ### The list -/

/-- **The stack of a machine:** the bytes from the stack pointer up to the stack base. -/
def stack (m : Machine) : List UInt8 := m.memory.slice m.sp.toNat m.stackBase.toNat

theorem stack_congr (hmemory : m'.memory = m.memory) (hsp : m'.sp = m.sp)
    (hbase : m'.stackBase = m.stackBase) : m'.stack = m.stack := by
  rw [stack, stack, hmemory, hsp, hbase]

theorem stack_eq_nil (h : m.stackBase ≤ m.sp) : m.stack = [] :=
  Memory.slice_eq_nil (UInt8.le_iff_toNat_le.1 h)

/-- A pop takes the head of the list. -/
theorem stack_popped (h : m.sp < m.stackBase) :
    m.stack = m.memory.byteAt m.sp :: m.popped.stack := by
  have hlt := UInt8.lt_iff_toNat_lt.1 h
  rw [stack, Memory.slice_eq_cons hlt (m.memory.peek_toNat m.sp), stack, sp_popped,
    toNat_add_one h]
  rfl

theorem stack_eq_nil_iff : m.stack = [] ↔ m.stackBase ≤ m.sp := by
  refine ⟨fun h => UInt8.not_lt.1 fun hlt => ?_, stack_eq_nil⟩
  rw [stack_popped hlt] at h
  cases h

/-- A push puts a byte in front of the list. -/
theorem stack_pushed (h : m.sp ≤ m.stackBase) (hroom : m.config.stackLimit < m.sp) (v : UInt8) :
    (m.pushed v).stack = v :: m.stack := by
  have hone := toNat_sub_one hroom
  have hle := UInt8.le_iff_toNat_le.1 h
  have hhead : (m.pushed v).memory.peek (m.sp - 1).toNat = some v := by
    rw [peek_pushed, if_pos rfl]
  rw [stack, sp_pushed, stackBase_pushed, Memory.slice_eq_cons (by omega) hhead, hone, stack]
  congr 1
  refine Memory.slice_congr fun a hge _ => ?_
  rw [peek_pushed, if_neg (by omega)]

/-- Writing the stack pointer empties the list. -/
theorem stack_assigned_spIndex (v : UInt8) : (m.assigned Registers.spIndex v).stack = [] := by
  refine stack_eq_nil ?_
  rw [stackBase_assigned_spIndex, sp_assigned_spIndex]
  exact UInt8.le_refl v

theorem stack_assigned_of_ne {r : UInt8} (h : r ≠ Registers.spIndex) (v : UInt8) :
    (m.assigned r v).stack = m.stack :=
  stack_congr rfl (m.sp_assigned_of_ne h v) (m.stackBase_assigned_of_ne h v)

/-! ### The law of the stack -/

/-- The value that a load, an addition or a multiplication writes. -/
def Produces (m : Machine) (i : Instruction) (v : UInt8) : Prop :=
  match AluOp.ofOpcode? i.opcode with
  | none => i.second? = some v
  | some op => ∃ a b x y, i.first? = some a ∧ i.second? = some b ∧ m.registers.get a = .ok x ∧
      m.registers.get b = .ok y ∧ op.apply x y m.config.overflow = .ok (.value v)

/-- The stack has been moved: it is empty at `v`. -/
def MovedTo (m : Machine) (v : UInt8) : Prop := m.sp = v ∧ m.stackBase = v ∧ m.stack = []

/-- **What an instruction does to the stack** on the way from `m` to `m'`. -/
def StackLaw (m : Machine) (i : Instruction) (m' : Machine) : Prop :=
  match i.opcode with
  | .push => ∃ r v, i.first? = some r ∧ m.registers.get r = .ok v ∧ m'.stack = v :: m.stack
  | .pop => ∃ r v, i.first? = some r ∧ m.stack.head? = some v ∧
      if r = Registers.spIndex then m'.MovedTo v
      else m.stack = v :: m'.stack ∧ m'.registers.get r = .ok v
  | .ret => ∃ v, m.stack = v :: m'.stack ∧ m'.pc = v.toNat
  | .call | .jmp | .jeq | .jne =>
      if m.leavesReturn i.opcode then ∃ v, v.toNat = m.pc + 2 ∧ m'.stack = v :: m.stack
      else m'.stack = m.stack
  | .ldi | .add | .mul => ∃ r v, i.first? = some r ∧ m.Produces i v ∧
      if r = Registers.spIndex then m'.MovedTo v else m'.stack = m.stack
  | .hlt | .prn | .cmp => m'.stack = m.stack

/-! ### The law holds -/

/-- The law of a register write, whatever the program counter becomes. -/
theorem ite_assigned (m : Machine) (r v : UInt8) (pc : Nat) :
    if r = Registers.spIndex then ((m.assigned r v).goto pc).tick.MovedTo v
    else ((m.assigned r v).goto pc).tick.stack = m.stack := by
  split
  · rename_i hr
    subst hr
    exact ⟨m.sp_assigned_spIndex v, rfl, stack_assigned_spIndex v⟩
  · rename_i hr
    exact stack_assigned_of_ne hr v

/-- Calls and jumps have one law. -/
theorem stackLaw_of_branch (h : i.opcode = .call ∨ i.opcode.isJump = true)
    (hlaw : if m.leavesReturn i.opcode then
        ∃ v : UInt8, v.toNat = m.pc + 2 ∧ m'.stack = v :: m.stack
      else m'.stack = m.stack) : m.StackLaw i m' := by
  unfold StackLaw
  rcases h with h | h
  · rw [h] at hlaw ⊢
    exact hlaw
  · cases hop : i.opcode <;> rw [hop] at h hlaw <;> first | exact hlaw | cases h

/-- **Every rule obeys the law of the stack.** -/
theorem stackLaw_executes (hm : m.StackBounds) (hi : m.fetch = .ok i) (hf : m.Executes i f) :
    m.StackLaw i f.machine.tick := by
  cases hf with
  | hlt hop | prn hop | cmp hop =>
      simp only [StackLaw, hop]
      rfl
  | @ldi r v hop hr hv =>
      simp only [StackLaw, hop]
      refine ⟨r, v, hr, ?_, m.ite_assigned r v i.next⟩
      rw [Produces, hop]
      exact hv
  | @arith op a b x y v hop ha hb hx hy hv =>
      have hproduces : m.Produces i v := by
        rw [Produces, hop]
        exact ⟨a, b, x, y, ha, hb, hx, hy, hv⟩
      unfold StackLaw
      cases hopcode : i.opcode <;> rw [hopcode] at hop <;> cases hop
      · exact ⟨a, v, ha, hproduces, m.ite_assigned a v i.next⟩
      · exact ⟨a, v, ha, hproduces, m.ite_assigned a v i.next⟩
      · cases hv
  | @push r v hop hr hget hroom =>
      simp only [StackLaw, hop]
      exact ⟨r, v, hr, hget, stack_pushed hm.sp_le hroom v⟩
  | @pop r hop hr hlt hfull =>
      simp only [StackLaw, hop]
      refine ⟨r, _, hr, by rw [stack_popped hfull]; rfl, ?_⟩
      have hwritten := m.popped.ite_assigned r (m.memory.byteAt m.sp) i.next
      split
      · rename_i hsp
        rw [if_pos hsp] at hwritten
        exact hwritten
      · rename_i hsp
        rw [if_neg hsp] at hwritten
        refine ⟨?_, Registers.get_put_self _ hlt _⟩
        rw [stack_popped hfull, ← hwritten]
        rfl
  | @call r t hop hr hget hnext hroom =>
      have hone := operandCount_of_leavesReturn hop
      have hpc := next_of_fetch hi
      refine stackLaw_of_branch ((leavesReturn_iff.1 hop).imp_right fun h =>
        Opcode.isJump_of_takes h.1) ?_
      rw [if_pos hop]
      refine ⟨UInt8.ofNat i.next, ?_, stack_pushed hm.sp_le hroom _⟩
      rw [UInt8.toNat_ofNat_of_lt' hnext]
      omega
  | ret hop hfull =>
      simp only [StackLaw, hop]
      exact ⟨_, stack_popped hfull, rfl⟩
  | jump htaken hmode =>
      refine stackLaw_of_branch (.inr (Opcode.isJump_of_takes htaken)) ?_
      rw [if_neg]
      · rfl
      · intro h
        rcases leavesReturn_iff.1 h with hcall | ⟨-, hpush⟩
        · rw [hcall] at htaken
          cases htaken
        · rw [hmode] at hpush
          cases hpush
  | pass hjump hnot =>
      refine stackLaw_of_branch (.inr hjump) ?_
      rw [if_neg]
      · rfl
      · intro h
        rcases leavesReturn_iff.1 h with hcall | ⟨htaken, -⟩
        · rw [hcall] at hjump
          cases hjump
        · rw [hnot] at htaken
          cases htaken

/-- **The stack of a machine is the list it looks like.**  A step that succeeds does to the list
what its instruction says.  An instruction that takes a byte off the stack, and gets as far as
asking for it, fails exactly when the list is empty. -/
theorem stack_refinement {c : Config} (h : Reachable c m) (s : Sinks) :
    (∀ p, (m.step s).result = .ok p →
      ∃ i, m.fetch = .ok i ∧ m.StackLaw i (m.step s).machine) ∧
    ∀ i, m.Traces s → m.fetch = .ok i → i.Pops →
      (m.stack = [] → (m.step s).result = .error (.stackUnderflow m.sp)) ∧
      (m.stack ≠ [] → (m.step s).result = .ok .running) := by
  constructor
  · intro p hp
    obtain ⟨i, f, hi, hf, hm, -⟩ := exists_executes_of_step hp
    refine ⟨i, hi, ?_⟩
    rw [hm]
    exact stackLaw_executes h.invariant.stack hi hf
  · intro i ht hi hpops
    constructor
    · intro hnil
      rw [step_of_execute_eq_error ht hi (execute_of_underflow hpops (stack_eq_nil_iff.1 hnil))]
    · intro hne
      have hfull : m.sp < m.stackBase := UInt8.not_le.1 fun hle => hne (stack_eq_nil hle)
      rcases hpops with hret | ⟨hpop, r, hr, hlt⟩
      · rw [step_of_executes ht hi (.ret hret hfull) rfl]
        rfl
      · rw [step_of_executes ht hi (.pop hpop hr hlt hfull) rfl]
        rfl

/-- The stack pointer itself is pushed, and popped again. -/
theorem stack_of_pushed_stack_pointer :
    ∃ m : Machine, Reachable Config.default m ∧ m.stack = [0xF4] ∧
      (∃ i, m.fetch = .ok i ∧ m.StackLaw i (m.step .unlimited).machine) ∧
      (m.step .unlimited).result = .ok .running ∧ (m.step .unlimited).machine.stack = [] := by
  have h : Reachable Config.default _ := .afterAll (.start rfl)
    [.poke 0 0x45, .poke 1 7, .poke 2 0x46, .poke 3 7, .step .unlimited] rfl
  obtain ⟨hlaw, htake⟩ := stack_refinement h .unlimited
  have hok := (htake _ (traces_of_unlimited rfl) rfl (.inr ⟨rfl, 7, rfl, by decide⟩)).2 (by decide)
  exact ⟨_, h, rfl, hlaw _ hok, hok, rfl⟩

end Machine

end ByteMachine
