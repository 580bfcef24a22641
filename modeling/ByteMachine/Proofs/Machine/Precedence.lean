/-
**The order in which a step fails.**

A step can fail in nine ways, and in one state of a machine several of them may stand ready.  Here
each is written down on its own, as a check of the state that knows nothing of the others: whether
it applies, and the fault that it gives.  The step fails with the first check that applies, in the
order of the list, and succeeds if none does.  So the list says at once which faults a state has and
which of them is seen.

Main definitions:

* `ByteMachine.Machine.opcode?`, `operand?`, `operandValue?` — what stands at the program counter;
* `ByteMachine.Machine.checks` — the checks that depend on the machine alone;
* `ByteMachine.Machine.refusal` — the last one, which asks the output.

Main results:

* `ByteMachine.Machine.findSome?_checks_of_fetch_eq_error`, `findSome?_checks_eq_some_iff` — the
  checks find the fault of fetching and that of executing;
* `ByteMachine.Machine.step_fails_with_first_check` — **a step fails with the first check that
  applies**.
-/

import ByteMachine.Proofs.Machine.Reachable

set_option relaxedAutoImplicit false
set_option autoImplicit false

namespace ByteMachine

/-- The operands that name registers, counted from zero. -/
def Opcode.registerOperands : Opcode → List Nat
  | add | mul | cmp => [0, 1]
  | hlt | ret => []
  | _ => [0]

/-- The exact result of an operation; a comparison has none that could be too large. -/
def AluOp.exact : AluOp → UInt8 → UInt8 → Nat
  | add, x, y => x.toNat + y.toNat
  | mul, x, y => x.toNat * y.toNat
  | cmp, _, _ => 0

/-- The arithmetic unit refuses exactly a result that is too large, and only if it is to trap. -/
theorem AluOp.apply_eq_error_iff {alu : AluOp} {x y : UInt8} {p : OverflowPolicy} {e : Fault} :
    alu.apply x y p = .error e ↔
      (p = .trap ∧ 255 < alu.exact x y) ∧ e = .arithmeticOverflow alu x y := by
  cases alu with
  | cmp => simp [exact]
  | add | mul =>
      simp only [apply, OverflowPolicy.fit, exact]
      split
      · rename_i hfit
        simp only [Except.map, reduceCtorEq, false_iff]
        omega
      · rename_i hfit
        have hlarge := Nat.le_of_not_lt hfit
        cases p <;> simp [Except.map, Nat.lt_of_succ_le hlarge, eq_comm]

/-- The fault, if the condition holds. -/
def Fault.when (e : Fault) (p : Prop) [Decidable p] : Option Fault := if p then some e else none

theorem Fault.when_eq_some_iff {e f : Fault} {p : Prop} [Decidable p] :
    e.when p = some f ↔ p ∧ f = e := by
  rw [Fault.when, Option.ite_none_right_eq_some, Option.some.injEq, eq_comm (a := e)]

theorem Fault.when_eq_none_iff {e : Fault} {p : Prop} [Decidable p] :
    e.when p = none ↔ ¬p := by
  simp [Fault.when]

namespace Machine

/-! ### What stands at the program counter -/

/-- The instruction whose byte stands at the program counter. -/
def opcode? (m : Machine) : Option Opcode := (m.memory.peek m.pc).bind Opcode.decode?

/-- The operand of that number, counted from zero. -/
def operand? (m : Machine) (n : Nat) : Option UInt8 := m.memory.peek (m.pc + 1 + n)

/-- What the register holds that the operand names. -/
def operandValue? (m : Machine) (n : Nat) : Option UInt8 :=
  (m.operand? n).bind fun r => m.registers.values[r.toNat]?

/-! ### The checks -/

section Checks

variable (m : Machine) (op : Opcode)

/-- The program counter stands behind memory. -/
def behindMemory : Option Fault := Fault.when (.memoryOutOfBounds 256) (m.pc = 256)

/-- The byte at the program counter is in no table. -/
def unknownByte : Option Fault :=
  (m.memory.peek m.pc).bind fun b =>
    Fault.when
      (if Shape.isAlu b then .unsupportedAluOperation b m.pc else .illegalInstruction b m.pc)
      (Opcode.decode? b = none)

/-- The operands pass the end of memory. -/
def cutShort : Option Fault :=
  Fault.when (.memoryOutOfBounds 256) (255 < m.pc + op.operandCount)

/-- An operand that is to name a register does not; the first one is reported. -/
def noRegister : Option Fault :=
  ((op.registerOperands.filterMap m.operand?).find? fun r => 8 ≤ r.toNat).map .invalidRegister

/-- The return address does not fit a byte. -/
def noReturnAddress : Option Fault :=
  Fault.when (.memoryOutOfBounds 256) (m.leavesReturn op = true ∧ m.pc = 254)

/-- There is no room for a push. -/
def stackFull : Option Fault :=
  Fault.when (.stackOverflow m.sp)
    ((op = .push ∨ m.leavesReturn op = true) ∧ m.sp ≤ m.config.stackLimit)

/-- There is nothing to pop. -/
def stackEmpty : Option Fault :=
  Fault.when (.stackUnderflow m.sp) ((op = .pop ∨ op = .ret) ∧ m.sp = m.stackBase)

/-- The exact result fits no register, and the policy is to fail. -/
def tooLarge : Option Fault :=
  (AluOp.ofOpcode? op).bind fun alu =>
    (m.operandValue? 0).bind fun x =>
      (m.operandValue? 1).bind fun y =>
        Fault.when (.arithmeticOverflow alu x y)
          (m.config.overflow = .trap ∧ 255 < alu.exact x y)

/-- The checks of an instruction, in order. -/
def instructionChecks : List (Option Fault) :=
  [m.cutShort op, m.noRegister op, m.noReturnAddress op, m.stackFull op, m.stackEmpty op,
    m.tooLarge op]

/-- **The checks of a machine, in order.** -/
def checks : List (Option Fault) :=
  m.behindMemory :: m.unknownByte :: m.opcode?.elim [] m.instructionChecks

/-- **The last check:** a value is printed, and the output refuses its line. -/
def refusal (out : Sink) : Option Fault :=
  if m.opcode? = some .prn then
    (m.operandValue? 0).bind fun v =>
      match (out.write (v.toNat.repr ++ "\n")).1 with
      | .ok () => none
      | .error x => some x.fault
  else none

end Checks

variable {m : Machine} {s : Sinks} {i : Instruction} {f : Effect} {op : Opcode} {e : Fault}

theorem findSome?_cons_eq_some_iff {x : Option Fault} {xs : List (Option Fault)} :
    (x :: xs).findSome? id = some e ↔ x = some e ∨ x = none ∧ xs.findSome? id = some e := by
  cases x <;> simp

theorem noRegister_eq_none_iff :
    m.noRegister op = none ↔
      ∀ n ∈ op.registerOperands, ∀ r, m.operand? n = some r → r.toNat < 8 := by
  simp only [noRegister, Option.map_eq_none_iff, List.find?_eq_none, List.mem_filterMap,
    decide_eq_true_eq, Nat.not_le]
  constructor
  · intro h n hn r hr
    exact h r ⟨n, hn, hr⟩
  · rintro h r ⟨n, hn, hr⟩
    exact h n hn r hr

theorem operandValue?_eq_some_iff {n : Nat} {v : UInt8} :
    m.operandValue? n = some v ↔ ∃ r, m.operand? n = some r ∧ m.registers.get r = .ok v := by
  simp only [operandValue?, Option.bind_eq_some_iff, Registers.get]
  refine exists_congr fun r => and_congr_right fun _ => ?_
  cases m.registers.values[r.toNat]? <;> simp

/-! ### What is fetched -/

theorem opcode?_of_fetch (hi : m.fetch = .ok i) : m.opcode? = some i.opcode := by
  obtain ⟨hbyte, -⟩ := fetch_eq_ok_iff.1 hi
  rw [opcode?, hbyte, Option.bind_some, Opcode.decode?_encode]

theorem operand?_zero (hi : m.fetch = .ok i) : m.operand? 0 = i.first? :=
  (fetch_eq_ok_iff.1 hi).2.2.1.symm

theorem operand?_one (hi : m.fetch = .ok i) : m.operand? 1 = i.second? :=
  (fetch_eq_ok_iff.1 hi).2.2.2.symm

/-- The checks find the fault of fetching. -/
theorem findSome?_checks_of_fetch_eq_error (hpc : m.pc ≤ 256) (hi : m.fetch = .error e) :
    m.checks.findSome? id = some e := by
  rw [checks, findSome?_cons_eq_some_iff]
  rcases fetch_eq_error_iff.1 hi with ⟨hge, rfl⟩ | ⟨b, hb, hnone, rfl⟩
  · have heq : m.pc = 256 := Nat.le_antisymm hpc hge
    exact .inl (Fault.when_eq_some_iff.2 ⟨heq, by rw [heq]⟩)
  · have hlt : m.pc < 256 := Memory.peek_isSome.1 (by rw [hb]; rfl)
    refine .inr ⟨Fault.when_eq_none_iff.2 (Nat.ne_of_lt hlt), ?_⟩
    refine findSome?_cons_eq_some_iff.2 (.inl ?_)
    rw [unknownByte, hb, Option.bind_some]
    exact Fault.when_eq_some_iff.2 ⟨hnone, rfl⟩

/-- Behind a fetch only the checks of the instruction are left. -/
theorem findSome?_checks_of_fetch (hi : m.fetch = .ok i) :
    m.checks.findSome? id = (m.instructionChecks i.opcode).findSome? id := by
  obtain ⟨hbyte, -⟩ := fetch_eq_ok_iff.1 hi
  have hbehind : m.behindMemory = none :=
    Fault.when_eq_none_iff.2 (Nat.ne_of_lt (pc_lt_of_fetch hi))
  have hunknown : m.unknownByte = none := by
    rw [unknownByte, hbyte, Option.bind_some, Opcode.decode?_encode]
    exact Fault.when_eq_none_iff.2 nofun
  rw [checks, hbehind, hunknown, opcode?_of_fetch hi]
  rfl

/-- An operand that does not pass the end of memory is there. -/
theorem exists_operand {n : Nat} (hn : n < op.operandCount)
    (hcut : m.pc + op.operandCount ≤ 255) : ∃ r, m.operand? n = some r :=
  Option.isSome_iff_exists.1 (Memory.peek_isSome.2 (by omega))

/-! ### The checks of an instruction -/

/-- An instruction whose operands pass the end of memory fails at the first or the second one. -/
theorem faults_of_cutShort (hi : m.fetch = .ok i) (hcut : 255 < m.pc + i.opcode.operandCount) :
    m.Faults i (.memoryOutOfBounds 256) := by
  have hpc := pc_lt_of_fetch hi
  have hcount := i.opcode.operandCount_le_two
  obtain ⟨-, haddress, hfirst, hsecond⟩ := fetch_eq_ok_iff.1 hi
  cases hr : i.first? with
  | none =>
      have hpeek := Memory.peek_eq_none_iff.1 (hfirst.symm.trans hr)
      have heq : i.address + 1 = 256 := by omega
      exact heq ▸ .first (by omega) hr
  | some r =>
      have hlt := pc_lt_of_first hi hr
      have hnone : i.second? = none := by
        rw [hsecond]
        exact Memory.peek_eq_none_iff.2 (by omega)
      have heq : i.address + 2 = 256 := by omega
      exact heq ▸ .second (by omega) hr hnone

/-- The first operand names a register, if there is one. -/
theorem zero_mem_registerOperands (h : 1 ≤ op.operandCount) : 0 ∈ op.registerOperands := by
  cases op <;> first | exact List.mem_cons_self | exact absurd h (by decide)

/-- An instruction has no register operand, or one, or it is one of the arithmetic unit. -/
theorem registerOperands_cases (op : Opcode) :
    op.registerOperands = [] ∨ op.registerOperands = [0] ∧ 1 ≤ op.operandCount ∨
      op.registerOperands = [0, 1] ∧ ∃ alu, AluOp.ofOpcode? op = some alu := by
  cases op <;> first
    | exact .inl rfl
    | exact .inr (.inl ⟨rfl, by decide⟩)
    | exact .inr (.inr ⟨rfl, _, rfl⟩)

/-- The first operand that names no register is the fault of the instruction. -/
theorem faults_of_noRegister (hi : m.fetch = .ok i) (hcut : m.pc + i.opcode.operandCount ≤ 255)
    (h : m.noRegister i.opcode = some e) : m.Faults i e := by
  have hzero := operand?_zero hi
  have hone := operand?_one hi
  rcases registerOperands_cases i.opcode with hops | ⟨hops, hcount⟩ | ⟨hops, alu, halu⟩
  · rw [noRegister, hops] at h
    cases h
  · obtain ⟨r, hr⟩ := exists_operand hcount hcut
    simp only [noRegister, hops, List.filterMap_cons, hr, List.filterMap_nil,
      Option.map_eq_some_iff, List.find?_singleton, Option.ite_none_right_eq_some] at h
    obtain ⟨_, ⟨hge, hsome⟩, rfl⟩ := h
    obtain rfl := Option.some.inj hsome
    refine .register hcount (hzero ▸ hr) (fun htwo => ?_) (by simpa using hge)
    obtain ⟨v, hv⟩ := exists_operand (n := 1) (by omega) hcut
    rw [← hone, hv]
    exact Option.some_ne_none v
  · have hcount := AluOp.operandCount_of_ofOpcode? halu
    obtain ⟨a, ha⟩ := exists_operand (n := 0) (by omega) hcut
    obtain ⟨b, hb⟩ := exists_operand (n := 1) (by omega) hcut
    have hfirst : i.first? = some a := hzero ▸ ha
    have hsecond : i.second? = some b := hone ▸ hb
    simp only [noRegister, hops, List.filterMap_cons, ha, hb, List.filterMap_nil] at h
    rcases Nat.lt_or_ge a.toNat 8 with hlt | hge
    · have h : 8 ≤ b.toNat ∧ Fault.invalidRegister b = e := by simpa [Nat.not_le.2 hlt] using h
      obtain ⟨hge, rfl⟩ := h
      exact .secondRegister halu hfirst hsecond hlt hge
    · have h : Fault.invalidRegister a = e := by simpa [hge] using h
      subst h
      exact .register (by omega) hfirst (by simp [hsecond]) hge

/-- A check that applies, behind others that do not, gives a fault of the instruction. -/
theorem faults_of_findSome? (hi : m.fetch = .ok i)
    (h : (m.instructionChecks i.opcode).findSome? id = some e) : m.Faults i e := by
  have hnext := next_of_fetch hi
  have hzero := operand?_zero hi
  have hone := operand?_one hi
  simp only [instructionChecks, findSome?_cons_eq_some_iff, List.findSome?_nil] at h
  -- in the order of the list: what a check has ruled out is known to those behind it
  rcases h with h | ⟨hcut, h⟩
  · obtain ⟨hcut, rfl⟩ := Fault.when_eq_some_iff.1 h
    exact faults_of_cutShort hi hcut
  have hcut : m.pc + i.opcode.operandCount ≤ 255 := Nat.not_lt.1 (Fault.when_eq_none_iff.1 hcut)
  rcases h with h | ⟨hregister, h⟩
  · exact faults_of_noRegister hi hcut h
  have hfirst : 1 ≤ i.opcode.operandCount → ∃ r, i.first? = some r ∧ r.toNat < 8 := by
    intro hcount
    obtain ⟨r, hr⟩ := exists_operand hcount hcut
    refine ⟨r, hzero ▸ hr, ?_⟩
    exact noRegister_eq_none_iff.1 hregister 0 (zero_mem_registerOperands hcount) r hr
  rcases h with h | ⟨haddr, h⟩
  · obtain ⟨⟨hop, hlast⟩, rfl⟩ := Fault.when_eq_some_iff.1 h
    have hcount := operandCount_of_leavesReturn hop
    obtain ⟨r, hr, hlt⟩ := hfirst (by omega)
    have heq : i.next = 256 := by omega
    exact heq ▸ .returnAddress hop hr hlt (by omega)
  have haddr := Fault.when_eq_none_iff.1 haddr
  rcases h with h | ⟨-, h⟩
  · obtain ⟨⟨hop, hsp⟩, rfl⟩ := Fault.when_eq_some_iff.1 h
    rcases hop with hpush | hop
    · obtain ⟨r, hr, hlt⟩ := hfirst (by rw [hpush]; decide)
      exact .overflow (.inl hpush) hr hlt hsp
    · have hcount := operandCount_of_leavesReturn hop
      obtain ⟨r, hr, hlt⟩ := hfirst (by omega)
      have hne : m.pc ≠ 254 := fun hlast => haddr ⟨hop, hlast⟩
      exact .overflow (.inr ⟨hop, by omega⟩) hr hlt hsp
  rcases h with h | ⟨-, h⟩
  · obtain ⟨⟨hop, hsp⟩, rfl⟩ := Fault.when_eq_some_iff.1 h
    have hpops : i.Pops := by
      rcases hop with hpop | hret
      · exact .inr ⟨hpop, hfirst (by rw [hpop]; decide)⟩
      · exact .inl hret
    exact .underflow hpops (UInt8.le_of_eq hsp.symm)
  rcases h with h | ⟨-, h⟩
  · simp only [tooLarge, Option.bind_eq_some_iff] at h
    obtain ⟨alu, halu, x, hx, y, hy, h⟩ := h
    obtain ⟨hlarge, rfl⟩ := Fault.when_eq_some_iff.1 h
    obtain ⟨a, ha, hx⟩ := operandValue?_eq_some_iff.1 hx
    obtain ⟨b, hb, hy⟩ := operandValue?_eq_some_iff.1 hy
    exact .arithmetic halu (hzero ▸ ha) (hone ▸ hb) hx hy (AluOp.apply_eq_error_iff.2 ⟨hlarge, rfl⟩)
  · cases h

/-- Where an instruction fails, a check applies. -/
theorem findSome?_ne_none_of_faults (hi : m.fetch = .ok i) (hbase : m.sp ≤ m.stackBase)
    (h : m.Faults i e) : (m.instructionChecks i.opcode).findSome? id ≠ none := by
  intro hnone
  have hnext := next_of_fetch hi
  have hzero := operand?_zero hi
  have hone := operand?_one hi
  have hcount := i.opcode.operandCount_le_two
  simp only [instructionChecks, List.findSome?_eq_none_iff, List.forall_mem_cons, id] at hnone
  obtain ⟨hcut, hregister, haddr, hfull, hempty, hlarge, -⟩ := hnone
  have hcut := Fault.when_eq_none_iff.1 hcut
  have hregister := noRegister_eq_none_iff.1 hregister
  -- each rule by which an instruction fails is refuted by the check that stands for it
  cases h with
  | first hop hr =>
      have hpeek := Memory.peek_eq_none_iff.1 (hzero.trans hr)
      omega
  | second hop hr hv =>
      have hpeek := Memory.peek_eq_none_iff.1 (hone.trans hv)
      omega
  | @register r hop hr hv hge =>
      have hlt := hregister 0 (zero_mem_registerOperands hop) r (hzero.trans hr)
      omega
  | @secondRegister alu a b hop ha hb hlt hge =>
      have hmem : 1 ∈ i.opcode.registerOperands := by
        cases ho : i.opcode <;> rw [ho] at hop <;> first | decide | cases hop
      have hlt := hregister 1 hmem b (hone.trans hb)
      omega
  | returnAddress hop hr hlt hge =>
      have hpc := pc_lt_of_first hi hr
      have hcount := operandCount_of_leavesReturn hop
      exact Fault.when_eq_none_iff.1 haddr ⟨hop, by omega⟩
  | overflow hop hr hlt hsp =>
      exact Fault.when_eq_none_iff.1 hfull ⟨hop.imp_right And.left, hsp⟩
  | underflow hop hsp =>
      exact Fault.when_eq_none_iff.1 hempty
        ⟨(hop.imp_right And.left).symm, UInt8.le_antisymm hbase hsp⟩
  | @arithmetic alu a b x y hop ha hb hx hy hv =>
      obtain ⟨hv, -⟩ := AluOp.apply_eq_error_iff.1 hv
      have hx := operandValue?_eq_some_iff.2 ⟨a, hzero.trans ha, hx⟩
      have hy := operandValue?_eq_some_iff.2 ⟨b, hone.trans hb, hy⟩
      rw [tooLarge, hop, Option.bind_some, hx, Option.bind_some, hy, Option.bind_some] at hlarge
      exact Fault.when_eq_none_iff.1 hlarge hv

/-- **The checks find the fault of an instruction.** -/
theorem findSome?_checks_eq_some_iff (hi : m.fetch = .ok i) (hbase : m.sp ≤ m.stackBase) :
    m.checks.findSome? id = some e ↔ m.Faults i e := by
  rw [findSome?_checks_of_fetch hi]
  refine ⟨faults_of_findSome? hi, fun h => ?_⟩
  obtain ⟨e', he⟩ := Option.ne_none_iff_exists'.1 (findSome?_ne_none_of_faults hi hbase h)
  have h' := execute_of_faults (faults_of_findSome? hi he)
  rw [execute_of_faults h] at h'
  rw [he, Except.error.inj h']

/-- Where an instruction has an effect, no check applies. -/
theorem findSome?_checks_eq_none (hi : m.fetch = .ok i) (hbase : m.sp ≤ m.stackBase)
    (hf : m.Executes i f) : m.checks.findSome? id = none := by
  refine Option.eq_none_iff_forall_ne_some.2 fun e he => ?_
  have hfault := execute_of_faults ((findSome?_checks_eq_some_iff hi hbase).1 he)
  rw [execute_of_executes hf] at hfault
  cases hfault

/-! ### Printing and halting -/

/-- Only a print instruction prints, and only a halt instruction halts. -/
theorem effect_of_executes (hi : m.fetch = .ok i) (hf : m.Executes i f) :
    (f.printed = if i.opcode = .prn then m.operandValue? 0 else none) ∧
      f.halts = decide (i.opcode = .hlt) := by
  cases hf with
  | hlt hop | ldi hop | cmp hop | push hop | pop hop | ret hop => simp [hop, proceed]
  | prn hop hr hget =>
      have hvalue := operandValue?_eq_some_iff.2 ⟨_, (operand?_zero hi).trans hr, hget⟩
      simp [hop, hvalue]
  | arith hop => cases ho : i.opcode <;> rw [ho] at hop <;> first | exact ⟨rfl, rfl⟩ | cases hop
  | call hop => cases ho : i.opcode <;> rw [ho] at hop <;> first | exact ⟨rfl, rfl⟩ | cases hop
  | jump hop => cases ho : i.opcode <;> rw [ho] at hop <;> first | exact ⟨rfl, rfl⟩ | cases hop
  | pass hop => cases ho : i.opcode <;> rw [ho] at hop <;> first | exact ⟨rfl, rfl⟩ | cases hop

/-- The output refuses what an instruction prints exactly if the last check applies. -/
theorem refusal_eq (hi : m.fetch = .ok i) (hf : m.Executes i f) (t : Sinks) :
    m.refusal t.out =
      match (writeValue t f.printed).1 with
      | .ok () => none
      | .error x => some x.fault := by
  obtain ⟨hprinted, -⟩ := effect_of_executes hi hf
  rw [refusal, opcode?_of_fetch hi, hprinted]
  by_cases hop : i.opcode = .prn
  · rw [if_pos hop, if_pos (congrArg some hop)]
    cases m.operandValue? 0 <;> rfl
  · rw [if_neg hop, if_neg fun h => hop (Option.some.inj h)]
    rfl

/-! ### Steps -/

/-- **A step fails with the first check that applies,** and succeeds if none does.  The checks that
depend on the machine alone come first, in the order of the list; behind them only the output can
refuse, and that only what is printed. -/
theorem step_fails_with_first_check {c : Config} (h : Reachable c m) (ht : m.Traces s) :
    (m.step s).result =
      match (m.checks.findSome? id).or (m.refusal s.out) with
      | some e => .error e
      | none => .ok (if m.opcode? = some .hlt then .halted else .running) := by
  have hinv := h.invariant
  have hout := m.out_writeTrace s
  have hstep := m.steps_step s
  generalize m.step s = o at hstep
  cases hstep with
  | untraced ht' =>
      rw [Traces, ht'] at ht
      cases ht
  | unfetched ht' hi => rw [findSome?_checks_of_fetch_eq_error hinv.pc_le hi, Option.some_or]
  | failed ht' hi he =>
      rw [(findSome?_checks_eq_some_iff hi hinv.stack.sp_le).2 he, Option.some_or]
  | @unprinted x t u i f ht' hi hf hp =>
      rw [ht'] at hout
      rw [findSome?_checks_eq_none hi hinv.stack.sp_le hf, Option.none_or, ← hout,
        refusal_eq hi hf, hp]
  | @done t u i f ht' hi hf hp =>
      rw [ht'] at hout
      rw [findSome?_checks_eq_none hi hinv.stack.sp_le hf, Option.none_or, ← hout,
        refusal_eq hi hf, hp, (effect_of_executes hi hf).2, opcode?_of_fetch hi]
      simp

/-- A pop from an empty stack into a register that does not exist: the register is reported. -/
theorem register_before_empty_stack :
    ∃ m : Machine, Reachable Config.default m ∧ m.opcode? = some .pop ∧
      m.stackEmpty .pop = some (.stackUnderflow 0xF4) ∧
      m.noRegister .pop = some (.invalidRegister 9) ∧
      (m.step .unlimited).result = .error (.invalidRegister 9) := by
  have h : Reachable Config.default _ := .afterAll (.start rfl) [.poke 0 0x46, .poke 1 9] rfl
  have hstep := step_fails_with_first_check h (s := .unlimited) (traces_of_unlimited rfl)
  exact ⟨_, h, rfl, rfl, rfl, hstep.trans rfl⟩

end Machine

end ByteMachine
