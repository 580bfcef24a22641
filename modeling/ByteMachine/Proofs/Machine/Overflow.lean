/-
**Overflow policies.**

The overflow policy says what becomes of a sum or a product that fits no register.  A machine asks
for it nowhere else, so machines that differ in their policies only do the same, in every respect,
until the first such result.  There they part: one fails, with the operation and its two values, one
keeps the low eight bits, and one keeps the largest byte.  Whether a result fits is a question that
does not depend on the policy, so it is asked of any one of the machines; and a run that is to fail,
and ends without doing so, is the run under every policy.

Main definitions:

* `ByteMachine.Machine.governed` — a machine under another overflow policy;
* `ByteMachine.Machine.Overflows` — the next step computes a result that fits no register;
* `ByteMachine.Machine.Fits` — none of the first steps does.

Main results:

* `ByteMachine.AluOp.apply_of_fits`, `apply_of_overflow` — the policies on one result;
* `ByteMachine.Machine.stepped_governed` — **as long as results fit, policies make no difference**;
* `ByteMachine.Machine.run_governed` — nor do they if a run that traps ends without;
* `ByteMachine.Machine.policies_differ_at_first_overflow` — **where they do make one, and which**.
-/

import ByteMachine.Proofs.Machine.Precedence
import ByteMachine.Proofs.Machine.Reconfigured

set_option relaxedAutoImplicit false
set_option autoImplicit false

namespace ByteMachine

/-! ### One result -/

namespace AluOp

variable {op : AluOp} {x y : UInt8}

/-- A result that fits is the same under all policies. -/
theorem apply_of_fits (h : op.exact x y ≤ 255) (p q : OverflowPolicy) :
    op.apply x y p = op.apply x y q := by
  cases op with
  | cmp => rfl
  | add | mul =>
      have hlt := Nat.lt_succ_of_le h
      simp only [exact] at hlt
      simp only [apply, OverflowPolicy.fit, if_pos hlt]

/-- **A result that fits no register** is refused, taken modulo 256, or replaced by 255. -/
theorem apply_of_overflow (h : 255 < op.exact x y) :
    op.apply x y .trap = .error (.arithmeticOverflow op x y) ∧
      op.apply x y .wrap = .ok (.value (UInt8.ofNat (op.exact x y % 256))) ∧
      op.apply x y .saturate = .ok (.value 255) := by
  refine ⟨apply_eq_error_iff.2 ⟨⟨rfl, h⟩, rfl⟩, ?_⟩
  cases op with
  | cmp => cases h
  | add | mul =>
      have hge := Nat.not_lt.2 (Nat.succ_le_of_lt h)
      simp only [exact] at hge
      simp only [apply, OverflowPolicy.fit, if_neg hge]
      exact ⟨rfl, rfl⟩

end AluOp

/-- The configuration with another overflow policy. -/
def Config.governed (p : OverflowPolicy) (c : Config) : Config := { c with overflow := p }

namespace Machine

variable {m : Machine} {s : Sinks} {i : Instruction} {k : Nat} {op : AluOp} {a x y v : UInt8}

/-- **The machine under another overflow policy.** -/
def governed (m : Machine) (p : OverflowPolicy) : Machine := m.reconfigured (.governed p)

/-! ### One step -/

/-- **The next step overflows:** it comes to an operation on these two values, and the exact result
fits no register. -/
structure Overflows (m : Machine) (s : Sinks) (op : AluOp) (x y : UInt8) : Prop where
  traces : m.Traces s
  computes : ∃ i, m.fetch = .ok i ∧ m.Computes i op x y
  large : 255 < op.exact x y

/-- A step that does not overflow is the same under every policy. -/
theorem step_governed (h : ∀ op x y, ¬m.Overflows s op x y) (p : OverflowPolicy) :
    (m.governed p).step s = (m.step s).reconfigured (.governed p) := by
  refine step_reconfigured rfl fun htrace i hi => ⟨rfl, fun op x y hcomp => ?_, fun _ => rfl⟩
  have hfits := Nat.not_lt.1 fun hlarge => h op x y ⟨htrace, ⟨i, hi, hcomp⟩, hlarge⟩
  exact AluOp.apply_of_fits hfits _ _

theorem writeTrace_governed (m : Machine) (p : OverflowPolicy) (s : Sinks) :
    (m.governed p).writeTrace s = m.writeTrace s :=
  writeTrace_reconfigured rfl s

theorem Overflows.governed (h : m.Overflows s op x y) (p : OverflowPolicy) :
    (m.governed p).Overflows s op x y :=
  ⟨traces_reconfigured rfl h.traces, h.computes, h.large⟩

/-- A step that overflows fails if it is to trap. -/
theorem step_of_overflows (h : m.Overflows s op x y) (htrap : m.config.overflow = .trap) :
    m.step s = ⟨.error (.arithmeticOverflow op x y), m.tick, (m.writeTrace s).2⟩ := by
  obtain ⟨ht, ⟨i, hi, hop, a, b, ha, hb, hx, hy⟩, hlarge⟩ := h
  refine step_of_execute_eq_error ht hi (execute_of_faults (.arithmetic hop ha hb hx hy ?_))
  rw [htrap]
  exact (AluOp.apply_of_overflow hlarge).1

/-- A step that overflows assigns what is to stand for the result. -/
theorem Overflows.exists_step_eq (h : m.Overflows s op x y) :
    ∃ i a, m.fetch = .ok i ∧ i.first? = some a ∧
      ∀ p v, op.apply x y p = .ok (.value v) →
        (m.governed p).step s =
          ⟨.ok .running, (((m.governed p).assigned a v).goto i.next).tick, (m.writeTrace s).2⟩ := by
  obtain ⟨i, hi, hop, a, b, ha, hb, hx, hy⟩ := h.computes
  refine ⟨i, a, hi, ha, fun p v hv => ?_⟩
  rw [← m.writeTrace_governed p]
  exact step_of_executes (h.governed p).traces hi (.arith hop ha hb hx hy hv) rfl

/-! ### Any number of steps -/

/-- **Results fit:** none of the first `k` steps overflows. -/
def Fits (m : Machine) (s : Sinks) (k : Nat) : Prop :=
  ∀ j < k, ∀ op x y, ¬(m.stepped s j).machine.Overflows (m.stepped s j).sinks op x y

/-- **As long as results fit, policies make no difference.** -/
theorem stepped_governed (h : m.Fits s k) (p : OverflowPolicy) :
    (m.governed p).stepped s k = (m.stepped s k).reconfigured (.governed p) :=
  stepped_reconfigured fun j hj => step_governed (h j hj) p

/-- The step behind steps that are the same. -/
theorem stepped_succ_governed (h : m.Fits s k) (p : OverflowPolicy) :
    (m.governed p).stepped s (k + 1) =
      ((m.stepped s k).machine.governed p).step (m.stepped s k).sinks :=
  stepped_succ_reconfigured (stepped_governed h p)

/-! ### Runs -/

/-- Results fit up to the end of a run that traps, if it ends without an overflow. -/
theorem fits_of_isLeast (htrap : m.config.overflow = .trap) (hk : IsLeast {k | m.Stops s k} k)
    (hend : ∀ op x y, (m.stepped s k).result ≠ .error (.arithmeticOverflow op x y)) :
    m.Fits s k := by
  intro j hj op x y hover
  have hstep := step_of_overflows hover (by rwa [config_stepped])
  have hresult : (m.stepped s (j + 1)).result = .error (.arithmeticOverflow op x y) := by
    rw [stepped, hstep]
  have hstops : m.Stops s (j + 1) := by
    right
    rw [hresult]
    simp
  obtain rfl : k = j + 1 := Nat.le_antisymm (hk.2 hstops) hj
  exact hend op x y hresult

/-- **A run that is to trap, and ends without doing so, is the run under every policy.** -/
theorem run_governed (htrap : m.config.overflow = .trap) {o : Outcome Halt}
    (hrun : m.run s = some o)
    (hend : ∀ op x y, o.result ≠ .error (.arithmeticOverflow op x y)) (p : OverflowPolicy) :
    (m.governed p).run s = some (o.reconfigured (.governed p)) := by
  obtain ⟨k, hk, -, rfl⟩ := exists_isLeast_of_run hrun
  have hfits : m.Fits s k :=
    fits_of_isLeast htrap hk fun op x y h => hend op x y (result_conclude_of_error h)
  exact run_reconfigured (g := .governed p) (fun _ => rfl) hrun hk fun j hj =>
    step_governed (hfits j hj) p

/-- **Policies differ only behind the first overflow.**  The machine, whatever its policy, is
compared with the same machine under each policy.  As long as the exact results fit, all of them
make the same steps, with the same results and texts.  Behind them, the first step that overflows
fails if it is to trap, with the operation and its values; to the register that is to hold the
result, it assigns the exact result modulo 256 if it is to wrap, and 255 if it is to saturate.  So a
run that is to trap, and ends without doing so, is the run under every policy. -/
theorem policies_differ_at_first_overflow (m : Machine) (s : Sinks) :
    (∀ k, m.Fits s k → ∀ p,
      (m.governed p).stepped s k = (m.stepped s k).reconfigured (.governed p)) ∧
    (∀ k r n t op x y, m.Fits s k → m.stepped s k = ⟨r, n, t⟩ → n.Overflows t op x y →
      (m.governed .trap).stepped s (k + 1) =
        ⟨.error (.arithmeticOverflow op x y), (n.governed .trap).tick, (n.writeTrace t).2⟩ ∧
      ∃ i a, n.fetch = .ok i ∧ i.first? = some a ∧
        (m.governed .wrap).stepped s (k + 1) =
          ⟨.ok .running, (((n.governed .wrap).assigned a
            (UInt8.ofNat (op.exact x y % 256))).goto i.next).tick, (n.writeTrace t).2⟩ ∧
        (m.governed .saturate).stepped s (k + 1) =
          ⟨.ok .running, (((n.governed .saturate).assigned a 255).goto i.next).tick,
            (n.writeTrace t).2⟩) ∧
    ∀ o, (m.governed .trap).run s = some o →
      (∀ op x y, o.result ≠ .error (.arithmeticOverflow op x y)) →
      ∀ p, (m.governed p).run s = some (o.reconfigured (.governed p)) := by
  refine ⟨fun k => stepped_governed, ?_,
    fun o hrun => run_governed (m := m.governed .trap) rfl hrun⟩
  intro k r n t op x y hfits hk hover
  obtain ⟨-, hwrap, hsaturate⟩ := AluOp.apply_of_overflow hover.large
  obtain ⟨i, a, hi, ha, hstep⟩ := hover.exists_step_eq
  simp only [stepped_succ_governed hfits, hk]
  refine ⟨?_, i, a, hi, ha, hstep .wrap _ hwrap, hstep .saturate _ hsaturate⟩
  rw [step_of_overflows (hover.governed .trap) rfl, writeTrace_governed]

/-- A machine that loads 16 and multiplies it with itself. -/
def squaresSixteen : Machine :=
  { fresh .default with
    memory := (((Memory.empty.put 0 0x82).put 2 16).put 3 0xA2).put 6 0x01 }

/-- Loading fits, and the product does not: it is refused, or it is 0, or 255. -/
theorem policies_differ_on_square_of_sixteen :
    squaresSixteen.Fits .unlimited 1 ∧
      ((squaresSixteen.governed .trap).stepped .unlimited 2).result =
        .error (.arithmeticOverflow .mul 16 16) ∧
      ((squaresSixteen.governed .wrap).stepped .unlimited 2).machine.registers.get 0 = .ok 0 ∧
      ((squaresSixteen.governed .saturate).stepped .unlimited 2).machine.registers.get 0 =
        .ok 255 := by
  have hfits : squaresSixteen.Fits .unlimited 1 := by
    rintro j hj op x y ⟨-, ⟨i, hi, hop, -⟩, -⟩
    obtain rfl := Nat.lt_one_iff.1 hj
    obtain rfl : ⟨.ldi, 0, some 0, some 16⟩ = i := Except.ok.inj hi
    cases hop
  obtain ⟨-, hfirst, -⟩ := policies_differ_at_first_overflow squaresSixteen .unlimited
  obtain ⟨htrap, i, a, hi, ha, hwrap, hsaturate⟩ := hfirst 1 _ _ _ .mul 16 16 hfits rfl
    ⟨rfl, ⟨⟨.mul, 3, some 0, some 0⟩, rfl, rfl, 0, 0, rfl, rfl, rfl, rfl⟩, by decide⟩
  obtain rfl : ⟨.mul, 3, some 0, some 0⟩ = i := Except.ok.inj hi
  obtain rfl : 0 = a := Option.some.inj ha
  rw [htrap, hwrap, hsaturate]
  exact ⟨hfits, rfl, rfl, rfl⟩

end Machine

end ByteMachine
