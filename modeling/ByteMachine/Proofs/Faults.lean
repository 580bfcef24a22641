/-
**The texts of faults tell the faults.**

The message of a fault is all that a user sees of it.  It begins with fixed words and shows behind
them what the fault carries: addresses in hexadecimal, opcode bytes in binary, other numbers in
decimal.  No two kinds of faults begin alike, and no two faults of a kind go on alike, since every
number ends before the words behind it begin.  So nothing is lost in a message.

Main definitions:

* `ByteMachine.Fault.title`, `Fault.details` — the fixed words, and what stands behind them;
* `ByteMachine.Fault.shown` — what a fault carries, as a message writes it.

Main results:

* `ByteMachine.Fault.exists_message_eq_of_mem_shown` — **a message shows all that the fault
  carries**;
* `ByteMachine.Fault.title_eq_of_message_eq` — a message tells the kind of the fault;
* `ByteMachine.Fault.message_injective` — **a message tells the fault**.
-/

import ByteMachine.Fault
import ByteMachine.Proofs.Numeral

set_option relaxedAutoImplicit false
set_option autoImplicit false

namespace ByteMachine

/-! ### Words of one length -/

/-- Texts with beginnings of one length are compared part by part. -/
theorem append_inj_of_length {w w' s s' : String} (hlength : w.toList.length = w'.toList.length)
    (h : w ++ s = w' ++ s') : w = w' ∧ s = s' := by
  rw [← String.toList_inj, String.toList_append, String.toList_append] at h
  obtain ⟨hw, hs⟩ := List.append_inj h hlength
  exact ⟨String.toList_inj.1 hw, String.toList_inj.1 hs⟩

namespace AluOp

theorem length_mnemonic (op : AluOp) : op.mnemonic.toList.length = 3 := by
  cases op <;> rfl

theorem mnemonic_injective {op op' : AluOp} (h : op.mnemonic = op'.mnemonic) : op = op' := by
  cases op <;> cases op' <;> first | rfl | exact absurd h (by decide)

end AluOp

namespace Fault

variable {e e' : Fault}

/-! ### What a message consists of -/

/-- The words in front of what a fault carries. -/
def title : Fault → String
  | illegalInstruction _ _ => "Illegal instruction "
  | unsupportedAluOperation _ _ => "Unsupported ALU operation "
  | memoryOutOfBounds _ => "Memory access out of bounds: address "
  | invalidRegister _ => "Invalid register: R"
  | stackOverflow _ => "Stack overflow (SP="
  | stackUnderflow _ => "Stack underflow (SP="
  | arithmeticOverflow _ _ _ => "Arithmetic overflow in "
  | programTooLarge _ _ => "Program too large: "
  | invalidConfig _ => "Invalid configuration: "
  | output _ => "Output error: "

/-- An opcode byte and where it stands. -/
def opcodeAt (opcode : UInt8) (pc : Nat) : String :=
  Numeral.binaryByte opcode ++ (" at address " ++ Numeral.hexAddress 2 pc)

/-- **What stands behind the words.** -/
def details : Fault → String
  | illegalInstruction opcode pc | unsupportedAluOperation opcode pc => opcodeAt opcode pc
  | memoryOutOfBounds address => Numeral.hexAddress 1 address
  | invalidRegister index => index.toNat.repr
  | stackOverflow sp | stackUnderflow sp => Numeral.hexAddress 2 sp.toNat ++ ")"
  | arithmeticOverflow operation left right =>
    operation.mnemonic ++ (": " ++ (left.toNat.repr ++ (" and " ++ right.toNat.repr)))
  | programTooLarge size capacity =>
    size.repr ++ (" bytes (memory holds " ++ (capacity.repr ++ ")"))
  | invalidConfig reason | output reason => reason

theorem message_eq (e : Fault) : e.message = e.title ++ e.details := by
  unfold message details
  cases e <;> simp only [title, opcodeAt, String.append_assoc]

/-! ### What a message shows -/

/-- **What a fault carries, as a message writes it.** -/
def shown : Fault → List String
  | illegalInstruction opcode pc | unsupportedAluOperation opcode pc =>
    [Numeral.binaryByte opcode, Numeral.hexAddress 2 pc]
  | memoryOutOfBounds address => [Numeral.hexAddress 1 address]
  | invalidRegister index => [index.toNat.repr]
  | stackOverflow sp | stackUnderflow sp => [Numeral.hexAddress 2 sp.toNat]
  | arithmeticOverflow operation left right =>
    [operation.mnemonic, left.toNat.repr, right.toNat.repr]
  | programTooLarge size capacity => [size.repr, capacity.repr]
  | invalidConfig reason | output reason => [reason]

theorem infix_details_of_mem_shown {t : String} (h : t ∈ e.shown) :
    t.toList <:+: e.details.toList := by
  cases e with
  | illegalInstruction opcode pc | unsupportedAluOperation opcode pc =>
      simp only [shown, List.mem_cons, List.not_mem_nil, or_false] at h
      simp only [details, opcodeAt, String.toList_append]
      rcases h with rfl | rfl
      · exact (List.prefix_append _ _).isInfix
      · exact ((List.suffix_append _ _).trans (List.suffix_append _ _)).isInfix
  | stackOverflow sp | stackUnderflow sp =>
      obtain rfl := List.mem_singleton.1 h
      rw [details, String.toList_append]
      exact (List.prefix_append _ _).isInfix
  | arithmeticOverflow operation left right =>
      simp only [shown, List.mem_cons, List.not_mem_nil, or_false] at h
      simp only [details, String.toList_append]
      rcases h with rfl | rfl | rfl
      · exact (List.prefix_append _ _).isInfix
      · refine List.infix_append_of_infix_right (List.infix_append_of_infix_right ?_)
        exact (List.prefix_append _ _).isInfix
      · refine List.infix_append_of_infix_right (List.infix_append_of_infix_right ?_)
        exact ((List.suffix_append _ _).trans (List.suffix_append _ _)).isInfix
  | programTooLarge size capacity =>
      simp only [shown, List.mem_cons, List.not_mem_nil, or_false] at h
      simp only [details, String.toList_append]
      rcases h with rfl | rfl
      · exact (List.prefix_append _ _).isInfix
      · exact List.infix_append_of_infix_right (List.infix_append' _ _ _)
  | memoryOutOfBounds _ | invalidRegister _ | invalidConfig _ | output _ =>
      obtain rfl := List.mem_singleton.1 h
      exact List.infix_rfl

/-- **A message shows all that the fault carries.** -/
theorem exists_message_eq_of_mem_shown {t : String} (h : t ∈ e.shown) :
    ∃ before behind, e.message = before ++ t ++ behind := by
  obtain ⟨before, behind, hdetails⟩ := infix_details_of_mem_shown h
  refine ⟨e.title ++ String.ofList before, String.ofList behind, ?_⟩
  rw [message_eq, ← String.toList_inj]
  simp only [String.toList_append, String.toList_ofList, List.append_assoc, ← hdetails]

/-! ### Messages alike -/

/-- The words in front of all kinds of faults. -/
def titles : List String :=
  [illegalInstruction 0 0, unsupportedAluOperation 0 0, memoryOutOfBounds 0, invalidRegister 0,
    stackOverflow 0, stackUnderflow 0, arithmeticOverflow .add 0 0, programTooLarge 0 0,
    invalidConfig "", output ""].map title

theorem title_mem_titles (e : Fault) : e.title ∈ titles := by
  cases e <;> simp [title, titles]

/-- Ten characters are in the words of every kind, and tell the kinds apart. -/
theorem take_titles : ∀ t ∈ titles, 10 ≤ t.toList.length ∧
    ∀ t' ∈ titles, t.toList.take 10 = t'.toList.take 10 → t = t' := by
  decide +kernel

/-- **Messages alike begin with the same words.** -/
theorem title_eq_of_message_eq (h : e.message = e'.message) : e.title = e'.title := by
  have htake : ∀ e : Fault, e.message.toList.take 10 = e.title.toList.take 10 := by
    intro e
    rw [message_eq, String.toList_append,
      List.take_append_of_le_length (take_titles _ e.title_mem_titles).1]
  refine (take_titles _ e.title_mem_titles).2 _ e'.title_mem_titles ?_
  rw [← htake, ← htake, h]

theorem opcodeAt_inj {opcode opcode' : UInt8} {pc pc' : Nat}
    (h : opcodeAt opcode pc = opcodeAt opcode' pc') : opcode = opcode' ∧ pc = pc' := by
  obtain ⟨hopcode, haddress⟩ := append_inj_of_length
    (by rw [Numeral.length_binaryByte, Numeral.length_binaryByte]) h
  have haddress := (String.append_right_inj " at address ").1 haddress
  exact ⟨Numeral.binaryByte_injective hopcode, Numeral.hexAddress_injective haddress⟩

/-- **A message tells the fault.** -/
theorem message_injective (h : e.message = e'.message) : e = e' := by
  -- the title tells the kind; what the fault carries is compared where the kinds agree
  have htitle := title_eq_of_message_eq h
  have hdetails : e.details = e'.details := by
    rw [message_eq, message_eq, htitle] at h
    exact (String.append_right_inj _).1 h
  cases e with
  | illegalInstruction opcode pc =>
      cases e' with
      | illegalInstruction opcode' pc' =>
          obtain ⟨rfl, rfl⟩ := opcodeAt_inj hdetails
          rfl
      | _ => simp [title] at htitle
  | unsupportedAluOperation opcode pc =>
      cases e' with
      | unsupportedAluOperation opcode' pc' =>
          obtain ⟨rfl, rfl⟩ := opcodeAt_inj hdetails
          rfl
      | _ => simp [title] at htitle
  | memoryOutOfBounds address =>
      cases e' with
      | memoryOutOfBounds address' => rw [Numeral.hexAddress_injective hdetails]
      | _ => simp [title] at htitle
  | invalidRegister index =>
      cases e' with
      | invalidRegister index' => rw [UInt8.toNat_inj.1 (Numeral.repr_injective hdetails)]
      | _ => simp [title] at htitle
  | stackOverflow sp =>
      cases e' with
      | stackOverflow sp' =>
          have hsp := Numeral.hexAddress_injective ((String.append_left_inj ")").1 hdetails)
          rw [UInt8.toNat_inj.1 hsp]
      | _ => simp [title] at htitle
  | stackUnderflow sp =>
      cases e' with
      | stackUnderflow sp' =>
          have hsp := Numeral.hexAddress_injective ((String.append_left_inj ")").1 hdetails)
          rw [UInt8.toNat_inj.1 hsp]
      | _ => simp [title] at htitle
  | arithmeticOverflow operation left right =>
      cases e' with
      | arithmeticOverflow operation' left' right' =>
          obtain ⟨hoperation, hoperands⟩ := append_inj_of_length
            (by rw [AluOp.length_mnemonic, AluOp.length_mnemonic]) hdetails
          obtain ⟨hleft, hright⟩ :=
            Numeral.repr_append_inj rfl rfl ((String.append_right_inj _).1 hoperands)
          rw [AluOp.mnemonic_injective hoperation, UInt8.toNat_inj.1 hleft,
            UInt8.toNat_inj.1 (Numeral.repr_injective hright)]
      | _ => simp [title] at htitle
  | programTooLarge size capacity =>
      cases e' with
      | programTooLarge size' capacity' =>
          obtain ⟨rfl, hcapacity⟩ := Numeral.repr_append_inj rfl rfl hdetails
          rw [Numeral.repr_injective ((String.append_left_inj ")").1 hcapacity)]
      | _ => simp [title] at htitle
  | invalidConfig reason =>
      cases e' with
      | invalidConfig reason' => exact congrArg invalidConfig hdetails
      | _ => simp [title] at htitle
  | output reason =>
      cases e' with
      | output reason' => exact congrArg output hdetails
      | _ => simp [title] at htitle

end Fault

end ByteMachine
