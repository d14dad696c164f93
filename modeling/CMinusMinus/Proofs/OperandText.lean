/-
  File:      CMinusMinus/Proofs/OperandText.lean
  Subject:   Operands, targets and instructions are told apart by their texts.

  A number is written with digits, perhaps behind a minus sign; an address begins with the sign of its
  space, a label with a tilde, and an operand that is missing is written as nothing. So the first
  character tells what kind of operand a text is, and the rest tells which one. Mnemonics tell the
  instructions apart, so that a line, its mnemonic with the texts of its operands, belongs to one
  instruction.

  * `Address.text_inj`, `Operand.text_inj`, `Target.text_inj` -- texts tell operands apart;
  * `Instr.line_inj` -- lines tell instructions apart.
-/
import CMinusMinus.Proofs.LabelText

namespace CMinusMinus

/-! ## 1. Numbers and addresses -/

theorem Space.sign_inj {s t : Space} (h : s.sign = t.sign) : s = t := by
  cases s <;> cases t <;> first | rfl | exact absurd h (by decide)

/-- **Addresses are told apart by their texts.** -/
theorem Address.text_inj {a b : Address} : a.text = b.text ↔ a = b := by
  refine ⟨fun h => ?_, congrArg Address.text⟩
  have hlist := congrArg String.toList h
  rw [Address.toList_text, Address.toList_text] at hlist
  obtain ⟨hsign, hslot⟩ := List.cons.inj hlist
  obtain ⟨space, slot⟩ := a
  obtain ⟨space', slot'⟩ := b
  obtain rfl : space = space' := Space.sign_inj hsign
  obtain rfl : slot = slot' := Text.int_text_inj.mp (String.toList_inj.mp hslot)
  rfl

/-- The text of an address is the text of no number. -/
theorem Address.toList_text_ne (a : Address) (n : Int) : a.text.toList ≠ (toString n).toList := by
  intro h
  have hmem : a.space.sign ∈ (toString n).toList := by
    rw [← h, Address.toList_text]
    exact List.mem_cons_self
  refine (Text.isDecimal_int n).not_mem ?_ hmem
  cases a.space <;> decide

/-! ## 2. Operands and targets -/

/-- **Operands are told apart by their texts.** -/
theorem Operand.text_inj {v w : Operand} : v.text = w.text ↔ v = w := by
  refine ⟨fun h => ?_, congrArg Operand.text⟩
  have hlist := congrArg String.toList h
  cases v with
  | absent =>
    cases w with
    | absent => rfl
    | literal n => exact absurd h.symm (Text.isDecimal_int n).nonempty
    | address a => exact absurd (hlist.trans a.toList_text) (by simp [Operand.text])
  | literal m =>
    cases w with
    | absent => exact absurd h (Text.isDecimal_int m).nonempty
    | literal n => exact congrArg Operand.literal (Text.int_text_inj.mp h)
    | address a => exact absurd hlist.symm (a.toList_text_ne m)
  | address a =>
    cases w with
    | absent => exact absurd (a.toList_text.symm.trans hlist) (by simp [Operand.text])
    | literal n => exact absurd hlist (a.toList_text_ne n)
    | address b => exact congrArg Operand.address (Address.text_inj.mp h)

theorem Target.text_inj {t u : Target} : Target.text t = Target.text u ↔ t = u := by
  cases u with
  | some l => exact Target.text_eq_iff t l
  | none =>
    cases t with
    | none => exact iff_of_true rfl rfl
    | some l => exact eq_comm.trans ((Target.text_eq_iff none l).trans eq_comm)

/-! ## 3. Instructions -/

theorem ArithOp.mnemonic_inj {o p : ArithOp} : o.mnemonic = p.mnemonic ↔ o = p := by
  cases o <;> cases p <;> simp [ArithOp.mnemonic]

theorem Comparison.mnemonic_inj {o p : Comparison} : o.mnemonic = p.mnemonic ↔ o = p := by
  cases o <;> cases p <;> simp [Comparison.mnemonic]

/-- The fixed mnemonics in front of three operands. -/
def ternaryMnemonics : List String := ["arrg", "arrs", "callf"]

theorem ArithOp.mnemonic_not_mem (op : ArithOp) : op.mnemonic ∉ ternaryMnemonics := by
  cases op <;> decide

theorem Comparison.mnemonic_not_mem (test : Comparison) : test.mnemonic ∉ ternaryMnemonics := by
  cases test <;> decide

theorem ArithOp.mnemonic_ne (op : ArithOp) (test : Comparison) : op.mnemonic ≠ test.mnemonic := by
  cases op <;> cases test <;> decide

/-- **Instructions are told apart by their lines.** -/
theorem Instr.line_inj {i j : Instr} : i.line = j.line ↔ i = j := by
  refine ⟨fun h => ?_, congrArg Instr.line⟩
  -- lines of different lengths differ; among those with three operands the mnemonics decide
  have hop := ArithOp.mnemonic_not_mem
  have htest := Comparison.mnemonic_not_mem
  have hne := ArithOp.mnemonic_ne
  have hnat := @Text.nat_text_inj
  simp only [ternaryMnemonics, List.mem_cons, List.not_mem_nil, or_false, not_or] at hop htest
  cases i <;> cases j <;>
    simp [line, Line.ofLabel, Line.labelOp, Operand.text_inj, Target.text_inj, Label.text_inj,
      ArithOp.mnemonic_inj, Comparison.mnemonic_inj] at h
  all_goals grind

end CMinusMinus
