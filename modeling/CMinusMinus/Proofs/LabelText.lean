/-
  File:      CMinusMinus/Proofs/LabelText.lean
  Subject:   A label is looked for by its text, and found only as a target.

  Whether code uses a label is decided on the texts of operands. That is sound because the text of a
  label begins with a tilde, which nothing else does that stands inside a function: not numbers, not
  addresses, and not the code labels of functions, which begin like a name.

  * `Instr.target?` -- where an instruction jumps to;
  * `Instr.Inner` -- what may stand inside a function;
  * `Instr.uses_iff` -- such an instruction uses a label exactly if it jumps to it.
-/
import CMinusMinus.Code.Instr
import CMinusMinus.Proofs.Numerals
import CMinusMinus.Proofs.Spelling
import CMinusMinus.Ty

namespace CMinusMinus

/-! ## 1. Texts that begin with a tilde -/

/-- The text begins with a tilde. -/
def StartsTilde (text : String) : Prop := text.toList.head? = some '~'

theorem Label.text_eq (l : Label) : l.text = "~" ++ Nat.repr l.number := rfl

theorem Label.startsTilde (l : Label) : StartsTilde l.text := by
  unfold StartsTilde
  rw [Label.text_eq, String.toList_append]
  rfl

/-- Labels are told apart by their texts. -/
theorem Label.text_inj {l m : Label} : l.text = m.text ↔ l = m := by
  refine ⟨fun h => ?_, fun h => congrArg Label.text h⟩
  have hlist := congrArg String.toList h
  rw [Label.text_eq, Label.text_eq, String.toList_append, String.toList_append] at hlist
  have hdigits := String.toList_inj.mp (List.append_cancel_left hlist)
  cases l
  cases m
  exact congrArg Label.mk (Text.nat_text_inj.mp hdigits)

theorem not_startsTilde_of_not_mem {text : String} (h : '~' ∉ text.toList) : ¬ StartsTilde text :=
  fun hstarts => h (List.mem_of_head? hstarts)

theorem not_startsTilde_nat (n : Nat) : ¬ StartsTilde (Nat.repr n) :=
  not_startsTilde_of_not_mem ((Text.isDecimal_nat n).not_mem (by decide))

theorem not_startsTilde_empty : ¬ StartsTilde "" := by simp [StartsTilde]

theorem Address.toList_text (a : Address) :
    a.text.toList = a.space.sign :: (toString a.slot).toList := by
  rw [Address.text, String.toList_append, String.toList_singleton]
  rfl

theorem not_startsTilde_operand (v : Operand) : ¬ StartsTilde v.text := by
  cases v with
  | absent => exact not_startsTilde_empty
  | literal n =>
    exact not_startsTilde_of_not_mem ((Text.isDecimal_int n).not_mem (by decide))
  | address a =>
    intro h
    have hhead : (Operand.text (.address a)).toList.head? = some a.space.sign := by
      rw [Operand.text, Address.toList_text]
      rfl
    have hsign : a.space.sign = '~' := Option.some.inj (hhead.symm.trans h)
    cases hspace : a.space <;> rw [hspace] at hsign <;> exact absurd hsign (by decide)

/-- A text as code labels of functions are: it is not empty and begins with no tilde. -/
structure IsCodeLabel (text : String) : Prop where
  nonempty : text ≠ ""
  no_tilde : ¬ StartsTilde text

/-- The code label of a function begins like its name. -/
theorem isCodeLabel_codeLabel {name : String} (h : IsName name) (params : List Ty) :
    IsCodeLabel (codeLabel name params) := by
  obtain ⟨c, rest, hname, hstart, -⟩ := h.word
  have hc : c ≠ '~' := by
    intro hc
    rw [hc] at hstart
    exact absurd hstart (by decide +kernel)
  have hhead : (codeLabel name params).toList.head? = some c := by
    unfold codeLabel
    cases params.map Ty.name with
    | nil => simp [hname]
    | cons ty tys =>
      rw [String.intercalate_cons_cons, String.toList_append, String.toList_append, hname]
      rfl
  constructor
  · intro hempty
    rw [hempty] at hhead
    cases hhead
  · unfold StartsTilde
    rw [hhead]
    exact fun h => hc (Option.some.inj h)

/-! ## 2. Uses and targets -/

/-- Where an instruction jumps to, if it is a jump. -/
def Instr.target? : Instr → Option Target
  | .jump target | .branch _ _ _ target => some target
  | _ => none

/-- What may stand inside a function: no part of its frame, and code labels of functions. -/
def Instr.Inner : Instr → Prop
  | .string _ | .entry _ _ | .func _ | .frame _ _ | .endFunc _ => False
  | .call name _ | .callValue _ name _ | .ret name | .retValue name _ => IsCodeLabel name
  | _ => True

/-- A line uses no label if none of its texts begins with a tilde. -/
theorem Line.uses_eq_false {op : String} {texts : List String}
    (h : ∀ t ∈ texts, ¬ StartsTilde t) (l : Label) : (Line.mk op texts).uses l.text = false := by
  have hl : texts.contains l.text = false := by
    rw [List.contains_eq_mem, decide_eq_false_iff_not]
    exact fun hmem => h _ hmem l.startsTilde
  unfold Line.uses
  rw [hl, Bool.and_false]

theorem Target.text_eq_iff (t : Target) (l : Label) : t.text = l.text ↔ t = some l := by
  cases t with
  | some m => exact Label.text_inj.trans Option.some_inj.symm
  | none =>
    constructor
    · intro h
      have hl := l.startsTilde
      rw [← h] at hl
      exact absurd hl not_startsTilde_empty
    · intro h
      cases h

/-- **Inside a function, an instruction uses a label exactly if it jumps to it.** -/
theorem Instr.uses_iff {i : Instr} (hi : i.Inner) (l : Label) :
    i.uses l = true ↔ i.target? = some (some l) := by
  have hnone : ∀ {op : String} {texts : List String}, (∀ t ∈ texts, ¬ StartsTilde t) →
      ((Line.mk op texts).uses l.text = true ↔ (none : Option Target) = some (some l)) := by
    intro op texts h
    rw [Line.uses_eq_false h]
    simp
  have hv := not_startsTilde_operand
  have hn := not_startsTilde_nat
  cases i with
  | string _ => exact hi.elim
  | entry _ _ => exact hi.elim
  | func _ => exact hi.elim
  | frame _ _ => exact hi.elim
  | endFunc _ => exact hi.elim
  | label m => simp [uses, line, Line.uses, Line.ofLabel, target?]
  | move dest source => exact hnone (by simp [hv])
  | arith op dest left right => exact hnone (by simp [hv])
  | load dest base index => exact hnone (by simp [hv])
  | store base index source => exact hnone (by simp [hv])
  | arg value place => exact hnone (by simp [hv]; exact hn place)
  | call name args => exact hnone (by simp; exact ⟨hi.no_tilde, hn args⟩)
  | callValue dest name args => exact hnone (by simp [hv]; exact ⟨hi.no_tilde, hn args⟩)
  | ret name => exact hnone (by simp; exact hi.no_tilde)
  | retValue name value => exact hnone (by simp [hv]; exact hi.no_tilde)
  | read dest => exact hnone (by simp [hv])
  | write value => exact hnone (by simp [hv])
  | jump target =>
    rw [target?, Option.some_inj, ← target.text_eq_iff l]
    simp [uses, line, Line.uses, Line.labelOp, eq_comm]
  | branch test left right target =>
    have hop : test.mnemonic ≠ Line.labelOp := by cases test <;> decide
    have hl : ∀ v : Operand, l.text ≠ v.text := by
      intro v h
      exact hv v (h ▸ l.startsTilde)
    rw [target?, Option.some_inj, ← target.text_eq_iff l]
    simp only [uses, line, Line.uses, List.contains_eq_mem, List.mem_cons, hl, false_or,
      List.not_mem_nil, or_false, bne_iff_ne.mpr hop, Bool.true_and, decide_eq_true_eq]
    exact eq_comm

end CMinusMinus
