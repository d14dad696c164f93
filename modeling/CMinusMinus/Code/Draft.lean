/-
  File:      CMinusMinus/Code/Draft.lean
  Subject:   Lines of code written by hand.

  A draft is a mnemonic and any operands, texts or bare numbers. Unlike the lines of a compiled
  program it may turn out to have no text: a label definition needs a label, and operands are
  joined only if all of them are texts.
-/
import CMinusMinus.Code.Line

namespace CMinusMinus

/-- An operand of a draft. -/
inductive DraftOperand where
  | text (s : String)
  | number (n : Int)
  deriving DecidableEq, Repr

/-- The operand as it is shown on its own. -/
def DraftOperand.shown : DraftOperand → String
  | .text s => s
  | .number n => toString n

/-- The text of an operand that is one. -/
def DraftOperand.text? : DraftOperand → Option String
  | .text s => some s
  | .number _ => none

/-- Why a draft has no text. -/
inductive DraftFault where
  /-- A label definition without a label. -/
  | noLabel
  /-- A bare number is among the operands, first at the place. -/
  | bareNumber (place : Nat)
  deriving DecidableEq, Repr

/-- The wording of a draft's fault. -/
def DraftFault.message : DraftFault → String
  | .noLabel => "list index out of range"
  | .bareNumber place => s!"sequence item {place}: expected str instance, int found"

/-- A mnemonic and its operands. -/
structure Draft where
  op : String
  operands : List DraftOperand := []
  deriving DecidableEq, Repr

namespace Draft

/-- The text of a draft, without its line feed. -/
def text (d : Draft) : Except DraftFault String :=
  if d.op = Line.labelOp then
    match d.operands with
    | label :: _ => .ok (Line.ofLabel label.shown).text
    | [] => .error .noLabel
  else match d.operands.findIdx? (·.text?.isNone) with
    | some place => .error (.bareNumber place)
    | none => .ok (Line.mk d.op (d.operands.filterMap DraftOperand.text?)).text

/-- The draft uses the label as an operand. -/
def uses (d : Draft) (label : String) : Bool :=
  d.op != Line.labelOp && d.operands.contains (.text label)

/-- The texts of drafts one after the other, or the first fault among them. -/
def textAll : List Draft → Except DraftFault String
  | [] => .ok ""
  | d :: ds =>
      match d.text with
      | .error f => .error f
      | .ok line => (textAll ds).map (line ++ "\n" ++ ·)

end Draft

end CMinusMinus
