/-
  File:      CMinusMinus/Code/Line.lean
  Subject:   A line of code as text.

  A line is a mnemonic and its operands. It is written as the mnemonic, a space and the operands
  with commas between them; a label definition is written as the label and a colon.
-/
import CMinusMinus.Journal

namespace CMinusMinus

/-- A mnemonic and the texts of its operands. -/
structure Line where
  op : String
  args : List String := []
  deriving DecidableEq, Repr

namespace Line

/-- The mnemonic of a label definition. -/
def labelOp : String := "label"

/-- The definition of a label. -/
def ofLabel (label : String) : Line := ⟨labelOp, [label]⟩

/-- The text of a line, without its line feed. -/
def text (line : Line) : String :=
  if line.op = labelOp then line.args.headD "" ++ ":"
  else if line.args.isEmpty then line.op
  else line.op ++ " " ++ String.intercalate ", " line.args

/-- The line uses the label as an operand; a definition uses none. -/
def uses (line : Line) (label : String) : Bool := line.op != labelOp && line.args.contains label

end Line

/-- The text of a program's code. -/
def codeText (lines : List Line) : String := unlines (lines.map Line.text)

end CMinusMinus
