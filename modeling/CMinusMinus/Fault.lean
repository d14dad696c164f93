/-
  File:      CMinusMinus/Fault.lean
  Subject:   What ends the work of the compiler without a result.

  A defect of the program is told to its user, and the work goes on. A fault is another matter:
  digits or bytes that denote nothing, a path that cannot exist, or a tree built by hand whose
  nodes are not what their places ask for.
-/
import CMinusMinus.Defect
import CMinusMinus.Text.Numeral
import CMinusMinus.Text.Utf8

namespace CMinusMinus

/-- What a node of a tree is expected to be. -/
inductive Role where
  | declaration
  | statement
  | expression
  deriving DecidableEq, Repr

/-- The name of a role. -/
def Role.name : Role → String
  | .declaration => "declaration"
  | .statement => "statement"
  | .expression => "expression"

/-- A part that a node is expected to have. -/
inductive Part where
  | name
  | type
  | decls
  | stmts
  deriving DecidableEq, Repr

/-- The word for a part. -/
def Part.word : Part → String
  | .name => "name"
  | .type => "type"
  | .decls => "decls"
  | .stmts => "stmts"

/-- What ends the work. -/
inductive Fault where
  /-- Digits that denote no number. -/
  | numeral (fault : Text.NumeralFault)
  /-- Bytes that are no text. -/
  | encoding (fault : Text.Utf8Fault)
  /-- A path with a zero character. -/
  | zeroInPath
  /-- A node of a kind that its place does not admit. -/
  | misplaced (role : Role) (kind : String)
  /-- A node of a kind that lacks a part which its place asks for. -/
  | noPart (kind : String) (part : Part)
  | unknownUnary (text : String)
  | unknownBinary (text : String)
  /-- A binary operator that no instruction computes. -/
  | noInstruction (text : String)
  /-- A defect met where a checked program was expected. -/
  | defect (d : Defect)
  deriving DecidableEq, Repr

/-- The wording of a fault. -/
def Fault.message : Fault → String
  | .numeral fault => fault.message
  | .encoding fault => fault.message
  | .zeroInPath => "embedded null byte"
  | .misplaced role kind => s!"unhandled {role.name} {kind}"
  | .noPart kind part => s!"'{kind}' object has no attribute '{part.word}'"
  | .unknownUnary text => s!"unhandled unary operator {Text.quoted text}"
  | .unknownBinary text => s!"unhandled binary operator {Text.quoted text}"
  | .noInstruction text => Text.quoted text
  | .defect d => d.message

end CMinusMinus
