/-
  File:      CMinusMinus/Position.lean
  Subject:   Positions in a source text: line and column.

  A source starts at line 1, column 1. A line feed ends a line; every other character moves one
  column on. The numbers are integers because positions also come from outside (trees and tokens
  that no text was read for) and are only shown there.
-/

namespace CMinusMinus

/-- A line and a column. -/
structure Position where
  line : Int := 0
  column : Int := 0
  deriving DecidableEq, Repr, Inhabited

namespace Position

/-- Where every source text starts. -/
def start : Position := ⟨1, 1⟩

/-- The position after one character. -/
def step (p : Position) (c : Char) : Position :=
  if c = '\n' then ⟨p.line + 1, 1⟩ else ⟨p.line, p.column + 1⟩

/-- The position after a piece of text. -/
def past (p : Position) (text : List Char) : Position := text.foldl step p

/-- `line:column`. -/
def text (p : Position) : String := s!"{p.line}:{p.column}"

@[simp] theorem past_nil (p : Position) : p.past [] = p := rfl

@[simp] theorem past_cons (p : Position) (c : Char) (text : List Char) :
    p.past (c :: text) = (p.step c).past text := rfl

/-- Two pieces one after the other move as their concatenation does. -/
theorem past_append (p : Position) (a b : List Char) : p.past (a ++ b) = (p.past a).past b := by
  simp [past, List.foldl_append]

end Position

end CMinusMinus
