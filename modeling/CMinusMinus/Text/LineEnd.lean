/-
  File:      CMinusMinus/Text/LineEnd.lean
  Subject:   One line end for all files.

  A line of a source file may end in a line feed, a carriage return, or both in the order
  carriage return, line feed. Each of the three is read as one line feed.
-/

namespace CMinusMinus.Text

/-- Every line end becomes a line feed. -/
def normaliseLineEnds : List Char → List Char
  | [] => []
  | '\r' :: '\n' :: rest => '\n' :: normaliseLineEnds rest
  | '\r' :: rest => '\n' :: normaliseLineEnds rest
  | c :: rest => c :: normaliseLineEnds rest

end CMinusMinus.Text
