/-
  File:      CMinusMinus/Token/Scanner.lean
  Subject:   A scanner that is driven by hand.

  `scan` lexes a text from its start. A scanner stands anywhere in a text, between the characters
  behind it and those ahead, and reads on from there one construct at a time, whether or not that
  construct begins at this place. It collects the errors and warnings it meets.
-/
import CMinusMinus.Token.Scan

namespace CMinusMinus

/-! ## 1. The place in the text -/

/-- Why a place is in no text. -/
inductive PlaceFault where
  /-- It lies before the start of the text, even when counted from the end. -/
  | outside
  /-- It lies before the lowest place that any text can be asked for. -/
  | unrepresentable
  deriving DecidableEq, Repr

/-- The wording of a place fault. -/
def PlaceFault.message : PlaceFault → String
  | .outside => "string index out of range"
  | .unrepresentable => "cannot fit 'int' into an index-sized integer"

/-- The lowest place that any text can be asked for: places are signed words of 64 bits. -/
def lowestPlace : Int := -9223372036854775808

/-- A place in a text: the characters behind it (nearest first), those ahead, its position. -/
structure Cursor where
  behind : List Char
  ahead : List Char
  pos : Position
  deriving DecidableEq, Repr

namespace Cursor

/-- The start of a text. -/
def ofText (source : List Char) : Cursor := ⟨[], source, .start⟩

/-- How many characters are behind. -/
def offset (c : Cursor) : Nat := c.behind.length

/-- The whole text. -/
def source (c : Cursor) : List Char := c.behind.reverse ++ c.ahead

/-- Moves over `n` characters, or to the end. -/
def move (c : Cursor) (n : Nat) : Cursor :=
  ⟨(c.ahead.take n).reverse ++ c.behind, c.ahead.drop n, c.pos.past (c.ahead.take n)⟩

/-- The character `k` places on from here, if the text goes that far. A place before the start of
    the text counts from its end. -/
def peek (c : Cursor) (k : Int) : Except PlaceFault (Option Char) :=
  let size : Int := c.source.length
  let place := c.offset + k
  if size ≤ place then .ok none
  else if 0 ≤ place then .ok c.source[place.toNat]?
  else if 0 ≤ place + size then .ok c.source[(place + size).toNat]?
  else if lowestPlace ≤ place then .error .outside
  else .error .unrepresentable

end Cursor

/-! ## 2. The scanner -/

/-- A scanner: where it stands, and what it has complained about. -/
structure Scanner where
  cursor : Cursor
  errors : List LexicalIssue := []
  warnings : List LexicalIssue := []
  deriving DecidableEq, Repr

namespace Scanner

/-- A scanner at the start of a text. -/
def ofText (source : List Char) : Scanner := { cursor := .ofText source }

/-- The scanner after `n` characters. -/
def move (s : Scanner) (n : Nat) : Scanner := { s with cursor := s.cursor.move n }

/-- The scanner after one more error. -/
def withError (s : Scanner) (problem : LexicalProblem) (pos : Position) : Scanner :=
  { s with errors := s.errors ++ [⟨problem, pos⟩] }

/-- The next character. -/
def current? (s : Scanner) : Option Char := s.cursor.ahead.head?

/-- Takes the next character. -/
def advance (s : Scanner) : Option Char × Scanner := (s.current?, s.move 1)

/-- Moves over characters of a class. -/
def skipWhile (s : Scanner) (p : Char → Bool) : Scanner :=
  s.move (s.cursor.ahead.takeWhile p).length

/-- Moves over blanks. -/
def skipBlanks (s : Scanner) : Scanner := s.skipWhile isGap

/-- Moves to the end of the line. -/
def skipLine (s : Scanner) : Scanner := s.skipWhile (· != '\n')

/-- Moves over two characters and on to the end of a block comment. -/
def skipBlockComment (s : Scanner) : Scanner :=
  let t := commentTail (s.cursor.ahead.drop 2)
  let after := (s.move 2).move t.1
  if t.2 then after else after.withError .unterminatedComment s.cursor.pos

/-- Reads a string literal whose opening mark is the next character. A literal that is cut short
    or has an unknown escape is an error at `pos` and has no text. -/
def readString (s : Scanner) (pos : Position) : Option (List Char) × Scanner :=
  match s.cursor.ahead with
  | [] => (none, s.withError .unterminatedString pos)
  | c :: rest =>
      let t := stringTail rest
      let after := s.move (t.size + 1)
      match t.shape.kind with
      | .openString => (none, after.withError .unterminatedString pos)
      | .badString => (none, after.withError .badEscape pos)
      | _ => (some (c :: rest.take t.size), after)

/-- Reads a run of digits, which may be empty or denote no number. A number beyond the greatest
    integer is a warning at `pos` and reads as that integer. -/
def readNumber (s : Scanner) (pos : Position) : Except Text.NumeralFault (List Char) × Scanner :=
  let run := s.cursor.ahead.takeWhile Text.isDigit
  let after := s.move run.length
  match numberKind run with
  | .noNumber fault => (.error fault, after)
  | .largeNumber =>
      (.ok (toString largestInt).toList,
        { after with warnings := after.warnings ++ [⟨.integerTooLarge, pos⟩] })
  | _ => (.ok run, after)

/-- Reads a run of word characters, which may be empty. -/
def readWord (s : Scanner) : List Char × Scanner :=
  let run := s.cursor.ahead.takeWhile Text.continuesWord
  (run, s.move run.length)

/-- The pieces up to the first one with a fault, that one included. -/
def throughFault : List Piece → List Piece
  | [] => []
  | p :: ps => if p.fault?.isSome then [p] else p :: throughFault ps

/-- Forgets all earlier complaints and lexes the rest of the text. After a fault the scanner
    stands behind the piece that caused it. -/
def tokenize (s : Scanner) : Except Text.NumeralFault (List Token) × Scanner :=
  let ps := throughFault (pieces s.cursor.pos s.cursor.ahead)
  let cursor := s.cursor.move (ps.flatMap Piece.text).length
  let result := Scan.ofPieces ps cursor.pos
  let after : Scanner := ⟨cursor, result.errors, result.warnings⟩
  match ps.findSome? Piece.fault? with
  | some fault => (.error fault, after)
  | none => (.ok result.tokens, after)

end Scanner

end CMinusMinus
