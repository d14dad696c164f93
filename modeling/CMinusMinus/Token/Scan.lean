/-
  File:      CMinusMinus/Token/Scan.lean
  Subject:   Tokens, errors and warnings of a source text.

  Each piece of a text contributes at most one token, one error or warning, or a fault that ends
  the scan: a run of digits that denotes no number. The token list of a scan ends with the end of
  input at the position after the text.
-/
import CMinusMinus.Token.Piece

namespace CMinusMinus

/-- What can be wrong with a piece of source text. -/
inductive LexicalProblem where
  | unterminatedComment
  | unterminatedString
  | badEscape
  | illegalCharacter (c : Char)
  | integerTooLarge
  deriving DecidableEq, Repr

/-- The wording of a lexical problem. -/
def LexicalProblem.message : LexicalProblem → String
  | .unterminatedComment => "unterminated comment"
  | .unterminatedString => "ignoring unterminated string literal"
  | .badEscape => "ignoring string literal with bad escaped character"
  | .illegalCharacter c => s!"ignoring illegal character: {c}"
  | .integerTooLarge => "integer literal too large; using max value"

/-- A lexical problem at a position. -/
structure LexicalIssue where
  problem : LexicalProblem
  pos : Position
  deriving DecidableEq, Repr

namespace Piece

/-- The token that a piece is. A number beyond the greatest integer stands for that integer. -/
def token? (p : Piece) : Option Token :=
  match p.kind with
  | .token kind => some ⟨kind, String.ofList p.text, p.pos⟩
  | .largeNumber => some ⟨.number, toString largestInt, p.pos⟩
  | _ => none

/-- The error that a piece causes. -/
def error? (p : Piece) : Option LexicalIssue :=
  match p.kind with
  | .openComment => some ⟨.unterminatedComment, p.pos⟩
  | .openString => some ⟨.unterminatedString, p.pos⟩
  | .badString => some ⟨.badEscape, p.pos⟩
  | .illegal c => some ⟨.illegalCharacter c, p.pos⟩
  | _ => none

/-- The warning that a piece causes. -/
def warning? (p : Piece) : Option LexicalIssue :=
  match p.kind with
  | .largeNumber => some ⟨.integerTooLarge, p.pos⟩
  | _ => none

/-- The fault of digits that denote no number. -/
def fault? (p : Piece) : Option Text.NumeralFault :=
  match p.kind with
  | .noNumber fault => some fault
  | _ => none

end Piece

/-- The outcome of lexing a whole text. -/
structure Scan where
  tokens : List Token
  errors : List LexicalIssue
  warnings : List LexicalIssue
  deriving DecidableEq, Repr

/-- The outcome of lexing a text whose pieces are given, the end of input standing at `stop`. -/
def Scan.ofPieces (ps : List Piece) (stop : Position) : Scan where
  tokens := ps.filterMap Piece.token? ++ [⟨.eof, "", stop⟩]
  errors := ps.filterMap Piece.error?
  warnings := ps.filterMap Piece.warning?

/-- Lexes a text: its tokens, errors and warnings, or the first fault in it. -/
def scan (source : List Char) : Except Text.NumeralFault Scan :=
  let ps := pieces .start source
  match ps.findSome? Piece.fault? with
  | some fault => .error fault
  | none => .ok (Scan.ofPieces ps (Position.start.past source))

end CMinusMinus
