/-
  File:      CMinusMinus/Token.lean
  Subject:   Tokens of C--.

  A token is a kind, the text it stands for and the position of its first character. The text of
  a string literal keeps its quotation marks and escapes; the text of the end of input is empty.
-/
import CMinusMinus.Position
import CMinusMinus.Text.Quoted

namespace CMinusMinus

/-- The kinds of tokens. -/
inductive TokenKind where
  | number | string | identifier | keyword
  | plus | minus | star | slash | percent
  | assign | eq | neq | lt | gt | lte | gte
  | ampersand | land | lor | bang
  | lparen | rparen | lbrace | rbrace | lbracket | rbracket | semicolon | comma
  | eof
  deriving DecidableEq, Repr

namespace TokenKind

/-- All kinds. -/
def all : List TokenKind :=
  [.number, .string, .identifier, .keyword, .plus, .minus, .star, .slash, .percent, .assign, .eq,
   .neq, .lt, .gt, .lte, .gte, .ampersand, .land, .lor, .bang, .lparen, .rparen, .lbrace, .rbrace,
   .lbracket, .rbracket, .semicolon, .comma, .eof]

/-- The name of a kind. -/
def name : TokenKind → String
  | .number => "NUMBER" | .string => "STRING" | .identifier => "IDENTIFIER"
  | .keyword => "KEYWORD" | .plus => "PLUS" | .minus => "MINUS" | .star => "STAR"
  | .slash => "SLASH" | .percent => "PERCENT" | .assign => "ASSIGN" | .eq => "EQ"
  | .neq => "NEQ" | .lt => "LT" | .gt => "GT" | .lte => "LTE" | .gte => "GTE"
  | .ampersand => "AMPERSAND" | .land => "LAND" | .lor => "LOR" | .bang => "BANG"
  | .lparen => "LPAREN" | .rparen => "RPAREN" | .lbrace => "LBRACE" | .rbrace => "RBRACE"
  | .lbracket => "LBRACKET" | .rbracket => "RBRACKET" | .semicolon => "SEMICOLON"
  | .comma => "COMMA" | .eof => "EOF"

/-- The kind of a name. -/
def ofName? (name : String) : Option TokenKind := all.find? fun k => k.name == name

/-- Every kind is listed. -/
theorem mem_all (k : TokenKind) : k ∈ all := by cases k <;> decide

end TokenKind

/-- A token. -/
structure Token where
  kind : TokenKind
  text : String
  pos : Position
  deriving DecidableEq, Repr

/-- A token spelled out with its kind, its quoted text and its position. -/
def Token.describe (t : Token) : String :=
  s!"Token({t.kind.name}, {Text.quoted t.text}, {t.pos.text})"

end CMinusMinus
