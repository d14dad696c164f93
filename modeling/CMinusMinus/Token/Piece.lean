/-
  File:      CMinusMinus/Token/Piece.lean
  Subject:   A source text as a sequence of pieces.

  Lexing cuts a source text into consecutive non-empty pieces: runs of blanks, comments, tokens,
  rejected string literals, illegal characters and runs of digits that denote no number. Nothing
  is lost, and each piece knows its position. Tokens, errors and warnings are read off the pieces
  (`Scan.lean`).

  * `Shape.at` -- what stands at the head of a text, and how many characters it occupies after
    its first one;
  * `pieces` -- the whole text, piece by piece;
  * `pieces_text` -- the pieces' texts give the source back.
-/
import CMinusMinus.Text.Numeral
import CMinusMinus.Text.Numeric
import CMinusMinus.Token

namespace CMinusMinus

/-! ## 1. What a piece can be -/

/-- What a piece of source text is. -/
inductive PieceKind where
  | blank
  | comment
  /-- A block comment that no `*/` ends. -/
  | openComment
  | token (kind : TokenKind)
  /-- A number beyond the greatest integer. -/
  | largeNumber
  /-- A string literal that its line does not close. -/
  | openString
  /-- A closed string literal with an unknown escape. -/
  | badString
  | illegal (c : Char)
  /-- Digits that denote no number. -/
  | noNumber (fault : Text.NumeralFault)
  deriving DecidableEq, Repr

/-- What stands at the head of a text: its kind, and its length after the first character. -/
structure Shape where
  kind : PieceKind
  tail : Nat
  deriving DecidableEq, Repr

/-! ## 2. Recognising a piece by its head -/

/-- The characters between tokens: space, tab, carriage return, line feed, form feed. -/
def isGap (c : Char) : Bool :=
  c == ' ' || c == '\t' || c == '\r' || c == '\n' || c == '\x0c'

/-- The keywords. -/
def keywords : List String :=
  ["int", "bool", "string", "void", "if", "else", "while", "for", "return"]

/-- The greatest integer that a literal denotes. -/
def largestInt : Nat := 2147483647

/-- The tokens of one character that begin no longer token. -/
def singleKind? : Char → Option TokenKind
  | '+' => some .plus
  | '-' => some .minus
  | '*' => some .star
  | '/' => some .slash
  | '%' => some .percent
  | '(' => some .lparen
  | ')' => some .rparen
  | '\x7b' => some .lbrace
  | '\x7d' => some .rbrace
  | '[' => some .lbracket
  | ']' => some .rbracket
  | ';' => some .semicolon
  | ',' => some .comma
  | _ => none

/-- The tokens of two characters by their first one: the second character, the kind of the pair,
    and the kind of the first character alone, if it is a token. -/
def pairedKind? : Char → Option (Char × TokenKind × Option TokenKind)
  | '=' => some ('=', .eq, some .assign)
  | '!' => some ('=', .neq, some .bang)
  | '<' => some ('=', .lte, some .lt)
  | '>' => some ('=', .gte, some .gt)
  | '&' => some ('&', .land, some .ampersand)
  | '|' => some ('|', .lor, none)
  | _ => none

/-- The characters that a backslash may stand before in a string literal. -/
def isEscape (c : Char) : Bool :=
  c == 'n' || c == 't' || c == '\x22' || c == '\\' || c == '\x27'

/-- How a string literal goes on after its opening quotation mark. -/
structure StringTail where
  /-- The characters it occupies there, up to the closing mark or to what cuts it short. -/
  size : Nat
  /-- A quotation mark closes it. -/
  closed : Bool
  /-- All its escapes are known. -/
  clean : Bool
  deriving DecidableEq, Repr

/-- Reads a string literal from the character after its opening mark. A line feed or the end of
    the text cuts it short; a backslash takes the next character with it. -/
def stringTail : List Char → StringTail
  | [] => ⟨0, false, true⟩
  | '\n' :: _ => ⟨0, false, true⟩
  | '\x22' :: _ => ⟨1, true, true⟩
  | ['\\'] => ⟨1, false, true⟩
  | '\\' :: '\n' :: _ => ⟨1, false, true⟩
  | '\\' :: e :: rest =>
      let t := stringTail rest
      ⟨t.size + 2, t.closed, isEscape e && t.clean⟩
  | _ :: rest =>
      let t := stringTail rest
      ⟨t.size + 1, t.closed, t.clean⟩

/-- Reads a block comment from the character after `/*`: its length there, and whether it ends. -/
def commentTail : List Char → Nat × Bool
  | [] => (0, false)
  | '*' :: '/' :: _ => (2, true)
  | _ :: rest =>
      let t := commentTail rest
      (t.1 + 1, t.2)

/-- The shape of a string literal, by how it goes on. -/
def StringTail.shape (t : StringTail) : Shape :=
  ⟨if !t.closed then .openString else if t.clean then .token .string else .badString, t.size⟩

/-- The kind of a run of digits. -/
def numberKind (run : List Char) : PieceKind :=
  match Text.readInt run with
  | .ok n => if (largestInt : Int) < n then .largeNumber else .token .number
  | .error fault => .noNumber fault

/-- The kind of a word. -/
def wordKind (word : List Char) : TokenKind :=
  if keywords.contains (String.ofList word) then .keyword else .identifier

/-- The shape of an operator or of a character that begins no token. -/
def signShape (c : Char) (rest : List Char) : Shape :=
  match pairedKind? c with
  | some (second, pair, single?) =>
      if rest.head? = some second then ⟨.token pair, 1⟩
      else match single? with
        | some single => ⟨.token single, 0⟩
        | none => ⟨.illegal c, 0⟩
  | none =>
      match singleKind? c with
      | some single => ⟨.token single, 0⟩
      | none => ⟨.illegal c, 0⟩

/-- What stands at the head of the text `c :: rest`. -/
def Shape.at (c : Char) (rest : List Char) : Shape :=
  if isGap c then ⟨.blank, (rest.takeWhile isGap).length⟩
  else if c = '#' ∨ (c = '/' ∧ rest.head? = some '/') then
    ⟨.comment, (rest.takeWhile (· != '\n')).length⟩
  else if c = '/' ∧ rest.head? = some '*' then
    let t := commentTail (rest.drop 1)
    ⟨if t.2 then .comment else .openComment, t.1 + 1⟩
  else if c = '\x22' then (stringTail rest).shape
  else if Text.isDigit c then
    let more := rest.takeWhile Text.isDigit
    ⟨numberKind (c :: more), more.length⟩
  else if Text.startsWord c then
    let more := rest.takeWhile Text.continuesWord
    ⟨.token (wordKind (c :: more)), more.length⟩
  else signShape c rest

/-! ## 3. The whole text -/

/-- A piece of source text with its position. -/
structure Piece where
  kind : PieceKind
  text : List Char
  pos : Position
  deriving DecidableEq, Repr

/-- The pieces of a text that starts at a position. -/
def pieces (pos : Position) (source : List Char) : List Piece :=
  match source with
  | [] => []
  | c :: rest =>
      let shape := Shape.at c rest
      let text := c :: rest.take shape.tail
      ⟨shape.kind, text, pos⟩ :: pieces (pos.past text) (rest.drop shape.tail)
termination_by source.length
decreasing_by simp only [List.length_drop, List.length_cons]; omega

/-- The pieces' texts, one after the other, are the source. -/
theorem pieces_text (pos : Position) (source : List Char) :
    (pieces pos source).flatMap Piece.text = source := by
  fun_induction pieces pos source with
  | case1 => rfl
  | case2 pos c rest shape text ih =>
    simp only [List.flatMap_cons, ih, text, List.cons_append, List.take_append_drop]

end CMinusMinus
