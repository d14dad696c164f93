/-
  File:      CMinusMinus/Text/Quoted.lean
  Subject:   Quoted text: how a piece of text is shown inside a message.

  The text stands between two apostrophes, or between two quotation marks when it holds an
  apostrophe and no quotation mark. A backslash and the delimiter are escaped by a backslash;
  line feed, carriage return and tab by their letters; every other character that is not
  printable by its code point in hexadecimal, two, four or eight digits wide.
-/
import CMinusMinus.Text.Printable

namespace CMinusMinus.Text

/-- The delimiter of texts that do not call for the other one. -/
def apostrophe : Char := '\x27'

/-- The other delimiter. -/
def quotationMark : Char := '\x22'

/-- The delimiter in use for a text. -/
def delimiter (s : List Char) : Char :=
  if s.contains apostrophe && !s.contains quotationMark then quotationMark else apostrophe

/-- The hexadecimal digits of `n`, zeros in front up to the width. -/
def hex (width n : Nat) : List Char :=
  let digits := Nat.toDigits 16 n
  List.replicate (width - digits.length) '0' ++ digits

/-- The code point of an unprintable character, after a letter that tells its width. -/
def codePoint (c : Char) : List Char :=
  if c.toNat < 0x100 then 'x' :: hex 2 c.toNat
  else if c.toNat < 0x10000 then 'u' :: hex 4 c.toNat
  else 'U' :: hex 8 c.toNat

/-- One character between delimiters `d`. -/
def escaped (d c : Char) : List Char :=
  if c = d ∨ c = '\\' then ['\\', c]
  else if c = '\n' then ['\\', 'n']
  else if c = '\r' then ['\\', 'r']
  else if c = '\t' then ['\\', 't']
  else if isPrintable c then [c]
  else '\\' :: codePoint c

/-- A text between its delimiters. -/
def quote (s : List Char) : List Char :=
  delimiter s :: s.flatMap (escaped (delimiter s)) ++ [delimiter s]

/-- A text between its delimiters. -/
def quoted (s : String) : String := String.ofList (quote s.toList)

end CMinusMinus.Text
