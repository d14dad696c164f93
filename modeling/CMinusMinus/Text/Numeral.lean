/-
  File:      CMinusMinus/Text/Numeral.lean
  Subject:   Reading a decimal integer.

  A numeral is a run of decimal digits of any script, with an optional sign in front, single
  underscores allowed between digits, and blanks allowed around the whole. At most `digitLimit`
  digits are read, leading zeros included. A run that is too long is refused as such even when
  junk follows it; a misplaced underscore makes the numeral malformed whatever its length.

  * `readInt` -- the reader;
  * `NumeralFault` -- the two refusals, with their wording.
-/
import CMinusMinus.Text.Digit
import CMinusMinus.Text.Quoted

namespace CMinusMinus.Text

/-- The most digits a numeral may have. -/
def digitLimit : Nat := 4300

/-- The blanks that may stand around a numeral. -/
def blankIntervals : List Interval :=
  [(0x9, 0xD), (0x20, 0x20), (0x85, 0x85), (0xA0, 0xA0), (0x1680, 0x1680), (0x2000, 0x200A),
   (0x2028, 0x2029), (0x202F, 0x202F), (0x205F, 0x205F), (0x3000, 0x3000)]

/-- The character may stand around a numeral. -/
def isBlank (c : Char) : Bool := covers blankIntervals c.toNat

/-- Why a text is no numeral. -/
inductive NumeralFault where
  /-- The text does not have the form of a numeral. -/
  | malformed (text : List Char)
  /-- The numeral has more than `digitLimit` digits. -/
  | tooLong (digits : Nat)
  deriving DecidableEq, Repr

/-- How much of a malformed numeral is shown. -/
def shownLimit : Nat := 200

/-- The wording of a refusal; a malformed text is shown quoted and cut. -/
def NumeralFault.message : NumeralFault → String
  | .malformed text =>
      "invalid literal for int() with base 10: " ++ String.ofList ((quote text).take shownLimit)
  | .tooLong digits =>
      s!"Exceeds the limit ({digitLimit} digits) for integer string conversion: value has " ++
        s!"{digits} digits; use sys.set_int_max_str_digits() to increase the limit"

/-- Every underscore stands between two digits. -/
def wellSeparated : List Char → Bool
  | [] => true
  | c :: rest => c != '_' && go rest
where
  /-- What may follow a digit. -/
  go : List Char → Bool
    | [] => true
    | c :: rest => if c = '_' then (match rest with | [] => false | d :: more => d != '_' && go more)
        else go rest

/-- The number that a list of decimal digits denotes. -/
def value (digits : List Nat) : Nat := digits.foldl (fun n d => 10 * n + d) 0

/-- A leading sign: whether it is a minus, and what follows it. -/
def splitSign : List Char → Bool × List Char
  | '-' :: rest => (true, rest)
  | '+' :: rest => (false, rest)
  | rest => (false, rest)

/-- Reads a decimal integer. -/
def readInt (text : List Char) : Except NumeralFault Int :=
  let (negative, body) := splitSign (text.dropWhile isBlank)
  let figure := fun c => (decimal? c).isSome || c == '_'
  let run := body.takeWhile figure
  let rest := body.dropWhile figure
  let digits := run.filterMap decimal?
  if !wellSeparated run then .error (.malformed text)
  else if digitLimit < digits.length then .error (.tooLong digits.length)
  else if digits.isEmpty || !rest.all isBlank then .error (.malformed text)
  else .ok (if negative then -(value digits : Int) else value digits)

example : readInt " -1_0 ".toList = .ok (-10) := rfl
example : readInt "1__0".toList = .error (.malformed "1__0".toList) := rfl

end CMinusMinus.Text
