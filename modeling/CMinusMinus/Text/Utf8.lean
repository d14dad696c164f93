/-
  File:      CMinusMinus/Text/Utf8.lean
  Subject:   Strict decoding of UTF-8.

  Bytes are decoded as a whole or refused at the first ill-formed sequence. A refusal tells the
  offset and the bytes of the longest prefix of that sequence that a well-formed one could have,
  and what is wrong with it: a byte that starts nothing, a byte that does not continue, or the
  end of the data.
-/

namespace CMinusMinus.Text

/-- What is wrong with an ill-formed sequence. -/
inductive Utf8Reason where
  | badStart
  | badContinuation
  | cutShort
  deriving DecidableEq, Repr

/-- An ill-formed sequence: its offset, its bytes up to the fault, and the fault. -/
structure Utf8Fault where
  offset : Nat
  bytes : List UInt8
  reason : Utf8Reason
  deriving DecidableEq, Repr

/-- The wording of a reason. -/
def Utf8Reason.message : Utf8Reason → String
  | .badStart => "invalid start byte"
  | .badContinuation => "invalid continuation byte"
  | .cutShort => "unexpected end of data"

/-- A byte as two hexadecimal digits. -/
def byteText (b : UInt8) : String :=
  let digits := Nat.toDigits 16 b.toNat
  String.ofList (List.replicate (2 - digits.length) '0' ++ digits)

/-- The wording of a refusal: one bad byte is shown, several are given by their offsets. -/
def Utf8Fault.message (f : Utf8Fault) : String :=
  let place := match f.bytes with
    | [b] => s!"byte 0x{byteText b} in position {f.offset}"
    | bs => s!"bytes in position {f.offset}-{f.offset + bs.length - 1}"
  s!"'utf-8' codec can't decode {place}: {f.reason.message}"

/-- What a sequence at the head of the bytes comes to. -/
inductive Utf8Step where
  /-- A character, and how many bytes follow its first one. -/
  | char (c : Char) (more : Nat)
  /-- A fault, and how many bytes belong to it. -/
  | bad (size : Nat) (reason : Utf8Reason)

/-- The byte lies between the bounds. -/
def within (lo hi b : UInt8) : Bool := lo ≤ b && b ≤ hi

/-- The six payload bits of a continuation byte. -/
def payload (b : UInt8) : Nat := b.toNat % 64

/-- The bounds of the second byte after a first byte of a longer sequence, the number of bytes
    after the first, and the first byte's payload. -/
def lead (b : UInt8) : Option (UInt8 × UInt8 × Nat × Nat) :=
  if within 0xC2 0xDF b then some (0x80, 0xBF, 1, b.toNat % 32)
  else if b == 0xE0 then some (0xA0, 0xBF, 2, 0)
  else if b == 0xED then some (0x80, 0x9F, 2, 13)
  else if within 0xE1 0xEF b then some (0x80, 0xBF, 2, b.toNat % 16)
  else if b == 0xF0 then some (0x90, 0xBF, 3, 0)
  else if within 0xF1 0xF3 b then some (0x80, 0xBF, 3, b.toNat % 8)
  else if b == 0xF4 then some (0x80, 0x8F, 3, 4)
  else none

/-- Continuation bytes from the second on: `seen` bytes are good so far, `need` are missing, and
    `lo`, `hi` bound the next one. -/
def continuation (lo hi : UInt8) (seen acc : Nat) : Nat → List UInt8 → Utf8Step
  | 0, _ => .char (Char.ofNat acc) (seen - 1)
  | _ + 1, [] => .bad seen .cutShort
  | need + 1, b :: rest =>
      if within lo hi b then continuation 0x80 0xBF (seen + 1) (acc * 64 + payload b) need rest
      else .bad seen .badContinuation

/-- The sequence that starts with `b`. -/
def Utf8Step.at (b : UInt8) (rest : List UInt8) : Utf8Step :=
  if b < 0x80 then .char (Char.ofNat b.toNat) 0
  else match lead b with
    | none => .bad 1 .badStart
    | some (lo, hi, need, acc) => continuation lo hi 1 acc need rest

/-- Decodes bytes that stand at an offset. -/
def decodeFrom (offset : Nat) (bytes : List UInt8) : Except Utf8Fault (List Char) :=
  match bytes with
  | [] => .ok []
  | b :: rest =>
      match Utf8Step.at b rest with
      | .char c more => (decodeFrom (offset + 1 + more) (rest.drop more)).map (c :: ·)
      | .bad size reason => .error ⟨offset, (b :: rest).take size, reason⟩
termination_by bytes.length
decreasing_by simp only [List.length_drop, List.length_cons]; omega

/-- Decodes a file's bytes. -/
def decode (bytes : List UInt8) : Except Utf8Fault (List Char) := decodeFrom 0 bytes

end CMinusMinus.Text
