/-
  File:      CMinusMinus/Parse/Stream.lean
  Subject:   A token list that is being read, and what reading it gives.

  The tokens still to be read stand ahead; the one read last is remembered. When nothing is ahead
  the last token stays current: it can be looked at and even expected again, but nothing more can
  be taken. A token list that ends with the end of input never gets there, since that token is
  never taken.

  A parser's result says by a proof how much of the list is left, so that recursion on the rest
  is well-founded.
-/
import CMinusMinus.Text.Numeral
import CMinusMinus.Token
import CMinusMinus.Ty

namespace CMinusMinus

/-! ## 1. The faults of a token list -/

/-- What a parser expected, or met where it cannot stand. -/
inductive SyntaxProblem where
  | typeExpected
  | nameExpected
  | paramNameExpected
  | paramsEndExpected
  | sizeExpected
  | sizeEndExpected
  | declEndExpected
  | bodyExpected
  | bodyOpen
  | inputEnded
  | returnEndExpected
  | ifStartExpected
  | ifEndExpected
  | whileStartExpected
  | whileEndExpected
  | forStartExpected
  | forInitEndExpected
  | forConditionEndExpected
  | forEndExpected
  | strayKeyword (text : String)
  | stmtEndExpected
  | locationExpected
  | assignExpected
  | subscriptEndExpected
  | callEndExpected
  | groupEndExpected
  | expressionExpected
  deriving DecidableEq, Repr

/-- The wording of a problem. -/
def SyntaxProblem.message : SyntaxProblem → String
  | .typeExpected => "Expected type specifier"
  | .nameExpected => "Expected identifier after type"
  | .paramNameExpected => "Expected parameter name"
  | .paramsEndExpected => "Expected ')' after parameters"
  | .sizeExpected => "Expected array size"
  | .sizeEndExpected => "Expected ']' after array size"
  | .declEndExpected => "Expected ';' after declaration"
  | .bodyExpected => "Expected '\x7b'"
  | .bodyOpen => "Expected '\x7d' before end of input"
  | .inputEnded => "Unexpected end of input"
  | .returnEndExpected => "Expected ';' after return"
  | .ifStartExpected => "Expected '(' after if"
  | .ifEndExpected => "Expected ')' after if condition"
  | .whileStartExpected => "Expected '(' after while"
  | .whileEndExpected => "Expected ')' after while condition"
  | .forStartExpected => "Expected '(' after for"
  | .forInitEndExpected => "Expected ';' after for init"
  | .forConditionEndExpected => "Expected ';' after for condition"
  | .forEndExpected => "Expected ')' after for clauses"
  | .strayKeyword text => s!"Unexpected keyword '{text}'"
  | .stmtEndExpected => "Expected ';' after statement"
  | .locationExpected => "Expected assignable location"
  | .assignExpected => "Expected '=' in assignment"
  | .subscriptEndExpected => "Expected ']' after subscript"
  | .callEndExpected => "Expected ')' after call"
  | .groupEndExpected => "Expected ')' "
  | .expressionExpected => "Expected expression"

/-- Why a token list cannot be read. -/
inductive ParseFault where
  /-- A problem at a token; without one if there was no token at all. -/
  | unexpected (problem : SyntaxProblem) (token : Option Token)
  /-- A number token whose text denotes no number. -/
  | numeral (fault : Text.NumeralFault)
  deriving DecidableEq, Repr

/-! ## 2. Streams -/

/-- A token list that is being read. -/
structure Stream where
  last : Option Token
  ahead : List Token
  deriving DecidableEq, Repr

namespace Stream

/-- A token list before its first token is read. -/
def ofTokens (tokens : List Token) : Stream := ⟨none, tokens⟩

/-- How many tokens are ahead. -/
def size (s : Stream) : Nat := s.ahead.length

/-- The current token: the next one ahead, or the last one when nothing is ahead. -/
def here (s : Stream) : Option Token :=
  match s.ahead with
  | t :: _ => some t
  | [] => s.last

/-- The stream after its next token; unchanged when nothing is ahead. -/
def next (s : Stream) : Stream :=
  match s.ahead with
  | t :: rest => ⟨some t, rest⟩
  | [] => s

/-- The current token has the kind. -/
def isAt (s : Stream) (kind : TokenKind) : Bool := s.here.any fun t => t.kind == kind

/-- The current token names a base type. -/
def isAtType (s : Stream) : Bool :=
  s.here.any fun t => t.kind == .keyword && Ty.names.contains t.text

/-- The index of the current token in the list of all `total` tokens. -/
def position (s : Stream) (total : Nat) : Nat := min (total - s.size) (total - 1)

theorem size_next_le (s : Stream) : s.next.size ≤ s.size := by
  unfold next size
  split <;> simp_all

theorem size_next_lt {s : Stream} {t : Token} {rest : List Token} (h : s.ahead = t :: rest) :
    s.next.size < s.size := by
  simp [next, size, h]

end Stream

/-! ## 3. Results -/

/-- What a parser read: a value and the rest, of which less than `bound` tokens are ahead. -/
structure Parsed (α : Type) (bound : Nat) where
  value : α
  rest : Stream
  shorter : rest.size < bound

/-- The value and the rest, without the proof. -/
def Parsed.pair {α : Type} {bound : Nat} (p : Parsed α bound) : α × Stream := (p.value, p.rest)

/-- The result of a parser. -/
abbrev Reading (α : Type) (bound : Nat) := Except ParseFault (Parsed α bound)

namespace Reading

variable {α β : Type} {m n : Nat}

/-- Nothing is read. -/
def done (a : α) (s : Stream) : Reading α (s.size + 1) := .ok ⟨a, s, Nat.lt_succ_self _⟩

/-- Reads on after a first part. -/
def andThen (r : Reading α n) (f : (a : α) → (s : Stream) → s.size < n → Reading β n) :
    Reading β n :=
  match r with
  | .error e => .error e
  | .ok ⟨a, s, h⟩ => f a s h

/-- A part that read something, seen from where less had been read. -/
def within (r : Reading α m) (h : m < n) : Reading α n :=
  match r with
  | .error e => .error e
  | .ok ⟨a, s, hs⟩ => .ok ⟨a, s, Nat.lt_trans hs h⟩

/-- A part that may have read nothing, seen from where less had been read. -/
def follow (r : Reading α (m + 1)) (h : m < n) : Reading α n :=
  match r with
  | .error e => .error e
  | .ok ⟨a, s, hs⟩ => .ok ⟨a, s, Nat.lt_of_le_of_lt (Nat.le_of_lt_succ hs) h⟩

/-- The part read something, which is more than need be known. -/
def loosen (r : Reading α n) : Reading α (n + 1) := r.within (Nat.lt_succ_self n)

@[simp] theorem andThen_error (e : ParseFault)
    (f : (a : α) → (s : Stream) → s.size < n → Reading β n) :
    andThen (.error e : Reading α n) f = .error e := rfl

@[simp] theorem andThen_ok (a : α) (s : Stream) (h : s.size < n)
    (f : (a : α) → (s : Stream) → s.size < n → Reading β n) :
    andThen (.ok ⟨a, s, h⟩ : Reading α n) f = f a s h := rfl

/-- Both parts succeed when the whole does. -/
theorem andThen_eq_ok_iff {r : Reading α n} {f : (a : α) → (s : Stream) → s.size < n → Reading β n}
    {p : Parsed β n} :
    r.andThen f = .ok p ↔ ∃ a s h, r = .ok ⟨a, s, h⟩ ∧ f a s h = .ok p := by
  cases r with
  | error e => simp
  | ok q =>
    obtain ⟨a, s, h⟩ := q
    constructor
    · intro hf
      exact ⟨a, s, h, rfl, hf⟩
    · rintro ⟨a', s', h', hr, hf⟩
      cases hr
      exact hf

end Reading

namespace Stream

/-- The next token and the stream after it. -/
def take? (s : Stream) : Option (Token × { r : Stream // r.size < s.size }) :=
  match h : s.ahead with
  | t :: _ => some (t, ⟨s.next, size_next_lt h⟩)
  | [] => none

/-- The stream after a token of the kind, if one is next. -/
def accept? (s : Stream) (kind : TokenKind) : Option { r : Stream // r.size < s.size } :=
  match s.take? with
  | some (t, r) => if t.kind = kind then some r else none
  | none => none

/-- The stream after the keyword, if it is next. -/
def acceptKeyword? (s : Stream) (text : String) : Option { r : Stream // r.size < s.size } :=
  match s.take? with
  | some (t, r) => if t.kind = .keyword ∧ t.text = text then some r else none
  | none => none

/-- Takes the current token if it has the kind. -/
def expect (s : Stream) (kind : TokenKind) (problem : SyntaxProblem) : Reading Token (s.size + 1) :=
  match s.here with
  | some t =>
      if t.kind = kind then .ok ⟨t, s.next, Nat.lt_succ_of_le s.size_next_le⟩
      else .error (.unexpected problem (some t))
  | none => .error (.unexpected problem none)

/-- The fault of an expression that does not start. -/
def noExpression (s : Stream) : ParseFault :=
  match s.here with
  | some t => .unexpected .expressionExpected (some t)
  | none => .unexpected .inputEnded none

/-- The position of the current token. -/
def pos (s : Stream) : Position := (s.here.map Token.pos).getD {}

end Stream

end CMinusMinus
