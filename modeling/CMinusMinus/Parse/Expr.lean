/-
  File:      CMinusMinus/Parse/Expr.lean
  Subject:   Reading expressions.

  Binary operators bind in six levels, all of them to the left:

      ||   &&   == !=   < > <= >=   + -   * / %

  from the loosest (level 6) to the tightest (level 1). Below them stand the unary operators
  `- ! & *`, then subscripts, then literals, names, calls and expressions in parentheses.

  The recursion is well-founded on the tokens ahead and, where a function hands the same stream
  to a tighter one, on the level: `weight` packs both into one number.
-/
import CMinusMinus.Expr
import CMinusMinus.Parse.Stream

namespace CMinusMinus

/-- The level of a binary operator. -/
def TokenKind.level? : TokenKind → Option Nat
  | .star | .slash | .percent => some 1
  | .plus | .minus => some 2
  | .lt | .gt | .lte | .gte => some 3
  | .eq | .neq => some 4
  | .land => some 5
  | .lor => some 6
  | _ => none

/-- The kind is that of a unary operator. -/
def TokenKind.isUnary : TokenKind → Bool
  | .minus | .bang | .ampersand | .star => true
  | _ => false

/-- The loosest level. -/
def loosest : Nat := 6

/-- No operator binds looser than the loosest level. -/
theorem TokenKind.level?_le {k : TokenKind} {n : Nat} (h : k.level? = some n) : n ≤ loosest := by
  cases k <;> simp [TokenKind.level?] at h <;> subst h <;> decide

namespace Parse

/-- Tokens ahead first, then the rank of the function that looks at them. -/
def weight (s : Stream) (rank : Nat) : Nat := 16 * s.size + rank

mutual

/-- A literal, a name, a call or an expression in parentheses. -/
def primary (s : Stream) : Reading Expr s.size :=
  match s.take? with
  | none => .error s.noExpression
  | some (t, ⟨next, hnext⟩) =>
      match t.kind with
      | .identifier =>
          match next.accept? .lparen with
          | none => .ok ⟨.var t.pos t.text, next, hnext⟩
          | some ⟨inner, hinner⟩ =>
              Reading.within (
                ((arguments inner).follow hinner).andThen fun args rest hrest =>
                  ((rest.expect .rparen .callEndExpected).follow hrest).andThen fun _ after h =>
                    .ok ⟨.call t.pos t.text args, after, h⟩) hnext
      | .number =>
          match Text.readInt t.text.toList with
          | .error f => .error (.numeral f)
          | .ok n => .ok ⟨.int t.pos n, next, hnext⟩
      | .string => .ok ⟨.str t.pos t.text, next, hnext⟩
      | .lparen =>
          ((expression next).within hnext).andThen fun e rest hrest =>
            ((rest.expect .rparen .groupEndExpected).follow hrest).andThen fun _ after h =>
              .ok ⟨e, after, h⟩
      | _ => .error s.noExpression
termination_by weight s 0
decreasing_by all_goals simp only [weight]; omega

/-- The arguments of a call, up to its closing parenthesis. -/
def arguments (s : Stream) : Reading (List Expr) (s.size + 1) :=
  if s.isAt .rparen then .done [] s
  else
    Reading.loosen ((expression s).andThen fun e rest hrest =>
      ((moreArguments rest).follow hrest).andThen fun es after h => .ok ⟨e :: es, after, h⟩)
termination_by weight s 12
decreasing_by all_goals simp only [weight]; omega

/-- The arguments of a call after its first one. -/
def moreArguments (s : Stream) : Reading (List Expr) (s.size + 1) :=
  match s.accept? .comma with
  | none => .done [] s
  | some ⟨inner, hinner⟩ =>
      Reading.loosen (((expression inner).within hinner).andThen fun e rest hrest =>
        ((moreArguments rest).follow hrest).andThen fun es after h => .ok ⟨e :: es, after, h⟩)
termination_by weight s 0
decreasing_by all_goals simp only [weight]; omega

/-- A primary with its subscripts. -/
def postfixed (s : Stream) : Reading Expr s.size :=
  (primary s).andThen fun e rest hrest => (subscripts e rest).follow hrest
termination_by weight s 1
decreasing_by all_goals simp only [weight]; omega

/-- The subscripts that follow an expression. -/
def subscripts (e : Expr) (s : Stream) : Reading Expr (s.size + 1) :=
  match s.accept? .lbracket with
  | none => .done e s
  | some ⟨inner, hinner⟩ =>
      Reading.loosen (((expression inner).within hinner).andThen fun i rest hrest =>
        ((rest.expect .rbracket .subscriptEndExpected).follow hrest).andThen fun _ after h =>
          (subscripts (.index e.pos e i) after).follow h)
termination_by weight s 0
decreasing_by all_goals simp only [weight]; omega

/-- Unary operators before a postfixed expression. -/
def unary (s : Stream) : Reading Expr s.size :=
  match s.take? with
  | none => .error s.noExpression
  | some (t, ⟨next, hnext⟩) =>
      if t.kind.isUnary then
        ((unary next).within hnext).andThen fun e rest h =>
          .ok ⟨.unary t.pos (.ofText t.text) e, rest, h⟩
      else postfixed s
termination_by weight s 2
decreasing_by all_goals simp only [weight]; omega

/-- An expression whose operators bind at level `n` or tighter. -/
def binary (n : Nat) (s : Stream) : Reading Expr s.size :=
  match n with
  | 0 => unary s
  | n + 1 => (binary n s).andThen fun e rest hrest => (operands (n + 1) e rest).follow hrest
termination_by weight s 3 + n
decreasing_by all_goals simp only [weight]; omega

/-- The operators of level `n` after a left operand, each with its right operand. -/
def operands (n : Nat) (left : Expr) (s : Stream) : Reading Expr (s.size + 1) :=
  match s.take? with
  | none => .done left s
  | some (t, ⟨next, hnext⟩) =>
      if hn : t.kind.level? = some n then
        Reading.loosen (((binary (n - 1) next).within hnext).andThen fun right rest hrest =>
          (operands n (.binary left.pos (.ofText t.text) left right) rest).follow hrest)
      else .done left s
termination_by weight s 0
decreasing_by
  · have := TokenKind.level?_le hn
    simp only [weight, loosest] at *
    omega
  · simp only [weight]; omega

/-- An expression. -/
def expression (s : Stream) : Reading Expr s.size := binary loosest s
termination_by weight s 11
decreasing_by all_goals simp only [weight, loosest]; omega

end

end Parse

end CMinusMinus
