/-
  File:      CMinusMinus/Proofs/Phrases.lean
  Subject:   The phrases of the language: which token lists stand for which trees.

  A phrase is a list of tokens that stands for a tree. The rules below tell which lists stand for
  which trees, one rule for each form of the language and without a reader: nothing is looked at in
  advance, nothing is gone back on.

  Expressions have a RANK, which tells how tightly they hold together:

      0  literals, names, calls and expressions in parentheses
      1  these with subscripts
      2  these with unary operators
      3  to 8  the binary operators, from `* / %` to `||`

  A phrase of one rank is also one of every looser rank. An operator binds to the left: its left
  operand may have the operator's own rank, its right operand holds together more tightly.

  * `Phrase`, `Arguments` -- expressions;
  * `Variable.Phrase`, `Params` -- declarations of variables and parameters;
  * `Stmt.Phrase`, `Block.Phrase`, `Decl.Phrase`, `Program.Phrase` -- the rest.
-/
import CMinusMinus.Parse.Program

namespace CMinusMinus

/-! ## 1. Expressions -/

/-- The rank of a whole expression, the loosest one. -/
def wholeRank : Nat := loosest + 2

mutual

/-- The tokens stand for the expression, as a phrase of the rank. -/
inductive Phrase : Nat → List Token → Expr → Prop where
  | name {t : Token} (ht : t.kind = .identifier) : Phrase 0 [t] (.var t.pos t.text)
  | number {t : Token} {v : Int} (ht : t.kind = .number)
      (hv : Text.readInt t.text.toList = .ok v) : Phrase 0 [t] (.int t.pos v)
  | string {t : Token} (ht : t.kind = .string) : Phrase 0 [t] (.str t.pos t.text)
  | call {t l r : Token} {ts : List Token} {es : List Expr} (ht : t.kind = .identifier)
      (hl : l.kind = .lparen) (hargs : Arguments ts es) (hr : r.kind = .rparen) :
      Phrase 0 (t :: l :: (ts ++ [r])) (.call t.pos t.text es)
  | group {l r : Token} {ts : List Token} {e : Expr} (hl : l.kind = .lparen)
      (he : Phrase wholeRank ts e) (hr : r.kind = .rparen) : Phrase 0 (l :: (ts ++ [r])) e
  | index {l r : Token} {ts us : List Token} {a i : Expr} (ha : Phrase 1 ts a)
      (hl : l.kind = .lbracket) (hi : Phrase wholeRank us i) (hr : r.kind = .rbracket) :
      Phrase 1 (ts ++ l :: (us ++ [r])) (.index a.pos a i)
  | unary {t : Token} {ts : List Token} {e : Expr} (ht : t.kind.isUnary = true)
      (he : Phrase 2 ts e) : Phrase 2 (t :: ts) (.unary t.pos (.ofText t.text) e)
  | binary {n : Nat} {t : Token} {ts us : List Token} {left right : Expr}
      (hleft : Phrase (n + 2) ts left) (ht : t.kind.level? = some n)
      (hright : Phrase (n + 1) us right) :
      Phrase (n + 2) (ts ++ t :: us) (.binary left.pos (.ofText t.text) left right)
  | looser {n : Nat} {ts : List Token} {e : Expr} (h : Phrase n ts e) : Phrase (n + 1) ts e

/-- The tokens stand for the arguments of a call, with commas between them. -/
inductive Arguments : List Token → List Expr → Prop where
  | none : Arguments [] []
  | some {ts us : List Token} {e : Expr} {es : List Expr} (he : Phrase wholeRank ts e)
      (hes : MoreArguments us es) : Arguments (ts ++ us) (e :: es)

/-- The tokens stand for the arguments after the first one, each with the comma before it. -/
inductive MoreArguments : List Token → List Expr → Prop where
  | none : MoreArguments [] []
  | some {c : Token} {ts us : List Token} {e : Expr} {es : List Expr} (hc : c.kind = .comma)
      (he : Phrase wholeRank ts e) (hes : MoreArguments us es) :
      MoreArguments (c :: (ts ++ us)) (e :: es)

end

/-- A phrase of one rank is one of every looser rank. -/
theorem Phrase.of_le {m n : Nat} {ts : List Token} {e : Expr} (h : Phrase m ts e) (hmn : m ≤ n) :
    Phrase n ts e := by
  induction hmn with
  | refl => exact h
  | step _ ih => exact ih.looser

/-! ## 2. The first token of an expression -/

/-- No operator binds tighter than level 1. -/
theorem TokenKind.level?_pos {k : TokenKind} {n : Nat} (h : k.level? = some n) : 0 < n := by
  cases k <;> simp [TokenKind.level?] at h <;> omega

/-- The kind is that of a token which an operand without operators can start with. -/
def TokenKind.startsOperand : TokenKind → Bool
  | .identifier | .number | .string | .lparen => true
  | _ => false

/-- The kind is that of a token which an expression can start with. -/
def TokenKind.startsExpr (k : TokenKind) : Bool := k.startsOperand || k.isUnary

/-- **An expression starts with an operand or a unary operator**, one of rank 0 or 1 with an
    operand. -/
theorem Phrase.head : ∀ {n : Nat} {ts : List Token} {e : Expr}, Phrase n ts e →
    ∃ t rest, ts = t :: rest ∧ t.kind.startsExpr = true ∧
      (n ≤ 1 → t.kind.startsOperand = true)
  | _, _, _, .name ht => ⟨_, _, rfl, by rw [ht]; rfl, fun _ => by rw [ht]; rfl⟩
  | _, _, _, .number ht _ => ⟨_, _, rfl, by rw [ht]; rfl, fun _ => by rw [ht]; rfl⟩
  | _, _, _, .string ht => ⟨_, _, rfl, by rw [ht]; rfl, fun _ => by rw [ht]; rfl⟩
  | _, _, _, .call ht _ _ _ => ⟨_, _, rfl, by rw [ht]; rfl, fun _ => by rw [ht]; rfl⟩
  | _, _, _, .group hl _ _ => ⟨_, _, rfl, by rw [hl]; rfl, fun _ => by rw [hl]; rfl⟩
  | _, _, _, .index ha _ _ _ => by
      obtain ⟨t, rest, rfl, hexpr, hoperand⟩ := ha.head
      exact ⟨t, _, rfl, hexpr, hoperand⟩
  | _, _, _, .unary ht _ =>
      ⟨_, _, rfl, Bool.or_eq_true_iff.mpr (.inr ht), fun h => absurd h (by decide)⟩
  | _, _, _, .binary hleft _ _ => by
      obtain ⟨t, rest, rfl, hexpr, -⟩ := hleft.head
      exact ⟨t, _, rfl, hexpr, fun h => absurd h (by omega)⟩
  | _, _, _, .looser h => by
      obtain ⟨t, rest, rfl, hexpr, hoperand⟩ := h.head
      exact ⟨t, _, rfl, hexpr, fun hn => hoperand (by omega)⟩

/-- The position of the first token. -/
def startOf (ts : List Token) : Position := (ts.head?.map Token.pos).getD {}

/-! ## 3. Declarations of variables and parameters -/

/-- One phrase after the other. -/
inductive Series {α : Type} (P : List Token → α → Prop) : List Token → List α → Prop where
  | nil : Series P [] []
  | cons {ts us : List Token} {a : α} {as : List α} (h : P ts a) (hs : Series P us as) :
      Series P (ts ++ us) (a :: as)

/-- The tokens stand for the type: a base name and its stars. The position is that of the name. -/
inductive Ty.Phrase : List Token → Position → Ty → Prop where
  | mk {t : Token} {stars : List Token} (ht : t.kind = .keyword) (hname : t.text ∈ Ty.names)
      (hstars : ∀ u ∈ stars, u.kind = .star) :
      Ty.Phrase (t :: stars) t.pos { name := t.text, pointers := stars.length }

/-- The tokens stand for a type with a name after it; the position is that of the type. -/
inductive TypedName : List Token → Position × Ty × String → Prop where
  | mk {x : Token} {ts : List Token} {pos : Position} {ty : Ty} (hty : Ty.Phrase ts pos ty)
      (hx : x.kind = .identifier) : TypedName (ts ++ [x]) (pos, ty, x.text)

/-- The tokens stand for the size of an array in brackets, or for none. -/
inductive Extent : List Token → Option Int → Prop where
  | none : Extent [] none
  | some {l x r : Token} {v : Int} (hl : l.kind = .lbracket) (hx : x.kind = .number)
      (hv : Text.readInt x.text.toList = .ok v) (hr : r.kind = .rbracket) :
      Extent [l, x, r] (some v)

/-- The tokens stand for the declaration of a variable. -/
inductive Variable.Phrase : List Token → Decl → Prop where
  | mk {semi : Token} {ts us : List Token} {pos : Position} {ty : Ty} {name : String}
      {size? : Option Int} (hname : TypedName ts (pos, ty, name)) (hsize : Extent us size?)
      (hsemi : semi.kind = .semicolon) :
      Variable.Phrase (ts ++ (us ++ [semi])) (.variable pos name { ty with extent := size? })

/-- The tokens stand for parameters, one at least, with commas between them. -/
inductive Params : List Token → List Decl → Prop where
  | one {ts : List Token} {pos : Position} {ty : Ty} {name : String}
      (h : TypedName ts (pos, ty, name)) : Params ts [.parameter pos name ty]
  | more {c : Token} {ts us : List Token} {pos : Position} {ty : Ty} {name : String}
      {ps : List Decl} (h : TypedName ts (pos, ty, name)) (hc : c.kind = .comma)
      (hps : Params us ps) : Params (ts ++ c :: us) (.parameter pos name ty :: ps)

/-- The tokens stand for the parameters of a function. -/
inductive Formals : List Token → List Decl → Prop where
  | none : Formals [] []
  | some {ts : List Token} {ps : List Decl} (h : Params ts ps) : Formals ts ps

/-! ## 4. Statements -/

/-- The token is the keyword. -/
structure Token.IsWord (t : Token) (text : String) : Prop where
  keyword : t.kind = .keyword
  spelled : t.text = text

/-- The tokens stand for an assignment or a call, without a semicolon. What is assigned to is read
    as a unary expression; it must be a location. -/
inductive Clause : List Token → Stmt → Prop where
  | assign {a : Token} {ts us : List Token} {target value : Expr} (htarget : Phrase 2 ts target)
      (hlocation : target.isLocation = true) (ha : a.kind = .assign)
      (hvalue : Phrase wholeRank us value) :
      Clause (ts ++ a :: us) (.assign (startOf ts) target value)
  | call {ts : List Token} {e : Expr} (he : Phrase 2 ts e) (hcall : e.isCall = true) :
      Clause ts (.call (startOf ts) e)

/-- The tokens stand for a condition in parentheses. -/
inductive Condition : List Token → Expr → Prop where
  | mk {l r : Token} {ts : List Token} {e : Expr} (hl : l.kind = .lparen)
      (he : Phrase wholeRank ts e) (hr : r.kind = .rparen) : Condition (l :: (ts ++ [r])) e

/-- The tokens stand for the three clauses of a `for`, in parentheses. -/
inductive ForClauses : List Token → Stmt × Expr × Stmt → Prop where
  | mk {l s₁ s₂ r : Token} {ts us vs : List Token} {init step : Stmt} {cond : Expr}
      (hl : l.kind = .lparen) (hinit : Clause ts init) (h₁ : s₁.kind = .semicolon)
      (hcond : Phrase wholeRank us cond) (h₂ : s₂.kind = .semicolon) (hstep : Clause vs step)
      (hr : r.kind = .rparen) :
      ForClauses (l :: (ts ++ s₁ :: (us ++ s₂ :: (vs ++ [r])))) (init, cond, step)

mutual

/-- The tokens stand for the statement. -/
inductive Stmt.Phrase : List Token → Stmt → Prop where
  | clause {semi : Token} {ts : List Token} {st : Stmt} (h : Clause ts st)
      (hsemi : semi.kind = .semicolon) : Stmt.Phrase (ts ++ [semi]) st
  | retNone {t semi : Token} (ht : t.IsWord "return") (hsemi : semi.kind = .semicolon) :
      Stmt.Phrase [t, semi] (.ret t.pos none)
  | retSome {t semi : Token} {ts : List Token} {e : Expr} (ht : t.IsWord "return")
      (he : CMinusMinus.Phrase wholeRank ts e) (hsemi : semi.kind = .semicolon) :
      Stmt.Phrase (t :: (ts ++ [semi])) (.ret t.pos (some e))
  | ifThen {t : Token} {ts us : List Token} {cond : Expr} {yes : Block} (ht : t.IsWord "if")
      (hcond : Condition ts cond) (hyes : Block.Phrase us yes) :
      Stmt.Phrase (t :: (ts ++ us)) (.ifThen t.pos cond yes)
  | ifElse {t w : Token} {ts us vs : List Token} {cond : Expr} {yes no : Block}
      (ht : t.IsWord "if") (hcond : Condition ts cond) (hyes : Block.Phrase us yes)
      (hw : w.IsWord "else") (hno : Block.Phrase vs no) :
      Stmt.Phrase (t :: (ts ++ (us ++ w :: vs))) (.ifElse t.pos cond yes no)
  | whileLoop {t : Token} {ts us : List Token} {cond : Expr} {body : Block}
      (ht : t.IsWord "while") (hcond : Condition ts cond) (hbody : Block.Phrase us body) :
      Stmt.Phrase (t :: (ts ++ us)) (.whileLoop t.pos cond body)
  | forLoop {t : Token} {ts us : List Token} {init step : Stmt} {cond : Expr} {body : Block}
      (ht : t.IsWord "for") (hclauses : ForClauses ts (init, cond, step))
      (hbody : Block.Phrase us body) :
      Stmt.Phrase (t :: (ts ++ us)) (.forLoop t.pos init cond step body)

/-- The tokens stand for the block: declarations and statements between braces. -/
inductive Block.Phrase : List Token → Block → Prop where
  | mk {l r : Token} {ts us : List Token} {ds : List Decl} {sts : List Stmt}
      (hl : l.kind = .lbrace) (hds : Series Variable.Phrase ts ds) (hsts : Stmt.Phrases us sts)
      (hr : r.kind = .rbrace) : Block.Phrase (l :: (ts ++ (us ++ [r]))) (.mk l.pos ds sts)

/-- The tokens stand for the statements, one after the other. -/
inductive Stmt.Phrases : List Token → List Stmt → Prop where
  | nil : Stmt.Phrases [] []
  | cons {ts us : List Token} {st : Stmt} {sts : List Stmt} (h : Stmt.Phrase ts st)
      (hs : Stmt.Phrases us sts) : Stmt.Phrases (ts ++ us) (st :: sts)

end

/-! ## 5. Programs -/

/-- The tokens stand for the declaration at the top of a program. -/
inductive Decl.Phrase : List Token → Decl → Prop where
  | var {ts : List Token} {d : Decl} (h : Variable.Phrase ts d) : Decl.Phrase ts d
  | prototype {l r semi : Token} {ts us : List Token} {pos : Position} {ty : Ty} {name : String}
      {params : List Decl} (hname : TypedName ts (pos, ty, name)) (hl : l.kind = .lparen)
      (hparams : Formals us params) (hr : r.kind = .rparen) (hsemi : semi.kind = .semicolon) :
      Decl.Phrase (ts ++ l :: (us ++ [r, semi])) (.prototype ⟨pos, name, ty⟩ params)
  | function {l r : Token} {ts us vs : List Token} {pos : Position} {ty : Ty} {name : String}
      {params : List Decl} {body : Block} (hname : TypedName ts (pos, ty, name))
      (hl : l.kind = .lparen) (hparams : Formals us params) (hr : r.kind = .rparen)
      (hbody : Block.Phrase vs body) :
      Decl.Phrase (ts ++ l :: (us ++ r :: vs)) (.function ⟨pos, name, ty⟩ params body)

/-- **The tokens stand for the program.** -/
def Program.Phrase (ts : List Token) (p : Program) : Prop := Series Decl.Phrase ts p.decls

end CMinusMinus
