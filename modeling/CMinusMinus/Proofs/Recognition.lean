/-
  File:      CMinusMinus/Proofs/Recognition.lean
  Subject:   The parser reads every phrase of the language as its tree.

  A phrase is read whole if the token after it does not continue it. What continues an expression
  depends on its rank: an opening parenthesis after a name makes a call of it, a bracket goes on with
  subscripts, an operator is taken by the loop of its own level. Left operands are read before it is
  known that they are such; so the rules say what a reading gives that has passed over a phrase and
  goes on with the loop of its rank.

  * `Reading.Yields` -- what a reading gives, and what it leaves;
  * `Stops` -- the next token does not continue an expression of the rank;
  * `Parse.phrase_reads`, `Parse.statement_read`, `Parse.declaration_read` -- phrases are read as
    their trees;
  * `Parse.program_eq_ok_iff` -- the parser makes a program exactly of the phrases that stand for it.
-/
import CMinusMinus.Proofs.Outcomes

namespace CMinusMinus

/-! ## 1. What a reading gives -/

namespace Reading

variable {α β : Type} {m n : Nat} {a : α} {b : β} {tail tail' : List Token}

/-- The reading gives the value and leaves the tokens. -/
def Yields (r : Reading α n) (a : α) (tail : List Token) : Prop :=
  ∃ s h, r = .ok ⟨a, s, h⟩ ∧ s.ahead = tail

theorem yields_ok {s : Stream} {h : s.size < n} (hs : s.ahead = tail) :
    Yields (.ok ⟨a, s, h⟩ : Reading α n) a tail := ⟨s, h, rfl, hs⟩

theorem yields_done {s : Stream} (hs : s.ahead = tail) : Yields (.done a s) a tail := yields_ok hs

/-- Where nothing is read, the value and the tokens are those that were there. -/
theorem Yields.of_done {s : Stream} {a' : α} (h : Yields (.done a s) a' tail) :
    a' = a ∧ tail = s.ahead := by
  obtain ⟨s', _, heq, rfl⟩ := h
  cases heq
  exact ⟨rfl, rfl⟩

theorem Yields.andThen {r : Reading α n} {f : (a : α) → (s : Stream) → s.size < n → Reading β n}
    (hr : r.Yields a tail) (hf : ∀ s h, s.ahead = tail → (f a s h).Yields b tail') :
    (r.andThen f).Yields b tail' := by
  obtain ⟨s, h, rfl, hs⟩ := hr
  exact hf s h hs

theorem Yields.within {r : Reading α m} (hr : r.Yields a tail) (h : m < n) :
    (r.within h).Yields a tail := by
  obtain ⟨s, hsize, rfl, hs⟩ := hr
  exact yields_ok hs

theorem Yields.follow {r : Reading α (m + 1)} (hr : r.Yields a tail) (h : m < n) :
    (r.follow h).Yields a tail := by
  obtain ⟨s, hsize, rfl, hs⟩ := hr
  exact yields_ok hs

theorem Yields.loosen {r : Reading α n} (hr : r.Yields a tail) : r.loosen.Yields a tail :=
  hr.within (Nat.lt_succ_self n)

end Reading

namespace Stream

variable {s : Stream} {t : Token} {tail : List Token}

theorem take?_of_ahead (h : s.ahead = t :: tail) :
    ∃ next hnext, s.take? = some (t, ⟨next, hnext⟩) ∧ next.ahead = tail := by
  cases htake : s.take? with
  | none =>
    rw [take?_eq_none htake] at h
    cases h
  | some p =>
    obtain ⟨u, next, hnext⟩ := p
    have hahead := (take?_eq_some htake).symm.trans h
    obtain ⟨rfl, hrest⟩ := List.cons.inj hahead
    exact ⟨next, hnext, rfl, hrest⟩

theorem accept?_of_ahead (h : s.ahead = t :: tail) {kind : TokenKind} (ht : t.kind = kind) :
    ∃ next hnext, s.accept? kind = some ⟨next, hnext⟩ ∧ next.ahead = tail := by
  obtain ⟨next, hnext, htake, hrest⟩ := take?_of_ahead h
  refine ⟨next, hnext, ?_, hrest⟩
  unfold accept?
  rw [htake]
  exact if_pos ht

theorem accept?_eq_none {kind : TokenKind} (h : ∀ t, s.ahead.head? = some t → t.kind ≠ kind) :
    s.accept? kind = none := by
  cases haccept : s.accept? kind with
  | none => rfl
  | some r =>
    obtain ⟨t, hahead, ht⟩ := accept?_eq_some haccept
    exact absurd ht (h t (by rw [hahead]; rfl))

/-- A token of another kind is not accepted. -/
theorem accept?_of_other (h : s.ahead = t :: tail) {kind : TokenKind} (ht : t.kind ≠ kind) :
    s.accept? kind = none := by
  refine accept?_eq_none fun u hu => ?_
  rw [h] at hu
  cases hu
  exact ht

theorem acceptKeyword?_of_ahead (h : s.ahead = t :: tail) {text : String} (ht : t.IsWord text) :
    ∃ next hnext, s.acceptKeyword? text = some ⟨next, hnext⟩ ∧ next.ahead = tail := by
  obtain ⟨next, hnext, htake, hrest⟩ := take?_of_ahead h
  refine ⟨next, hnext, ?_, hrest⟩
  unfold acceptKeyword?
  rw [htake]
  exact if_pos ⟨ht.keyword, ht.spelled⟩

theorem acceptKeyword?_eq_none {text : String}
    (h : ∀ t, s.ahead.head? = some t → ¬ t.IsWord text) : s.acceptKeyword? text = none := by
  cases haccept : s.acceptKeyword? text with
  | none => rfl
  | some r =>
    obtain ⟨t, hahead, ht⟩ := acceptKeyword?_eq_some haccept
    exact absurd ht (h t (by rw [hahead]; rfl))

theorem expect_yields (h : s.ahead = t :: tail) {kind : TokenKind} (ht : t.kind = kind)
    (problem : SyntaxProblem) : (s.expect kind problem).Yields t tail := by
  unfold expect
  rw [here_of_ahead h]
  dsimp only
  rw [if_pos ht]
  exact Reading.yields_ok (ahead_next h)

end Stream

/-! ## 2. Where an expression stops -/

/-- The next token does not continue an expression of the rank. -/
def Stops (n : Nat) (tail : List Token) : Prop :=
  ∀ t, tail.head? = some t → t.kind ≠ .lparen ∧ (1 ≤ n → t.kind ≠ .lbracket) ∧
    ∀ m, t.kind.level? = some m → n < m + 2

theorem Stops.mono {m n : Nat} {tail : List Token} (h : Stops n tail) (hmn : m ≤ n) :
    Stops m tail := by
  intro t ht
  obtain ⟨hparen, hbracket, hlevel⟩ := h t ht
  exact ⟨hparen, fun hm => hbracket (by omega), fun k hk => by have := hlevel k hk; omega⟩

/-- The kind is that of a token which no expression goes on with. -/
def TokenKind.closes : TokenKind → Bool
  | .rparen | .rbracket | .comma | .semicolon | .assign => true
  | _ => false

theorem TokenKind.closes_cases {k : TokenKind} (h : k.closes = true) :
    k ≠ .lparen ∧ k ≠ .lbracket ∧ k.level? = none := by
  revert h
  cases k <;> decide

theorem stops_of_closes {t : Token} (h : t.kind.closes = true) (n : Nat) (tail : List Token) :
    Stops n (t :: tail) := by
  intro u hu
  cases hu
  obtain ⟨hparen, hbracket, hlevel⟩ := TokenKind.closes_cases h
  refine ⟨hparen, fun _ => hbracket, fun m hm => ?_⟩
  rw [hlevel] at hm
  cases hm

/-! ## 3. What a statement starts with -/

/-- A token that a statement can start with: no brace, no end of input, no name of a type, and
    not `else`. -/
def StartsStmt (t : Token) : Prop :=
  t.kind.startsExpr = true ∨ ∃ text ∈ ["return", "if", "while", "for"], t.IsWord text

theorem Clause.head {ts : List Token} {st : Stmt} (h : Clause ts st) :
    ∃ t rest, ts = t :: rest ∧ t.kind.startsExpr = true := by
  cases h with
  | assign htarget =>
    obtain ⟨t, rest, rfl, hstart, -⟩ := htarget.head
    exact ⟨t, _, rfl, hstart⟩
  | call he =>
    obtain ⟨t, rest, rfl, hstart, -⟩ := he.head
    exact ⟨t, _, rfl, hstart⟩

theorem Stmt.Phrase.head {ts : List Token} {st : Stmt} (h : Stmt.Phrase ts st) :
    ∃ t rest, ts = t :: rest ∧ StartsStmt t := by
  cases h with
  | clause hclause =>
    obtain ⟨t, rest, rfl, hstart⟩ := hclause.head
    exact ⟨t, _, rfl, .inl hstart⟩
  | retNone ht => exact ⟨_, _, rfl, .inr ⟨_, by decide, ht⟩⟩
  | retSome ht => exact ⟨_, _, rfl, .inr ⟨_, by decide, ht⟩⟩
  | ifThen ht => exact ⟨_, _, rfl, .inr ⟨_, by decide, ht⟩⟩
  | ifElse ht => exact ⟨_, _, rfl, .inr ⟨_, by decide, ht⟩⟩
  | whileLoop ht => exact ⟨_, _, rfl, .inr ⟨_, by decide, ht⟩⟩
  | forLoop ht => exact ⟨_, _, rfl, .inr ⟨_, by decide, ht⟩⟩

theorem TokenKind.startsExpr_cases {k : TokenKind} (h : k.startsExpr = true) :
    k ≠ .keyword ∧ k ≠ .rbrace ∧ k ≠ .eof := by
  revert h
  cases k <;> decide

namespace StartsStmt

variable {t : Token}

theorem ne_rbrace (h : StartsStmt t) : t.kind ≠ .rbrace := by
  rcases h with hexpr | ⟨_, _, hword⟩
  · exact (TokenKind.startsExpr_cases hexpr).2.1
  · rw [hword.keyword]
    exact TokenKind.noConfusion

theorem ne_eof (h : StartsStmt t) : t.kind ≠ .eof := by
  rcases h with hexpr | ⟨_, _, hword⟩
  · exact (TokenKind.startsExpr_cases hexpr).2.2
  · rw [hword.keyword]
    exact TokenKind.noConfusion

theorem not_word (h : StartsStmt t) {text : String}
    (htext : text ∉ ["return", "if", "while", "for"]) : ¬ t.IsWord text := by
  intro hword
  rcases h with hexpr | ⟨_, hmem, hword'⟩
  · exact (TokenKind.startsExpr_cases hexpr).1 hword.keyword
  · rw [← hword'.spelled, hword.spelled] at hmem
    exact htext hmem

theorem not_type (h : StartsStmt t) : ¬ (t.kind = .keyword ∧ t.text ∈ Ty.names) := by
  rintro ⟨hkeyword, hname⟩
  have hapart : ∀ text ∈ Ty.names, text ∉ ["return", "if", "while", "for"] := by decide
  exact h.not_word (hapart _ hname) ⟨hkeyword, rfl⟩

end StartsStmt

/-- What follows the statements read so far: one more, or the closing brace. -/
theorem Stmt.Phrases.head {us : List Token} {sts : List Stmt} (h : Stmt.Phrases us sts) {r : Token}
    (hr : r.kind = .rbrace) (tail : List Token) :
    ∃ t rest, us ++ r :: tail = t :: rest ∧ ¬ (t.kind = .keyword ∧ t.text ∈ Ty.names) ∧
      ¬ t.IsWord "else" := by
  cases h with
  | nil =>
    refine ⟨r, tail, rfl, fun h => ?_, fun h => ?_⟩
    · rw [hr] at h
      cases h.1
    · rw [h.keyword] at hr
      cases hr
  | cons hst _ =>
    obtain ⟨t, rest, rfl, hstart⟩ := hst.head
    exact ⟨t, _, rfl, hstart.not_type, hstart.not_word (by decide)⟩

namespace Parse

open Reading

/-! ## 4. Expressions -/

/-- The function that reads expressions of a rank. -/
def ofRank : Nat → (s : Stream) → Reading Expr s.size
  | 0, s => primary s
  | 1, s => postfixed s
  | n + 2, s => binary n s

/-- The loop that a function of a rank ends with, after a first part was read. -/
def goOn : Nat → Expr → (s : Stream) → Reading Expr (s.size + 1)
  | 0, e, s => .done e s
  | 1, e, s => subscripts e s
  | 2, e, s => .done e s
  | n + 3, e, s => operands (n + 1) e s

theorem goOn_stops {n : Nat} {s : Stream} {tail : List Token} (hs : s.ahead = tail)
    (h : Stops n tail) (e : Expr) : (goOn n e s).Yields e tail := by
  subst hs
  match n with
  | 0 => exact yields_done rfl
  | 1 =>
    rw [goOn, subscripts, Stream.accept?_eq_none fun t ht => (h t ht).2.1 (Nat.le_refl 1)]
    exact yields_done rfl
  | 2 => exact yields_done rfl
  | n + 3 =>
    rw [goOn, operands]
    split
    · exact yields_done rfl
    · rename_i t next hnext htake
      have hahead := Stream.take?_eq_some htake
      have hlevel : t.kind.level? ≠ some (n + 1) := fun hlevel =>
        absurd ((h t (by rw [hahead]; rfl)).2.2 _ hlevel) (Nat.lt_irrefl _)
      rw [dif_neg hlevel]
      exact yields_done rfl

/-- **Passing over a phrase.** Where the next token does not continue a tighter expression, the
    function of the rank passes over the tokens and goes on with its loop. -/
def Reads (n : Nat) (ts : List Token) (e : Expr) : Prop :=
  ∀ ⦃s : Stream⦄ ⦃tail : List Token⦄ ⦃e' : Expr⦄ ⦃tail' : List Token⦄, s.ahead = ts ++ tail →
    Stops (n - 1) tail → (∀ s', s'.ahead = tail → (goOn n e s').Yields e' tail') →
      (ofRank n s).Yields e' tail'

theorem Reads.whole {n : Nat} {ts tail : List Token} {e : Expr} (h : Reads n ts e) {s : Stream}
    (hs : s.ahead = ts ++ tail) (hstop : Stops n tail) : (ofRank n s).Yields e tail :=
  h hs (hstop.mono (Nat.sub_le n 1)) fun _ hs' => goOn_stops hs' hstop e

theorem Reads.expression {ts tail : List Token} {e : Expr} (h : Reads wholeRank ts e) {s : Stream}
    {t : Token} (hs : s.ahead = ts ++ t :: tail) (ht : t.kind.closes = true) :
    (expression s).Yields e (t :: tail) := by
  rw [Parse.expression]
  exact h.whole hs (stops_of_closes ht _ _)

/-- A function of rank 0 has no loop. -/
theorem reads_primary {ts : List Token} {e : Expr}
    (h : ∀ {s : Stream} {tail : List Token}, s.ahead = ts ++ tail → Stops 0 tail →
      (primary s).Yields e tail) : Reads 0 ts e := by
  intro s tail e' tail' hs hstop hloop
  obtain ⟨rfl, rfl⟩ := (hloop ⟨none, tail⟩ rfl).of_done
  exact h hs hstop

theorem Reads.looser {n : Nat} {ts : List Token} {e : Expr} (h : Reads n ts e)
    (hhead : n = 1 → ∃ t rest, ts = t :: rest ∧ t.kind.isUnary = false) : Reads (n + 1) ts e := by
  intro s tail e' tail' hs hstop hloop
  have hpart := h.whole hs hstop
  match n with
  | 0 =>
    rw [ofRank, postfixed]
    exact hpart.andThen fun s' hs' hahead => (hloop s' hahead).follow hs'
  | 1 =>
    obtain ⟨rfl, rfl⟩ := (hloop ⟨none, tail⟩ rfl).of_done
    obtain ⟨t, rest, rfl, hunary⟩ := hhead rfl
    obtain ⟨next, hnext, htake, -⟩ := Stream.take?_of_ahead hs
    rw [ofRank, binary, unary, htake]
    dsimp only
    rw [hunary, if_neg Bool.false_ne_true]
    exact hpart
  | n + 2 =>
    rw [ofRank, binary]
    exact hpart.andThen fun s' hs' hahead => (hloop s' hahead).follow hs'

theorem Reads.unary {t : Token} {ts : List Token} {e : Expr} (ht : t.kind.isUnary = true)
    (h : Reads 2 ts e) : Reads 2 (t :: ts) (.unary t.pos (.ofText t.text) e) := by
  intro s tail e' tail' hs hstop hloop
  obtain ⟨rfl, rfl⟩ := (hloop ⟨none, tail⟩ rfl).of_done
  obtain ⟨next, hnext, htake, hahead⟩ := Stream.take?_of_ahead hs
  have hoperand := h hahead hstop fun s' hs' => yields_done hs'
  rw [ofRank, binary] at hoperand
  rw [ofRank, binary, Parse.unary, htake]
  dsimp only
  rw [ht, if_pos rfl]
  exact (hoperand.within hnext).andThen fun _ _ hs' => yields_ok hs'

theorem Reads.index {l r : Token} {ts us : List Token} {a i : Expr} (ha : Reads 1 ts a)
    (hl : l.kind = .lbracket) (hi : Reads wholeRank us i) (hr : r.kind = .rbracket) :
    Reads 1 (ts ++ l :: (us ++ [r])) (.index a.pos a i) := by
  intro s tail e' tail' hs hstop hloop
  rw [List.append_assoc, List.cons_append, List.append_assoc] at hs
  refine ha hs ?_ fun s₁ hs₁ => ?_
  · intro t ht
    cases ht
    rw [hl]
    exact ⟨TokenKind.noConfusion, fun h => absurd h (by decide), fun m hm => by cases hm⟩
  · obtain ⟨inner, hinner, haccept, hinside⟩ := Stream.accept?_of_ahead hs₁ hl
    rw [goOn, subscripts, haccept]
    refine ((hi.expression hinside (by rw [hr]; rfl)).within hinner).andThen
      (fun s₂ h₂ hs₂ => ?_) |>.loosen
    refine ((Stream.expect_yields hs₂ hr _).follow h₂).andThen fun s₃ h₃ hs₃ => ?_
    exact (hloop s₃ hs₃).follow h₃

theorem Reads.binary {n : Nat} {t : Token} {ts us : List Token} {left right : Expr}
    (hleft : Reads (n + 2) ts left) (ht : t.kind.level? = some n) (hright : Reads (n + 1) us right) :
    Reads (n + 2) (ts ++ t :: us) (.binary left.pos (.ofText t.text) left right) := by
  intro s tail e' tail' hs hstop hloop
  rw [List.append_assoc, List.cons_append] at hs
  obtain ⟨k, rfl⟩ :=
    Nat.exists_eq_succ_of_ne_zero (Nat.pos_iff_ne_zero.mp (TokenKind.level?_pos ht))
  refine hleft hs ?_ fun s₁ hs₁ => ?_
  · intro u hu
    cases hu
    refine ⟨fun h => ?_, fun _ h => ?_, fun m hm => ?_⟩
    · rw [h] at ht; cases ht
    · rw [h] at ht; cases ht
    · rw [ht] at hm; cases hm; omega
  · obtain ⟨next, hnext, htake, hinside⟩ := Stream.take?_of_ahead hs₁
    rw [goOn, operands, htake]
    dsimp only
    rw [dif_pos ht]
    refine ((hright.whole hinside hstop).within hnext).andThen (fun s₂ h₂ hs₂ => ?_) |>.loosen
    exact (hloop s₂ hs₂).follow h₂

theorem primary_name {s : Stream} {t : Token} {tail : List Token} (hs : s.ahead = t :: tail)
    (ht : t.kind = .identifier) (hstop : Stops 0 tail) :
    (primary s).Yields (.var t.pos t.text) tail := by
  obtain ⟨next, hnext, htake, hahead⟩ := Stream.take?_of_ahead hs
  rw [primary, htake]
  dsimp only
  rw [ht]
  dsimp only
  rw [Stream.accept?_eq_none fun u hu => (hstop u (hahead ▸ hu)).1]
  exact yields_ok hahead

theorem primary_number {s : Stream} {t : Token} {tail : List Token} {v : Int}
    (hs : s.ahead = t :: tail) (ht : t.kind = .number) (hv : Text.readInt t.text.toList = .ok v) :
    (primary s).Yields (.int t.pos v) tail := by
  obtain ⟨next, hnext, htake, hahead⟩ := Stream.take?_of_ahead hs
  rw [primary, htake]
  dsimp only
  rw [ht]
  dsimp only
  rw [hv]
  exact yields_ok hahead

theorem primary_string {s : Stream} {t : Token} {tail : List Token} (hs : s.ahead = t :: tail)
    (ht : t.kind = .string) : (primary s).Yields (.str t.pos t.text) tail := by
  obtain ⟨next, hnext, htake, hahead⟩ := Stream.take?_of_ahead hs
  rw [primary, htake]
  dsimp only
  rw [ht]
  exact yields_ok hahead

/-- The arguments are read up to the parenthesis that closes their call. -/
def ArgumentsRead (ts : List Token) (es : List Expr) : Prop :=
  ∀ ⦃s : Stream⦄ ⦃r : Token⦄ ⦃tail : List Token⦄, s.ahead = ts ++ r :: tail → r.kind = .rparen →
    (arguments s).Yields es (r :: tail)

/-- The arguments after the first one are read up to that parenthesis. -/
def MoreArgumentsRead (ts : List Token) (es : List Expr) : Prop :=
  ∀ ⦃s : Stream⦄ ⦃r : Token⦄ ⦃tail : List Token⦄, s.ahead = ts ++ r :: tail → r.kind = .rparen →
    (moreArguments s).Yields es (r :: tail)

theorem primary_call {s : Stream} {t l r : Token} {ts tail : List Token} {es : List Expr}
    (hs : s.ahead = t :: l :: (ts ++ [r]) ++ tail) (ht : t.kind = .identifier)
    (hl : l.kind = .lparen) (hargs : ArgumentsRead ts es) (hr : r.kind = .rparen) :
    (primary s).Yields (.call t.pos t.text es) tail := by
  rw [List.cons_append, List.cons_append, List.append_assoc] at hs
  obtain ⟨next, hnext, htake, hahead⟩ := Stream.take?_of_ahead hs
  obtain ⟨inner, hinner, haccept, hinside⟩ := Stream.accept?_of_ahead hahead hl
  rw [primary, htake]
  dsimp only
  rw [ht]
  dsimp only
  rw [haccept]
  refine (((hargs hinside hr).follow hinner).andThen fun s₁ h₁ hs₁ => ?_).within hnext
  refine ((Stream.expect_yields hs₁ hr _).follow h₁).andThen fun s₂ h₂ hs₂ => ?_
  exact yields_ok hs₂

theorem primary_group {s : Stream} {l r : Token} {ts tail : List Token} {e : Expr}
    (hs : s.ahead = l :: (ts ++ [r]) ++ tail) (hl : l.kind = .lparen) (he : Reads wholeRank ts e)
    (hr : r.kind = .rparen) : (primary s).Yields e tail := by
  rw [List.cons_append, List.append_assoc] at hs
  obtain ⟨next, hnext, htake, hahead⟩ := Stream.take?_of_ahead hs
  rw [primary, htake]
  dsimp only
  rw [hl]
  refine ((he.expression hahead (by rw [hr]; rfl)).within hnext).andThen fun s₁ h₁ hs₁ => ?_
  refine ((Stream.expect_yields hs₁ hr _).follow h₁).andThen fun s₂ h₂ hs₂ => ?_
  exact yields_ok hs₂

/-- What follows an argument is a comma or the parenthesis that closes the call. -/
theorem moreArguments_head {us : List Token} {es : List Expr} (h : MoreArguments us es)
    {r : Token} (hr : r.kind = .rparen) (tail : List Token) :
    ∃ t rest, us ++ r :: tail = t :: rest ∧ t.kind.closes = true := by
  cases h with
  | none => exact ⟨r, tail, rfl, by rw [hr]; rfl⟩
  | some hc he hes => exact ⟨_, _, rfl, by rw [hc]; rfl⟩

theorem arguments_some {ts us : List Token} {e : Expr} {es : List Expr}
    (hphrase : Phrase wholeRank ts e) (he : Reads wholeRank ts e) (hmore : MoreArguments us es)
    (hes : MoreArgumentsRead us es) : ArgumentsRead (ts ++ us) (e :: es) := by
  intro s r tail hs hr
  rw [List.append_assoc] at hs
  -- an expression does not start with a closing parenthesis
  obtain ⟨t, rest, rfl, hstart, -⟩ := hphrase.head
  have hat : s.isAt .rparen = false := by
    rw [Stream.isAt_of_ahead hs, decide_eq_false_iff_not]
    intro h
    rw [h] at hstart
    cases hstart
  obtain ⟨u, rest', hnext, hu⟩ := moreArguments_head hmore hr tail
  rw [arguments, if_neg (by rw [hat]; exact Bool.false_ne_true)]
  rw [hnext] at hs
  refine ((he.expression hs hu).andThen fun s₁ h₁ hs₁ => ?_).loosen
  refine ((hes (hs₁.trans hnext.symm) hr).follow h₁).andThen fun s₂ h₂ hs₂ => ?_
  exact yields_ok hs₂

theorem moreArguments_some {c : Token} {ts us : List Token} {e : Expr} {es : List Expr}
    (hc : c.kind = .comma) (he : Reads wholeRank ts e) (hmore : MoreArguments us es)
    (hes : MoreArgumentsRead us es) : MoreArgumentsRead (c :: (ts ++ us)) (e :: es) := by
  intro s r tail hs hr
  rw [List.cons_append, List.append_assoc] at hs
  obtain ⟨inner, hinner, haccept, hinside⟩ := Stream.accept?_of_ahead hs hc
  obtain ⟨u, rest', hnext, hu⟩ := moreArguments_head hmore hr tail
  rw [moreArguments, haccept]
  rw [hnext] at hinside
  refine (((he.expression hinside hu).within hinner).andThen fun s₁ h₁ hs₁ => ?_).loosen
  refine ((hes (hs₁.trans hnext.symm) hr).follow h₁).andThen fun s₂ h₂ hs₂ => ?_
  exact yields_ok hs₂

mutual

/-- **An expression is read as its tree.** -/
theorem phrase_reads : ∀ {n : Nat} {ts : List Token} {e : Expr}, Phrase n ts e → Reads n ts e
  | _, _, _, .name ht => reads_primary fun hs hstop => primary_name hs ht hstop
  | _, _, _, .number ht hv => reads_primary fun hs _ => primary_number hs ht hv
  | _, _, _, .string ht => reads_primary fun hs _ => primary_string hs ht
  | _, _, _, .call ht hl hargs hr =>
      reads_primary fun hs _ => primary_call hs ht hl (arguments_read hargs) hr
  | _, _, _, .group hl he hr =>
      reads_primary fun hs _ => primary_group hs hl (phrase_reads he) hr
  | _, _, _, .index ha hl hi hr => (phrase_reads ha).index hl (phrase_reads hi) hr
  | _, _, _, .unary ht he => (phrase_reads he).unary ht
  | _, _, _, .binary hleft ht hright => (phrase_reads hleft).binary ht (phrase_reads hright)
  | _, _, _, .looser h => (phrase_reads h).looser fun hn => by
      obtain ⟨t, rest, hts, -, hoperand⟩ := h.head
      refine ⟨t, rest, hts, ?_⟩
      have hoperand := hoperand (Nat.le_of_eq hn)
      revert hoperand
      cases t.kind <;> decide

theorem arguments_read : ∀ {ts : List Token} {es : List Expr}, Arguments ts es →
    ArgumentsRead ts es
  | _, _, .none => by
      intro s r tail hs hr
      rw [arguments, if_pos (by rw [Stream.isAt_of_ahead hs, decide_eq_true hr])]
      exact yields_done hs
  | _, _, .some he hes => arguments_some he (phrase_reads he) hes (moreArguments_read hes)

theorem moreArguments_read : ∀ {ts : List Token} {es : List Expr}, MoreArguments ts es →
    MoreArgumentsRead ts es
  | _, _, .none => by
      intro s r tail hs hr
      rw [moreArguments, Stream.accept?_of_other hs (by simp [hr])]
      exact yields_done hs
  | _, _, .some hc he hes => moreArguments_some hc (phrase_reads he) hes
      (moreArguments_read hes)

end

/-- A whole expression is read up to a token that none goes on with. -/
theorem expression_read {s : Stream} {t : Token} {ts tail : List Token} {e : Expr}
    (h : Phrase wholeRank ts e) (hs : s.ahead = ts ++ t :: tail) (ht : t.kind.closes = true) :
    (expression s).Yields e (t :: tail) :=
  (phrase_reads h).expression hs ht

/-! ## 5. Types and declarations of variables -/

theorem stars_read : ∀ {us : List Token} {s : Stream} {t : Token} {tail : List Token},
    (∀ u ∈ us, u.kind = .star) → s.ahead = us ++ t :: tail → t.kind ≠ .star →
      (stars s).Yields us.length (t :: tail)
  | [], s, t, tail, _, hs, ht => by
      rw [stars, Stream.accept?_of_other hs ht]
      exact yields_done hs
  | u :: us, s, t, tail, hus, hs, ht => by
      obtain ⟨hu, hus⟩ := List.forall_mem_cons.mp hus
      obtain ⟨next, hnext, haccept, hrest⟩ := Stream.accept?_of_ahead hs hu
      rw [stars, haccept]
      refine (((stars_read hus hrest ht).follow hnext).andThen fun s₁ h₁ hs₁ => ?_).loosen
      exact yields_ok hs₁

theorem type_read {ts tail : List Token} {pos : Position} {ty : Ty} {s : Stream} {t : Token}
    (h : Ty.Phrase ts pos ty) (hs : s.ahead = ts ++ t :: tail) (ht : t.kind ≠ .star) :
    (type s).Yields ty (t :: tail) ∧ s.pos = pos := by
  obtain @⟨base, us, hkeyword, hname, hus⟩ := h
  obtain ⟨next, hnext, htake, hrest⟩ := Stream.take?_of_ahead hs
  refine ⟨?_, Stream.pos_of_ahead hs⟩
  unfold type
  rw [htake]
  dsimp only
  rw [if_pos ((Stream.isAtType_iff hs).mpr ⟨hkeyword, hname⟩)]
  exact ((stars_read hus hrest ht).follow hnext).andThen fun s₁ h₁ hs₁ => yields_ok hs₁

theorem typedName_read {ts tail : List Token} {v : Position × Ty × String} {s : Stream}
    (h : TypedName ts v) (hs : s.ahead = ts ++ tail) (problem : SyntaxProblem) :
    (typedName problem s).Yields v tail := by
  obtain ⟨hty, hx⟩ := h
  rw [List.append_assoc] at hs
  obtain ⟨htype, rfl⟩ := type_read hty hs (by rw [hx]; exact TokenKind.noConfusion)
  unfold typedName
  refine htype.andThen fun s₁ h₁ hs₁ => ?_
  refine ((Stream.expect_yields hs₁ hx _).follow h₁).andThen fun s₂ h₂ hs₂ => ?_
  exact yields_ok hs₂

/-- A declaration starts with the name of a type. -/
theorem typedName_head {ts : List Token} {v : Position × Ty × String} (h : TypedName ts v) :
    ∃ t rest, ts = t :: rest ∧ t.kind = .keyword ∧ t.text ∈ Ty.names := by
  obtain ⟨hty, -⟩ := h
  obtain ⟨hkeyword, hname, -⟩ := hty
  exact ⟨_, _, rfl, hkeyword, hname⟩

theorem extent_read {us tail : List Token} {size? : Option Int} {s : Stream} {semi : Token}
    (h : Extent us size?) (hs : s.ahead = us ++ semi :: tail) (hsemi : semi.kind = .semicolon) :
    (extent s).Yields size? (semi :: tail) := by
  unfold extent
  cases h with
  | none =>
    rw [Stream.accept?_of_other hs (by simp [hsemi])]
    exact yields_done hs
  | some hl hx hv hr =>
    obtain ⟨inner, hinner, haccept, hinside⟩ := Stream.accept?_of_ahead hs hl
    rw [haccept]
    refine (((Stream.expect_yields hinside hx _).follow hinner).andThen
      fun s₁ h₁ hs₁ => ?_).loosen
    refine ((Stream.expect_yields hs₁ hr _).follow h₁).andThen fun s₂ h₂ hs₂ => ?_
    rw [hv]
    exact yields_ok hs₂

theorem varRest_read {us tail : List Token} {size? : Option Int} {s : Stream} {semi : Token}
    (h : Extent us size?) (hs : s.ahead = us ++ semi :: tail) (hsemi : semi.kind = .semicolon)
    (pos : Position) (ty : Ty) (name : String) :
    (varRest pos ty name s).Yields (.variable pos name { ty with extent := size? }) tail := by
  unfold varRest
  refine (extent_read h hs hsemi).andThen fun s₁ h₁ hs₁ => ?_
  refine ((Stream.expect_yields hs₁ hsemi _).follow h₁).andThen fun s₂ h₂ hs₂ => ?_
  exact yields_ok hs₂

theorem locals_read {ts : List Token} {ds : List Decl} (h : Series Variable.Phrase ts ds) :
    ∀ {s : Stream} {t : Token} {tail : List Token}, s.ahead = ts ++ t :: tail →
      ¬ (t.kind = .keyword ∧ t.text ∈ Ty.names) → (locals s).Yields ds (t :: tail) := by
  induction h with
  | nil =>
    intro s t tail hs ht
    rw [locals, if_neg (mt (Stream.isAtType_iff hs).mp ht)]
    exact yields_done hs
  | cons hd _ ih =>
    intro s t tail hs ht
    obtain @⟨semi, ts, us, pos, ty, name, size?, hname, hsize, hsemi⟩ := hd
    rw [List.append_assoc, List.append_assoc, List.append_assoc] at hs
    have hat : s.isAtType = true := by
      obtain ⟨base, rest, rfl, hbase⟩ := typedName_head hname
      exact (Stream.isAtType_iff hs).mpr hbase
    rw [locals, if_pos hat]
    refine ((typedName_read hname hs _).andThen fun s₁ h₁ hs₁ => ?_).loosen
    refine ((varRest_read hsize hs₁ hsemi _ _ _).follow h₁).andThen fun s₂ h₂ hs₂ => ?_
    refine ((ih hs₂ ht).follow h₂).andThen fun s₃ h₃ hs₃ => ?_
    exact yields_ok hs₃

theorem params_read {ts : List Token} {ps : List Decl} (h : Params ts ps) :
    ∀ {s : Stream} {r : Token} {tail : List Token}, s.ahead = ts ++ r :: tail → r.kind = .rparen →
      (params s).Yields ps (r :: tail) := by
  induction h with
  | one hname =>
    intro s r tail hs hr
    rw [params]
    refine (typedName_read hname hs _).andThen fun s₁ h₁ hs₁ => ?_
    dsimp only
    rw [Stream.accept?_of_other hs₁ (by simp [hr])]
    exact yields_ok hs₁
  | more hname hc _ ih =>
    intro s r tail hs hr
    rw [List.append_assoc, List.cons_append] at hs
    rw [params]
    refine (typedName_read hname hs _).andThen fun s₁ h₁ hs₁ => ?_
    obtain ⟨inner, hinner, haccept, hinside⟩ := Stream.accept?_of_ahead hs₁ hc
    dsimp only
    rw [haccept]
    refine (((ih hinside hr).within hinner).within h₁).andThen fun s₂ h₂ hs₂ => ?_
    exact yields_ok hs₂

theorem formals_read {ts tail : List Token} {ps : List Decl} {s : Stream} {r : Token}
    (h : Formals ts ps) (hs : s.ahead = ts ++ r :: tail) (hr : r.kind = .rparen) :
    (formals s).Yields ps (r :: tail) := by
  unfold formals
  cases h with
  | none =>
    rw [if_pos (by rw [Stream.isAt_of_ahead hs, decide_eq_true hr])]
    exact yields_done hs
  | some hps =>
    have hat : s.isAt .rparen = false := by
      obtain ⟨t, rest, rfl, hkeyword⟩ : ∃ t rest, ts = t :: rest ∧ t.kind = .keyword := by
        cases hps with
        | one hname =>
          obtain ⟨t, rest, rfl, hkeyword, -⟩ := typedName_head hname
          exact ⟨t, rest, rfl, hkeyword⟩
        | more hname =>
          obtain ⟨t, rest, rfl, hkeyword, -⟩ := typedName_head hname
          exact ⟨t, _, rfl, hkeyword⟩
      rw [Stream.isAt_of_ahead hs, hkeyword]
      rfl
    rw [hat, if_neg Bool.false_ne_true]
    exact (params_read hps hs hr).loosen

/-! ## 6. Statements -/

theorem unary_read {s : Stream} {t : Token} {ts tail : List Token} {e : Expr} (h : Phrase 2 ts e)
    (hs : s.ahead = ts ++ t :: tail) (ht : t.kind.closes = true) :
    (unary s).Yields e (t :: tail) := by
  have hread := (phrase_reads h).whole hs (stops_of_closes ht _ _)
  rwa [ofRank, binary] at hread

/-- A call is no location. -/
theorem isCall_eq_false {e : Expr} (h : e.isLocation = true) : e.isCall = false := by
  cases e <;> first | rfl | cases h

theorem simple_read {s : Stream} {t : Token} {ts tail : List Token} {st : Stmt} (h : Clause ts st)
    (hs : s.ahead = ts ++ t :: tail) (ht : t.kind.closes = true) (hne : t.kind ≠ .assign) :
    (simple s).Yields st (t :: tail) := by
  unfold simple
  cases h with
  | assign htarget hlocation ha hvalue =>
    rw [List.append_assoc, List.cons_append] at hs
    rw [pos_eq_startOf hs htarget]
    refine (unary_read htarget hs (by rw [ha]; rfl)).andThen fun s₁ h₁ hs₁ => ?_
    rw [isCall_eq_false hlocation, Bool.false_and, if_neg Bool.false_ne_true, if_pos hlocation]
    refine ((Stream.expect_yields hs₁ ha _).follow h₁).andThen fun s₂ h₂ hs₂ => ?_
    refine ((expression_read hvalue hs₂ ht).within h₂).andThen fun s₃ h₃ hs₃ => ?_
    exact yields_ok hs₃
  | call he hcall =>
    rw [pos_eq_startOf hs he]
    refine (unary_read he hs ht).andThen fun s₁ h₁ hs₁ => ?_
    have hat : s₁.isAt .assign = false := by
      rw [Stream.isAt_of_ahead hs₁, decide_eq_false hne]
    rw [hcall, hat, if_pos (by decide)]
    exact yields_ok hs₁

theorem condition_read {s : Stream} {ts tail : List Token} {e : Expr} (h : Condition ts e)
    (hs : s.ahead = ts ++ tail) (start finish : SyntaxProblem) :
    (condition start finish s).Yields e tail := by
  obtain ⟨hl, he, hr⟩ := h
  rw [List.cons_append, List.append_assoc] at hs
  unfold condition
  refine (Stream.expect_yields hs hl _).andThen fun s₁ h₁ hs₁ => ?_
  refine ((expression_read he hs₁ (by rw [hr]; rfl)).within h₁).andThen fun s₂ h₂ hs₂ => ?_
  refine ((Stream.expect_yields hs₂ hr _).follow h₂).andThen fun s₃ h₃ hs₃ => ?_
  exact yields_ok hs₃

theorem clauses_read {s : Stream} {ts tail : List Token} {c : Stmt × Expr × Stmt}
    (h : ForClauses ts c) (hs : s.ahead = ts ++ tail) : (clauses s).Yields c tail := by
  obtain ⟨hl, hinit, hsemi₁, hcond, hsemi₂, hstep, hr⟩ := h
  simp only [List.cons_append, List.append_assoc] at hs
  unfold clauses
  refine (Stream.expect_yields hs hl _).andThen fun s₁ h₁ hs₁ => ?_
  refine ((simple_read hinit hs₁ (by rw [hsemi₁]; rfl)
    (by rw [hsemi₁]; exact TokenKind.noConfusion)).within h₁).andThen fun s₂ h₂ hs₂ => ?_
  refine ((Stream.expect_yields hs₂ hsemi₁ _).follow h₂).andThen fun s₃ h₃ hs₃ => ?_
  refine ((expression_read hcond hs₃ (by rw [hsemi₂]; rfl)).within h₃).andThen
    fun s₄ h₄ hs₄ => ?_
  refine ((Stream.expect_yields hs₄ hsemi₂ _).follow h₄).andThen fun s₅ h₅ hs₅ => ?_
  refine ((simple_read hstep hs₅ (by rw [hr]; rfl)
    (by rw [hr]; exact TokenKind.noConfusion)).within h₅).andThen fun s₆ h₆ hs₆ => ?_
  refine ((Stream.expect_yields hs₆ hr _).follow h₆).andThen fun s₇ h₇ hs₇ => ?_
  exact yields_ok hs₇

theorem returned_read {s : Stream} {us tail : List Token} {e : Expr} {semi : Token}
    (h : Phrase wholeRank us e) (hs : s.ahead = us ++ semi :: tail)
    (hsemi : semi.kind = .semicolon) (pos : Position) :
    (returned pos s).Yields (.ret pos (some e)) tail := by
  have hat : s.accept? .semicolon = none := by
    obtain ⟨t, rest, rfl, hstart, -⟩ := h.head
    refine Stream.accept?_of_other hs fun hkind => ?_
    rw [hkind] at hstart
    cases hstart
  unfold returned
  rw [hat]
  refine ((expression_read h hs (by rw [hsemi]; rfl)).andThen fun s₁ h₁ hs₁ => ?_).loosen
  refine ((Stream.expect_yields hs₁ hsemi _).follow h₁).andThen fun s₂ h₂ hs₂ => ?_
  exact yields_ok hs₂

theorem returned_nothing {s : Stream} {tail : List Token} {semi : Token}
    (hs : s.ahead = semi :: tail) (hsemi : semi.kind = .semicolon) (pos : Position) :
    (returned pos s).Yields (.ret pos none) tail := by
  obtain ⟨after, hafter, haccept, hahead⟩ := Stream.accept?_of_ahead hs hsemi
  unfold returned
  rw [haccept]
  exact (yields_ok hahead).loosen

theorem statement_clause {s : Stream} {ts tail : List Token} {st : Stmt} {semi : Token}
    (h : Clause ts st) (hs : s.ahead = ts ++ semi :: tail) (hsemi : semi.kind = .semicolon) :
    (statement s).Yields st tail := by
  have hread := simple_read h hs (by rw [hsemi]; rfl) (by rw [hsemi]; exact TokenKind.noConfusion)
  obtain ⟨t, rest, rfl, hstart⟩ := h.head
  obtain ⟨next, hnext, htake, -⟩ := Stream.take?_of_ahead hs
  rw [statement, htake]
  dsimp only
  rw [if_neg (TokenKind.startsExpr_cases hstart).1]
  refine hread.andThen fun s₁ h₁ hs₁ => ?_
  refine ((Stream.expect_yields hs₁ hsemi _).follow h₁).andThen fun s₂ h₂ hs₂ => ?_
  exact yields_ok hs₂

mutual

/-- **A statement is read as its tree**, if no `else` follows it. -/
theorem statement_read : ∀ {ts tail : List Token} {st : Stmt} {s : Stream}, Stmt.Phrase ts st →
    s.ahead = ts ++ tail → (∀ t, tail.head? = some t → ¬ t.IsWord "else") →
      (statement s).Yields st tail
  | _, _, _, s, .clause h hsemi, hs, _ =>
      statement_clause h (by rw [hs, List.append_assoc]; rfl) hsemi
  | _, _, _, s, .retNone ht hsemi, hs, _ => by
      obtain ⟨next, hnext, htake, hahead⟩ := Stream.take?_of_ahead hs
      rw [statement, htake]
      dsimp only
      rw [if_pos ht.keyword, ht.spelled]
      exact (returned_nothing hahead hsemi _).follow hnext
  | _, _, _, s, .retSome ht he hsemi, hs, _ => by
      rw [List.cons_append, List.append_assoc] at hs
      obtain ⟨next, hnext, htake, hahead⟩ := Stream.take?_of_ahead hs
      rw [statement, htake]
      dsimp only
      rw [if_pos ht.keyword, ht.spelled]
      exact (returned_read he hahead hsemi _).follow hnext
  | _, _, _, s, .ifThen ht hcond hyes, hs, helse => by
      rw [List.cons_append, List.append_assoc] at hs
      obtain ⟨next, hnext, htake, hahead⟩ := Stream.take?_of_ahead hs
      rw [statement, htake]
      dsimp only
      rw [if_pos ht.keyword, ht.spelled]
      refine ((condition_read hcond hahead _ _).follow hnext).andThen fun s₁ h₁ hs₁ => ?_
      refine ((body_read hyes hs₁).within h₁).andThen fun s₂ h₂ hs₂ => ?_
      rw [Stream.acceptKeyword?_eq_none (by rw [hs₂]; exact helse)]
      exact yields_ok hs₂
  | _, _, _, s, .ifElse ht hcond hyes hw hno, hs, _ => by
      rw [List.cons_append, List.append_assoc, List.append_assoc, List.cons_append] at hs
      obtain ⟨next, hnext, htake, hahead⟩ := Stream.take?_of_ahead hs
      rw [statement, htake]
      dsimp only
      rw [if_pos ht.keyword, ht.spelled]
      refine ((condition_read hcond hahead _ _).follow hnext).andThen fun s₁ h₁ hs₁ => ?_
      refine ((body_read hyes hs₁).within h₁).andThen fun s₂ h₂ hs₂ => ?_
      obtain ⟨s₃, h₃, haccept, hs₃⟩ := Stream.acceptKeyword?_of_ahead hs₂ hw
      rw [haccept]
      refine (((body_read hno hs₃).within h₃).within h₂).andThen fun s₄ h₄ hs₄ => ?_
      exact yields_ok hs₄
  | _, _, _, s, .whileLoop ht hcond hbody, hs, _ => by
      rw [List.cons_append, List.append_assoc] at hs
      obtain ⟨next, hnext, htake, hahead⟩ := Stream.take?_of_ahead hs
      rw [statement, htake]
      dsimp only
      rw [if_pos ht.keyword, ht.spelled]
      refine ((condition_read hcond hahead _ _).follow hnext).andThen fun s₁ h₁ hs₁ => ?_
      refine ((body_read hbody hs₁).within h₁).andThen fun s₂ h₂ hs₂ => ?_
      exact yields_ok hs₂
  | _, _, _, s, .forLoop ht hclauses hbody, hs, _ => by
      rw [List.cons_append, List.append_assoc] at hs
      obtain ⟨next, hnext, htake, hahead⟩ := Stream.take?_of_ahead hs
      rw [statement, htake]
      dsimp only
      rw [if_pos ht.keyword, ht.spelled]
      refine ((clauses_read hclauses hahead).follow hnext).andThen fun s₁ h₁ hs₁ => ?_
      refine ((body_read hbody hs₁).within h₁).andThen fun s₂ h₂ hs₂ => ?_
      exact yields_ok hs₂

/-- **A block is read as its tree.** -/
theorem body_read : ∀ {ts tail : List Token} {b : Block} {s : Stream}, Block.Phrase ts b →
    s.ahead = ts ++ tail → (body s).Yields b tail
  | _, tail, _, s, .mk hl hds hsts hr, hs => by
      rw [List.cons_append, List.append_assoc, List.append_assoc, List.singleton_append] at hs
      obtain ⟨next, hnext, htake, hahead⟩ := Stream.take?_of_ahead hs
      obtain ⟨t, rest, hinside, htype, -⟩ := hsts.head hr tail
      rw [hinside] at hahead
      rw [body, htake]
      dsimp only
      rw [if_pos hl]
      refine ((locals_read hds hahead htype).follow hnext).andThen fun s₁ h₁ hs₁ => ?_
      have hstmts := statements_read hsts (hs₁.trans hinside.symm) hr
      refine (hstmts.follow h₁).andThen fun s₂ h₂ hs₂ => ?_
      refine ((Stream.expect_yields hs₂ hr _).follow h₂).andThen fun s₃ h₃ hs₃ => ?_
      exact yields_ok hs₃

/-- The statements of a block are read up to the brace that closes it. -/
theorem statements_read : ∀ {us tail : List Token} {sts : List Stmt} {s : Stream} {r : Token},
    Stmt.Phrases us sts → s.ahead = us ++ r :: tail → r.kind = .rbrace →
      (statements s).Yields sts (r :: tail)
  | _, _, _, s, r, .nil, hs, hr => by
      rw [statements, if_pos (by rw [Stream.isAt_of_ahead hs, decide_eq_true hr])]
      exact yields_done hs
  | _, tail, _, s, r, .cons hst hsts, hs, hr => by
      rw [List.append_assoc] at hs
      obtain ⟨t, rest, hinside, -, helse⟩ := hsts.head hr tail
      have hstmt := statement_read hst hs (by
        intro u hu
        rw [hinside] at hu
        cases hu
        exact helse)
      obtain ⟨u, rest', rfl, hstart⟩ := hst.head
      rw [statements, Stream.isAt_of_ahead hs, Stream.isAt_of_ahead hs,
        decide_eq_false hstart.ne_rbrace, decide_eq_false hstart.ne_eof,
        if_neg Bool.false_ne_true, if_neg Bool.false_ne_true]
      refine (hstmt.andThen fun s₁ h₁ hs₁ => ?_).loosen
      refine ((statements_read hsts hs₁ hr).follow h₁).andThen fun s₂ h₂ hs₂ => ?_
      exact yields_ok hs₂

end

/-! ## 7. Programs -/

/-- The name and the parameters of a function, before a semicolon or a body. -/
theorem declaration_formals {ts us vs tail : List Token} {l r : Token} {pos : Position} {ty : Ty}
    {name : String} {ps : List Decl} {d : Decl} {s : Stream} (hname : TypedName ts (pos, ty, name))
    (hl : l.kind = .lparen) (hparams : Formals us ps) (hr : r.kind = .rparen)
    (hs : s.ahead = ts ++ l :: (us ++ r :: vs))
    (hrest : ∀ rest : Stream, rest.ahead = vs →
      (functionRest ⟨pos, name, ty⟩ ps rest).Yields d tail) : (declaration s).Yields d tail := by
  unfold declaration
  refine (typedName_read hname hs _).andThen fun s₁ h₁ hs₁ => ?_
  obtain ⟨inner, hinner, haccept, hinside⟩ := Stream.accept?_of_ahead hs₁ hl
  dsimp only
  rw [haccept]
  refine (((formals_read hparams hinside hr).follow hinner).andThen fun s₂ h₂ hs₂ => ?_).within h₁
  refine ((Stream.expect_yields hs₂ hr _).follow h₂).andThen fun s₃ h₃ hs₃ => ?_
  exact (hrest s₃ hs₃).follow h₃

theorem declaration_read {ts tail : List Token} {d : Decl} {s : Stream} (h : Decl.Phrase ts d)
    (hs : s.ahead = ts ++ tail) : (declaration s).Yields d tail := by
  cases h with
  | var hvar =>
    obtain @⟨semi, ts, us, pos, ty, name, size?, hname, hsize, hsemi⟩ := hvar
    rw [List.append_assoc, List.append_assoc, List.singleton_append] at hs
    unfold declaration
    refine (typedName_read hname hs _).andThen fun s₁ h₁ hs₁ => ?_
    -- a size or a semicolon is no parenthesis
    have hat : s₁.accept? .lparen = none := by
      cases hsize with
      | none => exact Stream.accept?_of_other hs₁ (by simp [hsemi])
      | some hl => exact Stream.accept?_of_other hs₁ (by simp [hl])
    dsimp only
    rw [hat]
    exact (varRest_read hsize hs₁ hsemi _ _ _).follow h₁
  | prototype hname hl hparams hr hsemi =>
    rw [List.append_assoc, List.cons_append, List.append_assoc] at hs
    refine declaration_formals hname hl hparams hr hs fun rest hrest => ?_
    obtain ⟨after, hafter, hend, hahead⟩ := Stream.accept?_of_ahead hrest hsemi
    unfold functionRest
    rw [hend]
    exact (yields_ok hahead).loosen
  | function hname hl hparams hr hbody =>
    rw [List.append_assoc, List.cons_append, List.append_assoc, List.cons_append] at hs
    refine declaration_formals hname hl hparams hr hs fun rest hrest => ?_
    have hat : rest.accept? .semicolon = none := by
      cases hbody with
      | mk hopen => exact Stream.accept?_of_other hrest (by simp [hopen])
    unfold functionRest
    rw [hat]
    refine ((body_read hbody hrest).andThen fun after hafter hahead => ?_).loosen
    exact yields_ok hahead

/-- A declaration starts with the name of a type. -/
theorem decl_head {ts : List Token} {d : Decl} (h : Decl.Phrase ts d) :
    ∃ t rest, ts = t :: rest ∧ t.kind = .keyword := by
  obtain ⟨us, v, rest, rfl, hname⟩ : ∃ us v rest, ts = us ++ rest ∧ TypedName us v := by
    cases h with
    | var hvar =>
      obtain ⟨hname, -⟩ := hvar
      exact ⟨_, _, _, rfl, hname⟩
    | prototype hname => exact ⟨_, _, _, rfl, hname⟩
    | function hname => exact ⟨_, _, _, rfl, hname⟩
  obtain ⟨t, rest', rfl, hkeyword, -⟩ := typedName_head hname
  exact ⟨t, _, rfl, hkeyword⟩

theorem declarations_read {ts : List Token} {ds : List Decl} (h : Series Decl.Phrase ts ds) :
    ∀ {s : Stream} {e : Token} {tail : List Token}, s.ahead = ts ++ e :: tail → e.kind = .eof →
      (declarations s).Yields ds (e :: tail) := by
  induction h with
  | nil =>
    intro s e tail hs he
    rw [declarations, Stream.here_of_ahead hs, Stream.isAt_of_ahead hs, decide_eq_true he,
      if_pos (by rfl)]
    exact yields_done hs
  | cons hd _ ih =>
    intro s e tail hs he
    rw [List.append_assoc] at hs
    have hread := declaration_read hd hs
    obtain ⟨t, rest, rfl, hkeyword⟩ := decl_head hd
    have hstop : (s.here.isNone || s.isAt .eof) = false := by
      rw [Stream.here_of_ahead hs, Stream.isAt_of_ahead hs, hkeyword]
      rfl
    rw [declarations, hstop, if_neg Bool.false_ne_true]
    refine (hread.andThen fun s₁ h₁ hs₁ => ?_).loosen
    refine ((ih hs₁ he).follow h₁).andThen fun s₂ h₂ hs₂ => ?_
    exact yields_ok hs₂

/-- The tokens of a program, up to an end of input, are read as the program. -/
theorem program_of_phrase {ts tail : List Token} {e : Token} {p : Program}
    (h : Program.Phrase ts p) (he : e.kind = .eof) : program (ts ++ e :: tail) = .ok p := by
  obtain ⟨s, hsize, hread, -⟩ := declarations_read h (s := .ofTokens (ts ++ e :: tail)) rfl he
  unfold program
  rw [hread]

/-- The tokens before the first end of input. -/
theorem takeWhile_eof {ts tail : List Token} {e : Token} (hts : ∀ t ∈ ts, t.kind ≠ .eof)
    (he : e.kind = .eof) : (ts ++ e :: tail).takeWhile (fun t => decide (t.kind ≠ .eof)) = ts := by
  rw [List.takeWhile_append_of_pos fun t ht => decide_eq_true (hts t ht),
    List.takeWhile_cons_of_neg (by rw [he]; decide), List.append_nil]

/-- Of a list that ends with the end of input, the tokens before the first end of input stand for
    the program that the parser makes. -/
theorem phrase_of_program {tokens : List Token} {p : Program}
    (hended : ∃ e, tokens.getLast? = some e ∧ e.kind = .eof) (h : program tokens = .ok p) :
    Program.Phrase (tokens.takeWhile fun t => decide (t.kind ≠ .eof)) p := by
  have hstream : (Stream.ofTokens tokens).Ended := hended
  have houtcome := declarations_outcome _ hstream
  unfold program at h
  cases hread : declarations (.ofTokens tokens) with
  | error f =>
    rw [hread] at h
    cases h
  | ok q =>
    rw [hread] at h houtcome
    cases h
    obtain ⟨us, hahead, hus, hphrase⟩ := houtcome
    -- the reading stopped at an end of input, the first one
    obtain ⟨t, rest, hrest⟩ := (hstream.past hahead hus).head
    have hstop := declarations_stop _ q hread
    dsimp only at hstop
    rw [Stream.here_of_ahead hrest, Stream.isAt_of_ahead hrest, Option.isNone_some,
      Bool.false_or, decide_eq_true_iff] at hstop
    have hsame : tokens = us ++ t :: rest := hrest ▸ hahead
    have hbefore : tokens.takeWhile (fun t => decide (t.kind ≠ .eof)) = us := by
      rw [hsame, takeWhile_eof hus hstop]
    exact hbefore ▸ hphrase

/-- **What the parser reads.** Of the tokens before an end of input, the parser makes a program if
    and only if they stand for it. -/
theorem program_eq_ok_iff {ts : List Token} {e : Token} (hts : ∀ t ∈ ts, t.kind ≠ .eof)
    (he : e.kind = .eof) {p : Program} :
    program (ts ++ [e]) = .ok p ↔ Program.Phrase ts p := by
  constructor
  · intro h
    have hphrase := phrase_of_program ⟨e, List.getLast?_concat, he⟩ h
    rwa [takeWhile_eof hts he] at hphrase
  · intro h
    exact program_of_phrase h he

end Parse

end CMinusMinus
