/-
  File:      CMinusMinus/Proofs/Spans.lean
  Subject:   Which tokens each tree of a program was read from, and where its position points.

  The SPAN of a tree is the run of tokens that it was read from. The rules below give the spans of
  all trees within a program, one rule for each form of the language. They look at the kinds and
  texts of tokens only; the positions that the trees carry are left open. Parentheses around an
  expression make no tree, so its span does not hold them.

  A tree POINTS to its first token. An expression may start with parentheses around one of its
  parts; it points to the first token behind them, which is the operator of a unary expression, the
  name of a call, or where its left part or its array points.

  * `Tree`, `Program.trees` -- all trees within a program;
  * `Expr.Spans`, `Stmt.Spans`, `Block.Spans`, `Decl.Spans` -- their spans;
  * `Site.Points` -- where a tree points;
  * `Program.Phrase.sited` -- **in what the parser reads, all trees have spans and point into
    them.**
-/
import CMinusMinus.Proofs.Recognition

namespace CMinusMinus

/-! ## 1. Trees within trees -/

/-- A tree of the language. -/
inductive Tree where
  | expr (e : Expr)
  | stmt (st : Stmt)
  | block (b : Block)
  | decl (d : Decl)

/-- The position of a statement. -/
def Stmt.pos : Stmt → Position
  | .assign pos _ _ | .ifThen pos _ _ | .ifElse pos _ _ _ | .whileLoop pos _ _
  | .forLoop pos _ _ _ _ | .call pos _ | .ret pos _ => pos
  | .misplaced _ | .missing _ _ => {}

/-- The position of a declaration. -/
def Decl.pos : Decl → Position
  | .variable pos _ _ | .parameter pos _ _ => pos
  | .prototype head _ | .function head _ _ => head.pos
  | .misplaced _ => {}

/-- The position of a tree. -/
def Tree.pos : Tree → Position
  | .expr e => e.pos
  | .stmt st => st.pos
  | .block b => b.pos
  | .decl d => d.pos

mutual

/-- The trees within an expression, itself first. -/
def Expr.trees : Expr → List Tree
  | .int pos v => [.expr (.int pos v)]
  | .str pos text => [.expr (.str pos text)]
  | .var pos name => [.expr (.var pos name)]
  | .index pos array i => .expr (.index pos array i) :: (array.trees ++ i.trees)
  | .call pos name args => .expr (.call pos name args) :: Expr.allTrees args
  | .unary pos op e => .expr (.unary pos op e) :: e.trees
  | .binary pos op left right => .expr (.binary pos op left right) :: (left.trees ++ right.trees)
  | .nameless kind args => .expr (.nameless kind args) :: Expr.allTrees args
  | .misplaced kind => [.expr (.misplaced kind)]

/-- The trees within expressions. -/
def Expr.allTrees : List Expr → List Tree
  | [] => []
  | e :: es => e.trees ++ Expr.allTrees es

end

mutual

/-- The trees within a declaration, itself first. -/
def Decl.trees : Decl → List Tree
  | .variable pos name ty => [.decl (.variable pos name ty)]
  | .parameter pos name ty => [.decl (.parameter pos name ty)]
  | .prototype head params => .decl (.prototype head params) :: Decl.allTrees params
  | .function head params body =>
      .decl (.function head params body) :: (Decl.allTrees params ++ body.trees)
  | .misplaced kind => [.decl (.misplaced kind)]

/-- The trees within declarations. -/
def Decl.allTrees : List Decl → List Tree
  | [] => []
  | d :: ds => d.trees ++ Decl.allTrees ds

/-- The trees within a statement, itself first. -/
def Stmt.trees : Stmt → List Tree
  | .assign pos target value => .stmt (.assign pos target value) :: (target.trees ++ value.trees)
  | .ifThen pos cond body => .stmt (.ifThen pos cond body) :: (cond.trees ++ body.trees)
  | .ifElse pos cond yes no =>
      .stmt (.ifElse pos cond yes no) :: (cond.trees ++ (yes.trees ++ no.trees))
  | .whileLoop pos cond body => .stmt (.whileLoop pos cond body) :: (cond.trees ++ body.trees)
  | .forLoop pos init cond step body =>
      .stmt (.forLoop pos init cond step body) ::
        ((init.trees ++ (cond.trees ++ step.trees)) ++ body.trees)
  | .call pos e => .stmt (.call pos e) :: e.trees
  | .ret pos none => [.stmt (.ret pos none)]
  | .ret pos (some e) => .stmt (.ret pos (some e)) :: e.trees
  | .misplaced kind => [.stmt (.misplaced kind)]
  | .missing kind part => [.stmt (.missing kind part)]

/-- The trees within a block, itself first. -/
def Block.trees : Block → List Tree
  | .mk pos ds sts => .block (.mk pos ds sts) :: (Decl.allTrees ds ++ Stmt.allTrees sts)

/-- The trees within statements. -/
def Stmt.allTrees : List Stmt → List Tree
  | [] => []
  | st :: sts => st.trees ++ Stmt.allTrees sts

end

/-- All trees within a program. -/
def Program.trees (p : Program) : List Tree := Decl.allTrees p.decls

/-! ## 2. Spans -/

/-- A tree and the tokens that it was read from. -/
structure Site where
  tree : Tree
  span : List Token

/-- One after the other. -/
inductive InSequence {α : Type} (R : List Token → α → List Site → Prop) :
    List Token → List α → List Site → Prop where
  | nil : InSequence R [] [] []
  | cons {ts us : List Token} {a : α} {as : List α} {ss rs : List Site} (h : R ts a ss)
      (hs : InSequence R us as rs) : InSequence R (ts ++ us) (a :: as) (ss ++ rs)

/-- With commas between them, one at least. -/
inductive WithCommas {α : Type} (R : List Token → α → List Site → Prop) :
    List Token → List α → List Site → Prop where
  | one {ts : List Token} {a : α} {ss : List Site} (h : R ts a ss) : WithCommas R ts [a] ss
  | more {c : Token} {ts us : List Token} {a : α} {as : List α} {ss rs : List Site}
      (h : R ts a ss) (hc : c.kind = .comma) (hs : WithCommas R us as rs) :
      WithCommas R (ts ++ c :: us) (a :: as) (ss ++ rs)

/-- With commas between them, or none at all. -/
inductive Listed {α : Type} (R : List Token → α → List Site → Prop) :
    List Token → List α → List Site → Prop where
  | none : Listed R [] [] []
  | some {ts : List Token} {as : List α} {ss : List Site} (h : WithCommas R ts as ss) :
      Listed R ts as ss

mutual

/-- The tokens of an expression, parentheses around it included, and the sites within it. -/
inductive Expr.Spans : List Token → Expr → List Site → Prop where
  | bare {ts : List Token} {e : Expr} {ss : List Site} (h : Expr.Parts ts e ss) :
      Expr.Spans ts e (⟨.expr e, ts⟩ :: ss)
  | group {l r : Token} {ts : List Token} {e : Expr} {ss : List Site} (hl : l.kind = .lparen)
      (h : Expr.Spans ts e ss) (hr : r.kind = .rparen) : Expr.Spans (l :: (ts ++ [r])) e ss

/-- The tokens of an expression without parentheses around it, and the sites within its parts. -/
inductive Expr.Parts : List Token → Expr → List Site → Prop where
  | name {t : Token} {pos : Position} (ht : t.kind = .identifier) :
      Expr.Parts [t] (.var pos t.text) []
  | number {t : Token} {pos : Position} {v : Int} (ht : t.kind = .number)
      (hv : Text.readInt t.text.toList = .ok v) : Expr.Parts [t] (.int pos v) []
  | string {t : Token} {pos : Position} (ht : t.kind = .string) :
      Expr.Parts [t] (.str pos t.text) []
  | call {t l r : Token} {pos : Position} {ts : List Token} {es : List Expr} {ss : List Site}
      (ht : t.kind = .identifier) (hl : l.kind = .lparen) (hargs : Listed Expr.Spans ts es ss)
      (hr : r.kind = .rparen) : Expr.Parts (t :: l :: (ts ++ [r])) (.call pos t.text es) ss
  | index {l r : Token} {pos : Position} {ts us : List Token} {array i : Expr}
      {ss rs : List Site} (ha : Expr.Spans ts array ss) (hl : l.kind = .lbracket)
      (hi : Expr.Spans us i rs) (hr : r.kind = .rbracket) :
      Expr.Parts (ts ++ l :: (us ++ [r])) (.index pos array i) (ss ++ rs)
  | unary {t : Token} {pos : Position} {ts : List Token} {e : Expr} {ss : List Site}
      (ht : t.kind.isUnary = true) (he : Expr.Spans ts e ss) :
      Expr.Parts (t :: ts) (.unary pos (.ofText t.text) e) ss
  | binary {n : Nat} {t : Token} {pos : Position} {ts us : List Token} {left right : Expr}
      {ss rs : List Site} (hleft : Expr.Spans ts left ss) (ht : t.kind.level? = some n)
      (hright : Expr.Spans us right rs) :
      Expr.Parts (ts ++ t :: us) (.binary pos (.ofText t.text) left right) (ss ++ rs)

end

/-- The tokens of the declaration of a variable, and its site. -/
inductive Variable.Spans : List Token → Decl → List Site → Prop where
  | mk {semi : Token} {ts us : List Token} {start pos : Position} {ty : Ty} {name : String}
      {size? : Option Int} (hname : TypedName ts (start, ty, name)) (hsize : Extent us size?)
      (hsemi : semi.kind = .semicolon) :
      Variable.Spans (ts ++ (us ++ [semi])) (.variable pos name { ty with extent := size? })
        [⟨.decl (.variable pos name { ty with extent := size? }), ts ++ (us ++ [semi])⟩]

/-- The tokens of a parameter, and its site. -/
inductive Parameter.Spans : List Token → Decl → List Site → Prop where
  | mk {ts : List Token} {start pos : Position} {ty : Ty} {name : String}
      (h : TypedName ts (start, ty, name)) :
      Parameter.Spans ts (.parameter pos name ty) [⟨.decl (.parameter pos name ty), ts⟩]

/-- The tokens of a condition with the parentheses that belong to its statement. -/
inductive Condition.Spans : List Token → Expr → List Site → Prop where
  | mk {l r : Token} {ts : List Token} {e : Expr} {ss : List Site} (hl : l.kind = .lparen)
      (h : Expr.Spans ts e ss) (hr : r.kind = .rparen) : Condition.Spans (l :: (ts ++ [r])) e ss

mutual

/-- The tokens of a statement, with its semicolon if it has one, and the sites within it. -/
inductive Stmt.Spans : List Token → Stmt → List Site → Prop where
  | plain {ts : List Token} {st : Stmt} {ss : List Site} (h : Stmt.Parts ts st ss) :
      Stmt.Spans ts st (⟨.stmt st, ts⟩ :: ss)
  | ended {semi : Token} {ts : List Token} {st : Stmt} {ss : List Site} (h : Stmt.Parts ts st ss)
      (hsemi : semi.kind = .semicolon) :
      Stmt.Spans (ts ++ [semi]) st (⟨.stmt st, ts ++ [semi]⟩ :: ss)

/-- The tokens of a statement without a semicolon, and the sites within its parts. -/
inductive Stmt.Parts : List Token → Stmt → List Site → Prop where
  | assign {a : Token} {pos : Position} {ts us : List Token} {target value : Expr}
      {ss rs : List Site} (htarget : Expr.Spans ts target ss) (ha : a.kind = .assign)
      (hvalue : Expr.Spans us value rs) :
      Stmt.Parts (ts ++ a :: us) (.assign pos target value) (ss ++ rs)
  | call {pos : Position} {ts : List Token} {e : Expr} {ss : List Site}
      (he : Expr.Spans ts e ss) : Stmt.Parts ts (.call pos e) ss
  | retNone {t : Token} {pos : Position} (ht : t.IsWord "return") :
      Stmt.Parts [t] (.ret pos none) []
  | retSome {t : Token} {pos : Position} {ts : List Token} {e : Expr} {ss : List Site}
      (ht : t.IsWord "return") (he : Expr.Spans ts e ss) :
      Stmt.Parts (t :: ts) (.ret pos (some e)) ss
  | ifThen {t : Token} {pos : Position} {ts us : List Token} {cond : Expr} {yes : Block}
      {ss rs : List Site} (ht : t.IsWord "if") (hcond : Condition.Spans ts cond ss)
      (hyes : Block.Spans us yes rs) :
      Stmt.Parts (t :: (ts ++ us)) (.ifThen pos cond yes) (ss ++ rs)
  | ifElse {t w : Token} {pos : Position} {ts us vs : List Token} {cond : Expr} {yes no : Block}
      {ss rs qs : List Site} (ht : t.IsWord "if") (hcond : Condition.Spans ts cond ss)
      (hyes : Block.Spans us yes rs) (hw : w.IsWord "else") (hno : Block.Spans vs no qs) :
      Stmt.Parts (t :: (ts ++ (us ++ w :: vs))) (.ifElse pos cond yes no) (ss ++ (rs ++ qs))
  | whileLoop {t : Token} {pos : Position} {ts us : List Token} {cond : Expr} {body : Block}
      {ss rs : List Site} (ht : t.IsWord "while") (hcond : Condition.Spans ts cond ss)
      (hbody : Block.Spans us body rs) :
      Stmt.Parts (t :: (ts ++ us)) (.whileLoop pos cond body) (ss ++ rs)
  | forLoop {t l s₁ s₂ r : Token} {pos : Position} {ts us vs ws : List Token} {init step : Stmt}
      {cond : Expr} {body : Block} {ss rs qs os : List Site} (ht : t.IsWord "for")
      (hl : l.kind = .lparen) (hinit : Stmt.Spans ts init ss) (h₁ : s₁.kind = .semicolon)
      (hcond : Expr.Spans us cond rs) (h₂ : s₂.kind = .semicolon) (hstep : Stmt.Spans vs step qs)
      (hr : r.kind = .rparen) (hbody : Block.Spans ws body os) :
      Stmt.Parts (t :: ((l :: (ts ++ s₁ :: (us ++ s₂ :: (vs ++ [r])))) ++ ws))
        (.forLoop pos init cond step body) ((ss ++ (rs ++ qs)) ++ os)

/-- The tokens of a block, and the sites within it. -/
inductive Block.Spans : List Token → Block → List Site → Prop where
  | mk {l r : Token} {pos : Position} {ts us : List Token} {ds : List Decl} {sts : List Stmt}
      {ss rs : List Site} (hl : l.kind = .lbrace) (hds : InSequence Variable.Spans ts ds ss)
      (hsts : InSequence Stmt.Spans us sts rs) (hr : r.kind = .rbrace) :
      Block.Spans (l :: (ts ++ (us ++ [r]))) (.mk pos ds sts)
        (⟨.block (.mk pos ds sts), l :: (ts ++ (us ++ [r]))⟩ :: (ss ++ rs))

end

/-- The tokens of a declaration at the top of a program, and the sites within it. -/
inductive Decl.Spans : List Token → Decl → List Site → Prop where
  | var {ts : List Token} {d : Decl} {ss : List Site} (h : Variable.Spans ts d ss) :
      Decl.Spans ts d ss
  | prototype {l r semi : Token} {ts us : List Token} {start pos : Position} {ty : Ty}
      {name : String} {params : List Decl} {ss : List Site}
      (hname : TypedName ts (start, ty, name)) (hl : l.kind = .lparen)
      (hparams : Listed Parameter.Spans us params ss) (hr : r.kind = .rparen)
      (hsemi : semi.kind = .semicolon) :
      Decl.Spans (ts ++ l :: (us ++ [r, semi])) (.prototype ⟨pos, name, ty⟩ params)
        (⟨.decl (.prototype ⟨pos, name, ty⟩ params), ts ++ l :: (us ++ [r, semi])⟩ :: ss)
  | function {l r : Token} {ts us vs : List Token} {start pos : Position} {ty : Ty}
      {name : String} {params : List Decl} {body : Block} {ss rs : List Site}
      (hname : TypedName ts (start, ty, name)) (hl : l.kind = .lparen)
      (hparams : Listed Parameter.Spans us params ss) (hr : r.kind = .rparen)
      (hbody : Block.Spans vs body rs) :
      Decl.Spans (ts ++ l :: (us ++ r :: vs)) (.function ⟨pos, name, ty⟩ params body)
        (⟨.decl (.function ⟨pos, name, ty⟩ params body), ts ++ l :: (us ++ r :: vs)⟩ ::
          (ss ++ rs))

/-- **The tokens of a program, and the sites of all trees within it.** -/
def Program.Spans (p : Program) (ts : List Token) (ss : List Site) : Prop :=
  InSequence Decl.Spans ts p.decls ss

/-! ## 3. Pointing -/

/-- The token is no opening parenthesis. -/
def Token.isPlain (t : Token) : Bool := decide (t.kind ≠ .lparen)

/-- The expression has the position of the token, and the token is the one that it starts with: its
    name or literal, its operator if it is unary, else where its left part or its array starts. -/
def Expr.StartsAt (t : Token) : Expr → Prop
  | .int pos v => pos = t.pos ∧ t.kind = .number ∧ Text.readInt t.text.toList = .ok v
  | .str pos text => pos = t.pos ∧ t.kind = .string ∧ t.text = text
  | .var pos name => pos = t.pos ∧ t.kind = .identifier ∧ t.text = name
  | .index pos array _ => pos = t.pos ∧ array.StartsAt t
  | .call pos name _ => pos = t.pos ∧ t.kind = .identifier ∧ t.text = name
  | .unary pos op _ => pos = t.pos ∧ t.kind.isUnary = true ∧ op = .ofText t.text
  | .binary pos _ left _ => pos = t.pos ∧ left.StartsAt t
  | .nameless _ _ | .misplaced _ => False

/-- **Where a tree points.** An expression points to the first token of its span that is no opening
    parenthesis, all other trees to the first token of theirs. -/
def Site.Points (site : Site) : Prop :=
  match site.tree with
  | .expr e => ∃ t, site.span.find? Token.isPlain = some t ∧ e.StartsAt t
  | tree => ∃ t, site.span.head? = some t ∧ tree.pos = t.pos

theorem Expr.StartsAt.pos_eq {t : Token} : ∀ {e : Expr}, e.StartsAt t → e.pos = t.pos
  | .int _ _, h | .str _ _, h | .var _ _, h | .index _ _ _, h | .call _ _ _, h | .unary _ _ _, h
  | .binary _ _ _ _, h => h.1
  | .nameless _ _, h | .misplaced _, h => h.elim

theorem Token.isPlain_of_kind {t : Token} {k : TokenKind} (h : t.kind = k) (hk : k ≠ .lparen) :
    t.isPlain = true := decide_eq_true (h ▸ hk)

theorem Token.isPlain_of_unary {t : Token} (h : t.kind.isUnary = true) : t.isPlain = true := by
  refine decide_eq_true fun hk => ?_
  rw [hk] at h
  cases h

/-- **An expression starts at the first token that is no opening parenthesis.** -/
theorem Phrase.startsAt : ∀ {n : Nat} {ts : List Token} {e : Expr}, Phrase n ts e →
    ∃ t, ts.find? Token.isPlain = some t ∧ e.StartsAt t
  | _, _, _, .looser h => h.startsAt
  | _, _, _, .name ht =>
      ⟨_, List.find?_cons_of_pos (Token.isPlain_of_kind ht (by decide)), rfl, ht, rfl⟩
  | _, _, _, .number ht hv =>
      ⟨_, List.find?_cons_of_pos (Token.isPlain_of_kind ht (by decide)), rfl, ht, hv⟩
  | _, _, _, .string ht =>
      ⟨_, List.find?_cons_of_pos (Token.isPlain_of_kind ht (by decide)), rfl, ht, rfl⟩
  | _, _, _, .call ht _ _ _ =>
      ⟨_, List.find?_cons_of_pos (Token.isPlain_of_kind ht (by decide)), rfl, ht, rfl⟩
  | _, _, _, .group hl he _ => by
      obtain ⟨t, hfind, hstarts⟩ := he.startsAt
      refine ⟨t, ?_, hstarts⟩
      rw [List.find?_cons_of_neg (by simp [Token.isPlain, hl]), List.find?_append, hfind]
      rfl
  | _, _, _, .index ha _ _ _ => by
      obtain ⟨t, hfind, hstarts⟩ := ha.startsAt
      exact ⟨t, by rw [List.find?_append, hfind]; rfl, hstarts.pos_eq, hstarts⟩
  | _, _, _, .unary ht _ =>
      ⟨_, List.find?_cons_of_pos (Token.isPlain_of_unary ht), rfl, ht, rfl⟩
  | _, _, _, .binary hleft _ _ => by
      obtain ⟨t, hfind, hstarts⟩ := hleft.startsAt
      exact ⟨t, by rw [List.find?_append, hfind]; rfl, hstarts.pos_eq, hstarts⟩

/-! ## 4. Sites that point -/

/-- The sites of the trees: their spans are parts of the tokens, and they point into them. -/
structure Sited (ts : List Token) (trees : List Tree) (ss : List Site) : Prop where
  trees_eq : ss.map Site.tree = trees
  inside : ∀ site ∈ ss, site.span <:+: ts
  points : ∀ site ∈ ss, site.Points

namespace Sited

variable {ts us : List Token} {trees trees' : List Tree} {ss rs : List Site}

theorem nil (ts : List Token) : Sited ts [] [] where
  trees_eq := rfl
  inside _ h := absurd h List.not_mem_nil
  points _ h := absurd h List.not_mem_nil

/-- A tree whose span is all of the tokens comes before the trees within it. -/
theorem own {tree : Tree} (h : Sited ts trees ss) (hpoints : Site.Points ⟨tree, ts⟩) :
    Sited ts (tree :: trees) (⟨tree, ts⟩ :: ss) where
  trees_eq := congrArg (tree :: ·) h.trees_eq
  inside := List.forall_mem_cons.mpr ⟨List.infix_rfl, h.inside⟩
  points := List.forall_mem_cons.mpr ⟨hpoints, h.points⟩

theorem within (h : Sited ts trees ss) (hsub : ts <:+: us) : Sited us trees ss where
  trees_eq := h.trees_eq
  inside site hsite := (h.inside site hsite).trans hsub
  points := h.points

theorem cons (h : Sited ts trees ss) (t : Token) : Sited (t :: ts) trees ss :=
  h.within (List.suffix_cons t ts).isInfix

theorem behind (h : Sited ts trees ss) (us : List Token) : Sited (us ++ ts) trees ss :=
  h.within (List.suffix_append us ts).isInfix

theorem before (h : Sited ts trees ss) (us : List Token) : Sited (ts ++ us) trees ss :=
  h.within (List.prefix_append ts us).isInfix

theorem append (h : Sited ts trees ss) (h' : Sited us trees' rs) :
    Sited (ts ++ us) (trees ++ trees') (ss ++ rs) where
  trees_eq := by rw [List.map_append, h.trees_eq, h'.trees_eq]
  inside := List.forall_mem_append.mpr ⟨(h.before us).inside, (h'.behind ts).inside⟩
  points := List.forall_mem_append.mpr ⟨h.points, h'.points⟩

end Sited

mutual

/-- **All trees within an expression have spans, and they point into them.** -/
theorem Phrase.sited : ∀ {n : Nat} {ts : List Token} {e : Expr}, Phrase n ts e →
    ∃ ss, Expr.Spans ts e ss ∧ Sited ts e.trees ss
  | _, _, _, .name ht => ⟨_, .bare (.name ht), (Sited.nil _).own (Phrase.name ht).startsAt⟩
  | _, _, _, .number ht hv =>
      ⟨_, .bare (.number ht hv), (Sited.nil _).own (Phrase.number ht hv).startsAt⟩
  | _, _, _, .string ht => ⟨_, .bare (.string ht), (Sited.nil _).own (Phrase.string ht).startsAt⟩
  | _, _, _, .call ht hl hargs hr => by
      obtain ⟨ss, hspans, hsited⟩ := hargs.sited
      exact ⟨_, .bare (.call ht hl hspans hr),
        (((hsited.before _).cons _).cons _).own (Phrase.call ht hl hargs hr).startsAt⟩
  | _, _, _, .group hl he hr => by
      obtain ⟨ss, hspans, hsited⟩ := he.sited
      exact ⟨ss, .group hl hspans hr, (hsited.before _).cons _⟩
  | _, _, _, .index ha hl hi hr => by
      obtain ⟨ss, harray, hsited⟩ := ha.sited
      obtain ⟨rs, hindex, hsited'⟩ := hi.sited
      exact ⟨_, .bare (.index harray hl hindex hr),
        (hsited.append ((hsited'.before _).cons _)).own (Phrase.index ha hl hi hr).startsAt⟩
  | _, _, _, .unary ht he => by
      obtain ⟨ss, hspans, hsited⟩ := he.sited
      exact ⟨_, .bare (.unary ht hspans), (hsited.cons _).own (Phrase.unary ht he).startsAt⟩
  | _, _, _, .binary hleft ht hright => by
      obtain ⟨ss, hspans, hsited⟩ := hleft.sited
      obtain ⟨rs, hspans', hsited'⟩ := hright.sited
      exact ⟨_, .bare (.binary hspans ht hspans'),
        (hsited.append (hsited'.cons _)).own (Phrase.binary hleft ht hright).startsAt⟩
  | _, _, _, .looser h => h.sited

theorem Arguments.sited : ∀ {ts : List Token} {es : List Expr}, Arguments ts es →
    ∃ ss, Listed Expr.Spans ts es ss ∧ Sited ts (Expr.allTrees es) ss
  | _, _, .none => ⟨[], .none, .nil _⟩
  | _, _, .some he hes => by
      obtain ⟨ss, hspans, hsited⟩ := hes.sited he.sited
      exact ⟨ss, .some hspans, hsited⟩

/-- Arguments behind a first one. -/
theorem MoreArguments.sited : ∀ {us : List Token} {es : List Expr}, MoreArguments us es →
    ∀ {ts : List Token} {e : Expr}, (∃ ss, Expr.Spans ts e ss ∧ Sited ts e.trees ss) →
      ∃ ss, WithCommas Expr.Spans (ts ++ us) (e :: es) ss ∧
        Sited (ts ++ us) (Expr.allTrees (e :: es)) ss
  | _, _, .none, _, _, hfirst => by
      obtain ⟨ss, hspans, hsited⟩ := hfirst
      rw [List.append_nil, Expr.allTrees, Expr.allTrees, List.append_nil]
      exact ⟨ss, .one hspans, hsited⟩
  | _, _, .some hc he hes, _, _, hfirst => by
      obtain ⟨ss, hspans, hsited⟩ := hfirst
      obtain ⟨rs, hspans', hsited'⟩ := hes.sited he.sited
      exact ⟨ss ++ rs, .more hspans hc hspans', hsited.append (hsited'.cons _)⟩

end

/-! ## 5. Declarations and statements -/

/-- A series of phrases, if each of them has its sites. -/
theorem Series.sited {P : List Token → Decl → Prop} {R : List Token → Decl → List Site → Prop}
    (h : ∀ {ts : List Token} {d : Decl}, P ts d → ∃ ss, R ts d ss ∧ Sited ts d.trees ss)
    {ts : List Token} {ds : List Decl} (hds : Series P ts ds) :
    ∃ ss, InSequence R ts ds ss ∧ Sited ts (Decl.allTrees ds) ss := by
  induction hds with
  | nil => exact ⟨[], .nil, .nil _⟩
  | cons hd _ ih =>
    obtain ⟨ss, hspans, hsited⟩ := h hd
    obtain ⟨rs, hspans', hsited'⟩ := ih
    exact ⟨ss ++ rs, .cons hspans hspans', hsited.append hsited'⟩

/-- A type with a name begins at its position. -/
theorem TypedName.head {ts : List Token} {pos : Position} {ty : Ty} {name : String}
    (h : TypedName ts (pos, ty, name)) : ∃ t rest, ts = t :: rest ∧ pos = t.pos := by
  cases h with
  | mk hty hx =>
    cases hty with
    | mk ht hname hstars => exact ⟨_, _, rfl, rfl⟩

/-- A declaration points to the first token of its type. -/
theorem TypedName.points {ts : List Token} {pos : Position} {ty : Ty} {name : String}
    (h : TypedName ts (pos, ty, name)) {d : Decl} (hd : d.pos = pos) (us : List Token) :
    Site.Points ⟨.decl d, ts ++ us⟩ := by
  obtain ⟨t, rest, rfl, rfl⟩ := h.head
  exact ⟨t, rfl, hd⟩

theorem Variable.Phrase.sited {ts : List Token} {d : Decl} (h : Variable.Phrase ts d) :
    ∃ ss, Variable.Spans ts d ss ∧ Sited ts d.trees ss := by
  cases h with
  | mk hname hsize hsemi =>
    exact ⟨_, .mk hname hsize hsemi, (Sited.nil _).own (hname.points rfl _)⟩

theorem TypedName.sited {ts : List Token} {pos : Position} {ty : Ty} {name : String}
    (h : TypedName ts (pos, ty, name)) :
    ∃ ss, Parameter.Spans ts (.parameter pos name ty) ss ∧
      Sited ts (Decl.trees (.parameter pos name ty)) ss := by
  have hpoints := h.points (d := .parameter pos name ty) rfl []
  rw [List.append_nil] at hpoints
  exact ⟨_, .mk h, (Sited.nil _).own hpoints⟩

theorem Params.sited {ts : List Token} {ds : List Decl} (h : Params ts ds) :
    ∃ ss, WithCommas Parameter.Spans ts ds ss ∧ Sited ts (Decl.allTrees ds) ss := by
  induction h with
  | one h =>
    obtain ⟨ss, hspans, hsited⟩ := h.sited
    rw [Decl.allTrees, Decl.allTrees, List.append_nil]
    exact ⟨ss, .one hspans, hsited⟩
  | more h hc _ ih =>
    obtain ⟨ss, hspans, hsited⟩ := h.sited
    obtain ⟨rs, hspans', hsited'⟩ := ih
    exact ⟨ss ++ rs, .more hspans hc hspans', hsited.append (hsited'.cons _)⟩

theorem Formals.sited {ts : List Token} {ds : List Decl} (h : Formals ts ds) :
    ∃ ss, Listed Parameter.Spans ts ds ss ∧ Sited ts (Decl.allTrees ds) ss := by
  cases h with
  | none => exact ⟨[], .none, .nil _⟩
  | some h =>
    obtain ⟨ss, hspans, hsited⟩ := h.sited
    exact ⟨ss, .some hspans, hsited⟩

/-- The position of the first token is that of an expression's first token. -/
theorem Phrase.startOf {n : Nat} {ts : List Token} {e : Expr} (h : Phrase n ts e) :
    ∃ t rest, ts = t :: rest ∧ startOf ts = t.pos := by
  obtain ⟨t, rest, rfl, -, -⟩ := h.head
  exact ⟨t, rest, rfl, rfl⟩

/-- A clause points to its first token, and its parts have their sites. -/
theorem Clause.sited {ts : List Token} {st : Stmt} (h : Clause ts st) :
    (∃ t, ts.head? = some t ∧ st.pos = t.pos) ∧
      ∃ ss parts, st.trees = .stmt st :: parts ∧ Stmt.Parts ts st ss ∧ Sited ts parts ss := by
  cases h with
  | assign htarget _ ha hvalue =>
    obtain ⟨ss, hspans, hsited⟩ := htarget.sited
    obtain ⟨rs, hspans', hsited'⟩ := hvalue.sited
    obtain ⟨t, rest, rfl, hstart⟩ := htarget.startOf
    exact ⟨⟨t, rfl, hstart⟩, ss ++ rs, _, rfl, .assign hspans ha hspans',
      hsited.append (hsited'.cons _)⟩
  | call he _ =>
    obtain ⟨ss, hspans, hsited⟩ := he.sited
    obtain ⟨t, rest, rfl, hstart⟩ := he.startOf
    exact ⟨⟨t, rfl, hstart⟩, ss, _, rfl, .call hspans, hsited⟩

theorem Clause.sited_plain {ts : List Token} {st : Stmt} (h : Clause ts st) :
    ∃ ss, Stmt.Spans ts st ss ∧ Sited ts st.trees ss := by
  obtain ⟨hpoints, ss, parts, htrees, hparts, hsited⟩ := h.sited
  exact ⟨_, .plain hparts, htrees ▸ hsited.own hpoints⟩

theorem Clause.sited_ended {semi : Token} {ts : List Token} {st : Stmt} (h : Clause ts st)
    (hsemi : semi.kind = .semicolon) :
    ∃ ss, Stmt.Spans (ts ++ [semi]) st ss ∧ Sited (ts ++ [semi]) st.trees ss := by
  obtain ⟨⟨t, hhead, hpos⟩, ss, parts, htrees, hparts, hsited⟩ := h.sited
  refine ⟨_, .ended hparts hsemi, htrees ▸ (hsited.before _).own ⟨t, ?_, hpos⟩⟩
  dsimp only
  rw [List.head?_append, hhead]
  rfl

theorem Condition.sited {ts : List Token} {e : Expr} (h : Condition ts e) :
    ∃ ss, Condition.Spans ts e ss ∧ Sited ts e.trees ss := by
  cases h with
  | mk hl he hr =>
    obtain ⟨ss, hspans, hsited⟩ := he.sited
    exact ⟨ss, .mk hl hspans hr, (hsited.before _).cons _⟩

mutual

/-- **All trees within a statement have spans, and they point into them.** -/
theorem Stmt.Phrase.sited : ∀ {ts : List Token} {st : Stmt}, Stmt.Phrase ts st →
    ∃ ss, Stmt.Spans ts st ss ∧ Sited ts st.trees ss
  | _, _, .clause h hsemi => h.sited_ended hsemi
  | _, _, .retNone ht hsemi =>
      ⟨_, .ended (.retNone ht) hsemi, (Sited.nil _).own ⟨_, rfl, rfl⟩⟩
  | _, _, .retSome ht he hsemi => by
      obtain ⟨ss, hspans, hsited⟩ := he.sited
      exact ⟨_, .ended (.retSome ht hspans) hsemi,
        ((hsited.cons _).before _).own ⟨_, rfl, rfl⟩⟩
  | _, _, .ifThen ht hcond hyes => by
      obtain ⟨ss, hspans, hsited⟩ := hcond.sited
      obtain ⟨rs, hspans', hsited'⟩ := hyes.sited
      exact ⟨_, .plain (.ifThen ht hspans hspans'),
        ((hsited.append hsited').cons _).own ⟨_, rfl, rfl⟩⟩
  | _, _, .ifElse ht hcond hyes hw hno => by
      obtain ⟨ss, hspans, hsited⟩ := hcond.sited
      obtain ⟨rs, hspans', hsited'⟩ := hyes.sited
      obtain ⟨qs, hspans'', hsited''⟩ := hno.sited
      exact ⟨_, .plain (.ifElse ht hspans hspans' hw hspans''),
        ((hsited.append (hsited'.append (hsited''.cons _))).cons _).own ⟨_, rfl, rfl⟩⟩
  | _, _, .whileLoop ht hcond hbody => by
      obtain ⟨ss, hspans, hsited⟩ := hcond.sited
      obtain ⟨rs, hspans', hsited'⟩ := hbody.sited
      exact ⟨_, .plain (.whileLoop ht hspans hspans'),
        ((hsited.append hsited').cons _).own ⟨_, rfl, rfl⟩⟩
  | _, _, .forLoop ht (.mk hl hinit h₁ hcond h₂ hstep hr) hbody => by
      obtain ⟨ss, hspans, hsited⟩ := hinit.sited_plain
      obtain ⟨rs, hspans₁, hsited₁⟩ := hcond.sited
      obtain ⟨qs, hspans₂, hsited₂⟩ := hstep.sited_plain
      obtain ⟨os, hspans₃, hsited₃⟩ := hbody.sited
      refine ⟨_, .plain (.forLoop ht hl hspans h₁ hspans₁ h₂ hspans₂ hr hspans₃),
        ((Sited.append (.cons ?_ _) hsited₃).cons _).own ⟨_, rfl, rfl⟩⟩
      exact hsited.append ((hsited₁.append ((hsited₂.before _).cons _)).cons _)

theorem Block.Phrase.sited : ∀ {ts : List Token} {b : Block}, Block.Phrase ts b →
    ∃ ss, Block.Spans ts b ss ∧ Sited ts b.trees ss
  | _, _, .mk hl hds hsts hr => by
      obtain ⟨ss, hspans, hsited⟩ := hds.sited Variable.Phrase.sited
      obtain ⟨rs, hspans', hsited'⟩ := hsts.sited
      exact ⟨_, .mk hl hspans hspans' hr,
        ((hsited.append (hsited'.before _)).cons _).own ⟨_, rfl, rfl⟩⟩

theorem Stmt.Phrases.sited : ∀ {ts : List Token} {sts : List Stmt}, Stmt.Phrases ts sts →
    ∃ ss, InSequence Stmt.Spans ts sts ss ∧ Sited ts (Stmt.allTrees sts) ss
  | _, _, .nil => ⟨[], .nil, .nil _⟩
  | _, _, .cons h hs => by
      obtain ⟨ss, hspans, hsited⟩ := h.sited
      obtain ⟨rs, hspans', hsited'⟩ := hs.sited
      exact ⟨ss ++ rs, .cons hspans hspans', hsited.append hsited'⟩

end

theorem Decl.Phrase.sited {ts : List Token} {d : Decl} (h : Decl.Phrase ts d) :
    ∃ ss, Decl.Spans ts d ss ∧ Sited ts d.trees ss := by
  cases h with
  | var h =>
    obtain ⟨ss, hspans, hsited⟩ := h.sited
    exact ⟨ss, .var hspans, hsited⟩
  | prototype hname hl hparams hr hsemi =>
    obtain ⟨ss, hspans, hsited⟩ := hparams.sited
    exact ⟨_, .prototype hname hl hspans hr hsemi,
      (((hsited.before _).cons _).behind _).own (hname.points rfl _)⟩
  | function hname hl hparams hr hbody =>
    obtain ⟨ss, hspans, hsited⟩ := hparams.sited
    obtain ⟨rs, hspans', hsited'⟩ := hbody.sited
    exact ⟨_, .function hname hl hspans hr hspans',
      (((hsited.append (hsited'.cons _)).cons _).behind _).own (hname.points rfl _)⟩

/-- **All trees within a program have spans, and they point into them.** -/
theorem Program.Phrase.sited {ts : List Token} {p : Program} (h : Program.Phrase ts p) :
    ∃ ss, p.Spans ts ss ∧ Sited ts p.trees ss :=
  Series.sited Decl.Phrase.sited h

end CMinusMinus
