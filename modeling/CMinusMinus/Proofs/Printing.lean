/-
  File:      CMinusMinus/Proofs/Printing.lean
  Subject:   Programs written as tokens, and read back.

  The printer writes a tree as the kinds and texts of tokens. An expression is enclosed in
  parentheses where it holds together less tightly than its place asks for, and nowhere else: the
  left operand of an operator may have the operator's own rank, the right one must be tighter.

  Trees are compared without their positions, for what is read has those of the tokens.

  * `Expr.print`, `Stmt.print`, `Decl.print`, `Program.print` -- the printer;
  * `Program.writable` -- the trees that can be written: those of the shapes the parser makes;
  * `Program.placeless` -- a tree without its positions;
  * `Expr.print_stands`, `Stmt.print_stands`, `Decl.print_stands` -- what is printed stands for the
    tree it was made from.
-/
import CMinusMinus.Proofs.Numerals
import CMinusMinus.Proofs.Phrases
import CMinusMinus.Proofs.Spelling

namespace CMinusMinus

/-! ## 1. Tokens without a place -/

/-- The kind and the text of a token. -/
structure Lexeme where
  kind : TokenKind
  text : String
  deriving DecidableEq

/-- A token without its position. -/
def Token.lexeme (t : Token) : Lexeme := ⟨t.kind, t.text⟩

/-- The token of a kind that has only one spelling. -/
def sign (k : TokenKind) : Lexeme := ⟨k, k.sign?.getD ""⟩

/-- A keyword. -/
def word (text : String) : Lexeme := ⟨.keyword, text⟩

/-- The kind of an operator's token; one that the language does not know has none. -/
def UnaryOp.kind? : UnaryOp → Option TokenKind
  | .neg => some .minus
  | .not => some .bang
  | .address => some .ampersand
  | .deref => some .star
  | .other _ => none

/-- The kind of an operator's token; one that the language does not know has none. -/
def BinaryOp.kind? : BinaryOp → Option TokenKind
  | .arith .add => some .plus
  | .arith .sub => some .minus
  | .arith .mul => some .star
  | .arith .div => some .slash
  | .arith .mod => some .percent
  | .rel .lt => some .lt
  | .rel .gt => some .gt
  | .rel .le => some .lte
  | .rel .ge => some .gte
  | .rel .eq => some .eq
  | .rel .ne => some .neq
  | .and => some .land
  | .or => some .lor
  | .other _ => none

/-- The level of an operator. -/
def BinaryOp.level (op : BinaryOp) : Nat := (op.kind?.bind TokenKind.level?).getD 0

/-! ## 2. The printer -/

/-- How tightly an expression holds together without parentheses around it. -/
def Expr.rank : Expr → Nat
  | .index _ _ _ => 1
  | .unary _ _ _ => 2
  | .binary _ op _ _ => op.level + 2
  | _ => 0

/-- Parentheses around what holds together less tightly than its place asks for. -/
def enclose (rank place : Nat) (ls : List Lexeme) : List Lexeme :=
  if rank ≤ place then ls else sign .lparen :: (ls ++ [sign .rparen])

/-- The numeral of a number. -/
def numeral (v : Int) : Lexeme := ⟨.number, Nat.repr v.toNat⟩

mutual

/-- An expression without parentheses around it. -/
def Expr.plain : Expr → List Lexeme
  | .int _ v => [numeral v]
  | .str _ text => [⟨.string, text⟩]
  | .var _ name => [⟨.identifier, name⟩]
  | .index _ a i =>
      enclose a.rank 1 a.plain ++
        sign .lbracket :: (enclose i.rank wholeRank i.plain ++ [sign .rbracket])
  | .call _ name args =>
      ⟨.identifier, name⟩ :: sign .lparen :: (Expr.printArgs args ++ [sign .rparen])
  | .unary _ op e => ⟨op.kind?.getD .eof, op.text⟩ :: enclose e.rank 2 e.plain
  | .binary _ op left right =>
      enclose left.rank (op.level + 2) left.plain ++
        ⟨op.kind?.getD .eof, op.text⟩ :: enclose right.rank (op.level + 1) right.plain
  | .nameless _ _ | .misplaced _ => []

/-- The arguments of a call, with commas between them. -/
def Expr.printArgs : List Expr → List Lexeme
  | [] => []
  | e :: es => enclose e.rank wholeRank e.plain ++ Expr.printMore es

/-- The arguments after the first one, each with the comma before it. -/
def Expr.printMore : List Expr → List Lexeme
  | [] => []
  | e :: es => sign .comma :: (enclose e.rank wholeRank e.plain ++ Expr.printMore es)

end

/-- An expression in a place that asks for a rank. -/
def Expr.print (place : Nat) (e : Expr) : List Lexeme := enclose e.rank place e.plain

/-- Of `a - b - c` only the grouping to the right is written. -/
example (a b c : String) :
    let minus : Expr → Expr → Expr := .binary {} (.arith .sub)
    let x : Expr := .var {} a
    let y : Expr := .var {} b
    let z : Expr := .var {} c
    ((minus (minus x y) z).print wholeRank).map Lexeme.text = [a, "-", b, "-", c] ∧
      ((minus x (minus y z)).print wholeRank).map Lexeme.text = [a, "-", "(", b, "-", c, ")"] :=
  ⟨rfl, rfl⟩

/-- A base name and its stars. -/
def Ty.print (ty : Ty) : List Lexeme :=
  word ty.name :: List.replicate ty.pointers.toNat (sign .star)

/-- A type and a name. -/
def printTyped (ty : Ty) (name : String) : List Lexeme := ty.print ++ [⟨.identifier, name⟩]

/-- The size of an array in brackets. -/
def printExtent : Option Int → List Lexeme
  | none => []
  | some v => [sign .lbracket, numeral v, sign .rbracket]

/-- The declaration of a variable. -/
def Decl.printVariable : Decl → List Lexeme
  | .variable _ name ty => printTyped ty name ++ (printExtent ty.extent ++ [sign .semicolon])
  | _ => []

/-- A parameter. -/
def Decl.printParameter : Decl → List Lexeme
  | .parameter _ name ty => printTyped ty name
  | _ => []

/-- Parameters, with commas between them. -/
def printParams : List Decl → List Lexeme
  | [] => []
  | [d] => d.printParameter
  | d :: ds => d.printParameter ++ sign .comma :: printParams ds

/-- An assignment or a call, without a semicolon. -/
def Stmt.printClause : Stmt → List Lexeme
  | .assign _ target value => target.print 2 ++ sign .assign :: value.print wholeRank
  | .call _ e => e.print 2
  | _ => []

/-- A condition in parentheses. -/
def printCondition (cond : Expr) : List Lexeme :=
  sign .lparen :: (cond.print wholeRank ++ [sign .rparen])

/-- The three clauses of a `for`, in parentheses. -/
def printClauses (init : Stmt) (cond : Expr) (step : Stmt) : List Lexeme :=
  sign .lparen :: (init.printClause ++ sign .semicolon ::
    (cond.print wholeRank ++ sign .semicolon :: (step.printClause ++ [sign .rparen])))

mutual

/-- A statement. -/
def Stmt.print : Stmt → List Lexeme
  | .assign pos target value => (Stmt.assign pos target value).printClause ++ [sign .semicolon]
  | .call pos e => (Stmt.call pos e).printClause ++ [sign .semicolon]
  | .ret _ none => [word "return", sign .semicolon]
  | .ret _ (some e) => word "return" :: (e.print wholeRank ++ [sign .semicolon])
  | .ifThen _ cond yes => word "if" :: (printCondition cond ++ yes.print)
  | .ifElse _ cond yes no =>
      word "if" :: (printCondition cond ++ (yes.print ++ word "else" :: no.print))
  | .whileLoop _ cond body => word "while" :: (printCondition cond ++ body.print)
  | .forLoop _ init cond step body => word "for" :: (printClauses init cond step ++ body.print)
  | .misplaced _ | .missing _ _ => []

/-- A block. -/
def Block.print : Block → List Lexeme
  | .mk _ ds sts =>
      sign .lbrace :: (ds.flatMap Decl.printVariable ++ (Stmt.printAll sts ++ [sign .rbrace]))

/-- Statements, one after the other. -/
def Stmt.printAll : List Stmt → List Lexeme
  | [] => []
  | st :: sts => st.print ++ Stmt.printAll sts

end

/-- A declaration at the top of a program. -/
def Decl.print : Decl → List Lexeme
  | .prototype head params =>
      printTyped head.ret head.name ++
        sign .lparen :: (printParams params ++ [sign .rparen, sign .semicolon])
  | .function head params body =>
      printTyped head.ret head.name ++
        sign .lparen :: (printParams params ++ sign .rparen :: body.print)
  | d => d.printVariable

/-- **A program, with the end of input after it.** -/
def Program.print (p : Program) : List Lexeme := p.decls.flatMap Decl.print ++ [sign .eof]

/-! ## 3. The trees that can be written -/

/-- The number has a numeral that can be read. -/
def hasNumeral (v : Int) : Bool :=
  decide (0 ≤ v) && decide ((Nat.toDigits 10 v.toNat).length ≤ Text.digitLimit)

mutual

/-- The expression has no node out of place, no unknown operator, and numbers with numerals. -/
def Expr.writable : Expr → Bool
  | .int _ v => hasNumeral v
  | .str _ _ | .var _ _ => true
  | .index _ a i => a.writable && i.writable
  | .call _ _ args => Expr.allWritable args
  | .unary _ op e => op.kind?.isSome && e.writable
  | .binary _ op left right => op.kind?.isSome && left.writable && right.writable
  | .nameless _ _ | .misplaced _ => false

def Expr.allWritable : List Expr → Bool
  | [] => true
  | e :: es => e.writable && Expr.allWritable es

end

/-- The base name is one of the language's, and the depth is that of some stars. -/
def Ty.writable (ty : Ty) : Bool := decide (ty.name ∈ Ty.names) && decide (0 ≤ ty.pointers)

/-- A variable, which alone may be an array. -/
def Decl.writableVariable : Decl → Bool
  | .variable _ _ ty => ty.writable && ty.extent.all hasNumeral
  | _ => false

/-- A parameter. -/
def Decl.writableParameter : Decl → Bool
  | .parameter _ _ ty => ty.writable && ty.extent.isNone
  | _ => false

/-- An assignment to a location or a call. -/
def Stmt.writableClause : Stmt → Bool
  | .assign _ target value => target.isLocation && target.writable && value.writable
  | .call _ e => e.isCall && e.writable
  | _ => false

mutual

/-- The statement has the shape of one that the parser makes. -/
def Stmt.writable : Stmt → Bool
  | .assign pos target value => (Stmt.assign pos target value).writableClause
  | .call pos e => (Stmt.call pos e).writableClause
  | .ret _ value => value.all Expr.writable
  | .ifThen _ cond yes => cond.writable && yes.writable
  | .ifElse _ cond yes no => cond.writable && yes.writable && no.writable
  | .whileLoop _ cond body => cond.writable && body.writable
  | .forLoop _ init cond step body =>
      init.writableClause && cond.writable && step.writableClause && body.writable
  | .misplaced _ | .missing _ _ => false

def Block.writable : Block → Bool
  | .mk _ ds sts => ds.all Decl.writableVariable && Stmt.allWritable sts

def Stmt.allWritable : List Stmt → Bool
  | [] => true
  | st :: sts => st.writable && Stmt.allWritable sts

end

/-- The declaration has the shape of one that the parser makes at the top of a program. -/
def Decl.writable : Decl → Bool
  | .prototype head params =>
      head.ret.writable && head.ret.extent.isNone && params.all Decl.writableParameter
  | .function head params body =>
      head.ret.writable && head.ret.extent.isNone && params.all Decl.writableParameter &&
        body.writable
  | d => d.writableVariable

/-- **The program has the shape of one that the parser makes.** -/
def Program.writable (p : Program) : Bool := p.decls.all Decl.writable

/-! ## 4. Trees without positions -/

mutual

/-- An expression without its positions. -/
def Expr.placeless : Expr → Expr
  | .int _ v => .int {} v
  | .str _ text => .str {} text
  | .var _ name => .var {} name
  | .index _ a i => .index {} a.placeless i.placeless
  | .call _ name args => .call {} name (Expr.allPlaceless args)
  | .unary _ op e => .unary {} op e.placeless
  | .binary _ op left right => .binary {} op left.placeless right.placeless
  | .nameless kind args => .nameless kind (Expr.allPlaceless args)
  | .misplaced kind => .misplaced kind

def Expr.allPlaceless : List Expr → List Expr
  | [] => []
  | e :: es => e.placeless :: Expr.allPlaceless es

end

def FnHead.placeless (head : FnHead) : FnHead := { head with pos := {} }

mutual

/-- A declaration without its positions. -/
def Decl.placeless : Decl → Decl
  | .variable _ name ty => .variable {} name ty
  | .parameter _ name ty => .parameter {} name ty
  | .prototype head params => .prototype head.placeless (Decl.allPlaceless params)
  | .function head params body =>
      .function head.placeless (Decl.allPlaceless params) body.placeless
  | .misplaced kind => .misplaced kind

def Decl.allPlaceless : List Decl → List Decl
  | [] => []
  | d :: ds => d.placeless :: Decl.allPlaceless ds

/-- A statement without its positions. -/
def Stmt.placeless : Stmt → Stmt
  | .assign _ target value => .assign {} target.placeless value.placeless
  | .ifThen _ cond yes => .ifThen {} cond.placeless yes.placeless
  | .ifElse _ cond yes no => .ifElse {} cond.placeless yes.placeless no.placeless
  | .whileLoop _ cond body => .whileLoop {} cond.placeless body.placeless
  | .forLoop _ init cond step body =>
      .forLoop {} init.placeless cond.placeless step.placeless body.placeless
  | .call _ e => .call {} e.placeless
  | .ret _ value => .ret {} (value.map Expr.placeless)
  | .misplaced kind => .misplaced kind
  | .missing kind part => .missing kind part

def Stmt.allPlaceless : List Stmt → List Stmt
  | [] => []
  | st :: sts => st.placeless :: Stmt.allPlaceless sts

/-- A block without its positions. -/
def Block.placeless : Block → Block
  | .mk _ ds sts => .mk {} (Decl.allPlaceless ds) (Stmt.allPlaceless sts)

end

/-- **A program without its positions.** -/
def Program.placeless (p : Program) : Program := ⟨p.decls.map Decl.placeless⟩

theorem Decl.allPlaceless_eq (ds : List Decl) : Decl.allPlaceless ds = ds.map Decl.placeless := by
  induction ds with
  | nil => rfl
  | cons d ds ih => rw [Decl.allPlaceless, ih, List.map_cons]

theorem Expr.isVar_placeless (e : Expr) : e.placeless.isVar = e.isVar := by
  cases e <;> rfl

theorem Expr.isCall_placeless (e : Expr) : e.placeless.isCall = e.isCall := by
  cases e <;> rfl

theorem Expr.isLocation_placeless : ∀ e : Expr, e.placeless.isLocation = e.isLocation
  | .index _ a _ => a.isLocation_placeless
  | .unary _ .deref e => e.isVar_placeless
  | .unary _ .neg _ | .unary _ .not _ | .unary _ .address _ | .unary _ (.other _) _ => rfl
  | .int _ _ | .str _ _ | .var _ _ | .call _ _ _ | .binary _ _ _ _ | .nameless _ _
  | .misplaced _ => rfl

/-! ## 5. What is printed stands for the tree -/

/-- Tokens that are spelled like this, wherever they stand, are a phrase of something that differs
    from `a` in positions only. -/
def Stands {α : Type} (P : List Token → α → Prop) (erase : α → α) (ls : List Lexeme) (a : α) :
    Prop :=
  ∀ ts : List Token, ts.map Token.lexeme = ls → ∃ a', P ts a' ∧ erase a' = erase a

theorem BinaryOp.level_le (op : BinaryOp) : op.level ≤ loosest := by
  unfold BinaryOp.level
  cases h : op.kind?.bind TokenKind.level? with
  | none => exact Nat.zero_le loosest
  | some n =>
    obtain ⟨k, -, hk⟩ := Option.bind_eq_some_iff.mp h
    exact TokenKind.level?_le hk

theorem Expr.rank_le (e : Expr) : e.rank ≤ wholeRank := by
  cases e with
  | binary _ op _ _ => exact Nat.add_le_add_right op.level_le 2
  | _ => simp [Expr.rank, wholeRank]

/-- An expression stands in every place, in parentheses if need be. -/
theorem stands_enclose {rank : Nat} {ls : List Lexeme} {e : Expr}
    (h : Stands (Phrase rank) Expr.placeless ls e) (hrank : rank ≤ wholeRank) (place : Nat) :
    Stands (Phrase place) Expr.placeless (enclose rank place ls) e := by
  intro ts hts
  unfold enclose at hts
  split at hts
  · rename_i hle
    obtain ⟨e', hphrase, heq⟩ := h ts hts
    exact ⟨e', hphrase.of_le hle, heq⟩
  · obtain ⟨l, rest, rfl, hl, hrest⟩ := List.map_eq_cons_iff.mp hts
    obtain ⟨us, rest, rfl, hus, hrest⟩ := List.map_eq_append_iff.mp hrest
    obtain ⟨r, rfl, hr⟩ := List.map_eq_singleton_iff.mp hrest
    obtain ⟨e', hphrase, heq⟩ := h us hus
    have hgroup := Phrase.group (congrArg Lexeme.kind hl) (hphrase.of_le hrank)
      (congrArg Lexeme.kind hr)
    exact ⟨e', hgroup.of_le (Nat.zero_le place), heq⟩

theorem UnaryOp.isUnary_kind? {op : UnaryOp} (h : op.kind?.isSome = true) :
    (op.kind?.getD .eof).isUnary = true ∧ UnaryOp.ofText op.text = op := by
  cases op <;> first | exact ⟨rfl, rfl⟩ | cases h

theorem BinaryOp.level?_kind? {op : BinaryOp} (h : op.kind?.isSome = true) :
    (op.kind?.getD .eof).level? = some op.level ∧ BinaryOp.ofText op.text = op := by
  cases op with
  | arith op => cases op <;> exact ⟨rfl, rfl⟩
  | rel op => cases op <;> exact ⟨rfl, rfl⟩
  | and => exact ⟨rfl, rfl⟩
  | or => exact ⟨rfl, rfl⟩
  | other _ => cases h

/-- The numeral of a number is read as the number. -/
theorem readInt_numeral {v : Int} (h : hasNumeral v = true) {t : Token}
    (ht : t.lexeme = numeral v) : t.kind = .number ∧ Text.readInt t.text.toList = .ok v := by
  unfold hasNumeral at h
  rw [Bool.and_eq_true, decide_eq_true_iff, decide_eq_true_iff] at h
  obtain ⟨hkind, hspelled⟩ := Lexeme.mk.inj ht
  refine ⟨hkind, ?_⟩
  rw [hspelled, Text.readInt_repr h.2, Int.toNat_of_nonneg h.1]

mutual

/-- **An expression stands for itself** as it is printed without parentheses around it. -/
theorem Expr.plain_stands : ∀ e : Expr, e.writable = true →
    Stands (Phrase e.rank) Expr.placeless e.plain e
  | .int _ v, h, ts, hts => by
      obtain ⟨t, rfl, ht⟩ := List.map_eq_singleton_iff.mp hts
      obtain ⟨hkind, hread⟩ := readInt_numeral h ht
      exact ⟨_, .number hkind hread, rfl⟩
  | .str _ text, _, ts, hts => by
      obtain ⟨t, rfl, ht⟩ := List.map_eq_singleton_iff.mp hts
      obtain ⟨hkind, rfl⟩ := Lexeme.mk.inj ht
      exact ⟨_, .string hkind, rfl⟩
  | .var _ name, _, ts, hts => by
      obtain ⟨t, rfl, ht⟩ := List.map_eq_singleton_iff.mp hts
      obtain ⟨hkind, rfl⟩ := Lexeme.mk.inj ht
      exact ⟨_, .name hkind, rfl⟩
  | .index _ a i, h, ts, hts => by
      obtain ⟨ha, hi⟩ := Bool.and_eq_true_iff.mp h
      obtain ⟨us, rest, rfl, hus, hrest⟩ := List.map_eq_append_iff.mp hts
      obtain ⟨l, rest, rfl, hl, hrest⟩ := List.map_eq_cons_iff.mp hrest
      obtain ⟨vs, rest, rfl, hvs, hrest⟩ := List.map_eq_append_iff.mp hrest
      obtain ⟨r, rfl, hr⟩ := List.map_eq_singleton_iff.mp hrest
      obtain ⟨a', hbase, hsame⟩ := stands_enclose (a.plain_stands ha) a.rank_le 1 us hus
      obtain ⟨i', hindex, hsame'⟩ := stands_enclose (i.plain_stands hi) i.rank_le _ vs hvs
      refine ⟨_, .index hbase (congrArg Lexeme.kind hl) hindex (congrArg Lexeme.kind hr), ?_⟩
      rw [Expr.placeless, Expr.placeless, hsame, hsame']
  | .call _ name args, h, ts, hts => by
      obtain ⟨t, rest, rfl, ht, hrest⟩ := List.map_eq_cons_iff.mp hts
      obtain ⟨l, rest, rfl, hl, hrest⟩ := List.map_eq_cons_iff.mp hrest
      obtain ⟨us, rest, rfl, hus, hrest⟩ := List.map_eq_append_iff.mp hrest
      obtain ⟨r, rfl, hr⟩ := List.map_eq_singleton_iff.mp hrest
      obtain ⟨hname, rfl⟩ := Lexeme.mk.inj ht
      obtain ⟨args', hargs, hsame⟩ := Expr.printArgs_stands args h us hus
      refine ⟨_, .call hname (congrArg Lexeme.kind hl) hargs (congrArg Lexeme.kind hr), ?_⟩
      rw [Expr.placeless, Expr.placeless, hsame]
  | .unary _ op e, h, ts, hts => by
      obtain ⟨hop, he⟩ := Bool.and_eq_true_iff.mp h
      obtain ⟨hunary, htext⟩ := UnaryOp.isUnary_kind? hop
      obtain ⟨t, us, rfl, ht, hus⟩ := List.map_eq_cons_iff.mp hts
      obtain ⟨hkind, hspelled⟩ := Lexeme.mk.inj ht
      obtain ⟨e', hphrase, hsame⟩ := stands_enclose (e.plain_stands he) e.rank_le 2 us hus
      refine ⟨_, .unary (by rw [hkind]; exact hunary) hphrase, ?_⟩
      rw [Expr.placeless, Expr.placeless, hsame, hspelled, htext]
  | .binary _ op left right, h, ts, hts => by
      obtain ⟨hboth, hright⟩ := Bool.and_eq_true_iff.mp h
      obtain ⟨hop, hleft⟩ := Bool.and_eq_true_iff.mp hboth
      obtain ⟨hlevel, htext⟩ := BinaryOp.level?_kind? hop
      obtain ⟨us, rest, rfl, hus, hrest⟩ := List.map_eq_append_iff.mp hts
      obtain ⟨t, vs, rfl, ht, hvs⟩ := List.map_eq_cons_iff.mp hrest
      obtain ⟨left', hphrase, hsame⟩ :=
        stands_enclose (left.plain_stands hleft) left.rank_le _ us hus
      obtain ⟨right', hphrase', hsame'⟩ :=
        stands_enclose (right.plain_stands hright) right.rank_le _ vs hvs
      obtain ⟨hkind, hspelled⟩ := Lexeme.mk.inj ht
      refine ⟨_, .binary hphrase (by rw [hkind]; exact hlevel) hphrase', ?_⟩
      rw [Expr.placeless, Expr.placeless, hsame, hsame', hspelled, htext]

theorem Expr.printArgs_stands : ∀ es : List Expr, Expr.allWritable es = true →
    Stands Arguments Expr.allPlaceless (Expr.printArgs es) es
  | [], _, ts, hts => by
      obtain rfl := List.map_eq_nil_iff.mp hts
      exact ⟨[], .none, rfl⟩
  | e :: es, h, ts, hts => by
      obtain ⟨he, hes⟩ := Bool.and_eq_true_iff.mp h
      obtain ⟨us, vs, rfl, hus, hvs⟩ := List.map_eq_append_iff.mp hts
      obtain ⟨e', hphrase, hsame⟩ := stands_enclose (e.plain_stands he) e.rank_le _ us hus
      obtain ⟨es', hmore, hsame'⟩ := Expr.printMore_stands es hes vs hvs
      refine ⟨_, .some hphrase hmore, ?_⟩
      rw [Expr.allPlaceless, Expr.allPlaceless, hsame, hsame']

theorem Expr.printMore_stands : ∀ es : List Expr, Expr.allWritable es = true →
    Stands MoreArguments Expr.allPlaceless (Expr.printMore es) es
  | [], _, ts, hts => by
      obtain rfl := List.map_eq_nil_iff.mp hts
      exact ⟨[], .none, rfl⟩
  | e :: es, h, ts, hts => by
      obtain ⟨he, hes⟩ := Bool.and_eq_true_iff.mp h
      obtain ⟨c, rest, rfl, hc, hrest⟩ := List.map_eq_cons_iff.mp hts
      obtain ⟨us, vs, rfl, hus, hvs⟩ := List.map_eq_append_iff.mp hrest
      obtain ⟨e', hphrase, hsame⟩ := stands_enclose (e.plain_stands he) e.rank_le _ us hus
      obtain ⟨es', hmore, hsame'⟩ := Expr.printMore_stands es hes vs hvs
      refine ⟨_, .some (congrArg Lexeme.kind hc) hphrase hmore, ?_⟩
      rw [Expr.allPlaceless, Expr.allPlaceless, hsame, hsame']

end

theorem Expr.print_stands {e : Expr} (h : e.writable = true) (place : Nat) :
    Stands (Phrase place) Expr.placeless (e.print place) e :=
  stands_enclose (e.plain_stands h) e.rank_le place

theorem Ty.print_stands {ty : Ty} (h : ty.writable = true) (ts : List Token)
    (hts : ts.map Token.lexeme = ty.print) : ∃ pos, Ty.Phrase ts pos { ty with extent := none } := by
  unfold Ty.writable at h
  rw [Bool.and_eq_true, decide_eq_true_iff, decide_eq_true_iff] at h
  obtain ⟨hname, hpointers⟩ := h
  obtain ⟨t, stars, rfl, ht, hstars⟩ := List.map_eq_cons_iff.mp hts
  obtain ⟨hkind, htext⟩ := Lexeme.mk.inj ht
  have hdepth : stars.length = ty.pointers.toNat := by
    rw [← List.length_map Token.lexeme, hstars, List.length_replicate]
  have hkinds : ∀ u ∈ stars, u.kind = .star := by
    intro u hu
    have hmem : u.lexeme ∈ stars.map Token.lexeme := List.mem_map_of_mem hu
    rw [hstars] at hmem
    exact congrArg Lexeme.kind (List.eq_of_mem_replicate hmem)
  have hphrase := Ty.Phrase.mk hkind (htext ▸ hname) hkinds
  rw [htext, hdepth, Int.toNat_of_nonneg hpointers] at hphrase
  exact ⟨t.pos, hphrase⟩

theorem printTyped_stands {ty : Ty} {name : String} (h : ty.writable = true) (ts : List Token)
    (hts : ts.map Token.lexeme = printTyped ty name) :
    ∃ pos, TypedName ts (pos, { ty with extent := none }, name) := by
  obtain ⟨us, rest, rfl, hus, hrest⟩ := List.map_eq_append_iff.mp hts
  obtain ⟨x, rfl, hx⟩ := List.map_eq_singleton_iff.mp hrest
  obtain ⟨hkind, rfl⟩ := Lexeme.mk.inj hx
  obtain ⟨pos, hphrase⟩ := ty.print_stands h us hus
  exact ⟨pos, .mk hphrase hkind⟩

theorem printExtent_stands {size? : Option Int} (h : size?.all hasNumeral = true)
    (ts : List Token) (hts : ts.map Token.lexeme = printExtent size?) : Extent ts size? := by
  cases size? with
  | none =>
    obtain rfl := List.map_eq_nil_iff.mp hts
    exact .none
  | some v =>
    obtain ⟨l, rest, rfl, hl, hrest⟩ := List.map_eq_cons_iff.mp hts
    obtain ⟨x, rest, rfl, hx, hrest⟩ := List.map_eq_cons_iff.mp hrest
    obtain ⟨r, rfl, hr⟩ := List.map_eq_singleton_iff.mp hrest
    obtain ⟨hkind, hread⟩ := readInt_numeral h hx
    exact .some (congrArg Lexeme.kind hl) hkind hread (congrArg Lexeme.kind hr)

theorem Decl.printVariable_stands {d : Decl} (h : d.writableVariable = true) :
    Stands Variable.Phrase Decl.placeless d.printVariable d := by
  intro ts hts
  cases d with
  | «variable» _ name ty =>
    obtain ⟨hty, hsize⟩ := Bool.and_eq_true_iff.mp h
    obtain ⟨us, rest, rfl, hus, hrest⟩ := List.map_eq_append_iff.mp hts
    obtain ⟨vs, rest, rfl, hvs, hrest⟩ := List.map_eq_append_iff.mp hrest
    obtain ⟨semi, rfl, hsemi⟩ := List.map_eq_singleton_iff.mp hrest
    obtain ⟨pos, hname⟩ := printTyped_stands hty us hus
    have hextent := printExtent_stands hsize vs hvs
    exact ⟨_, .mk hname hextent (congrArg Lexeme.kind hsemi), rfl⟩
  | _ => cases h

/-- The type of a parameter or of a result is no array. -/
theorem printTyped_plain {ty : Ty} {name : String} (h : ty.writable = true)
    (hextent : ty.extent.isNone = true) (ts : List Token)
    (hts : ts.map Token.lexeme = printTyped ty name) : ∃ pos, TypedName ts (pos, ty, name) := by
  have hty : ({ ty with extent := none } : Ty) = ty := by
    rw [← Option.isNone_iff_eq_none.mp hextent]
  exact hty ▸ printTyped_stands h ts hts

theorem Decl.printParameter_stands {d : Decl} (h : d.writableParameter = true) (ts : List Token)
    (hts : ts.map Token.lexeme = d.printParameter) :
    ∃ pos name ty, TypedName ts (pos, ty, name) ∧
      (Decl.parameter pos name ty).placeless = d.placeless := by
  cases d with
  | parameter _ name ty =>
    obtain ⟨hty, hextent⟩ := Bool.and_eq_true_iff.mp h
    obtain ⟨pos, hname⟩ := printTyped_plain hty hextent ts hts
    exact ⟨pos, name, ty, hname, rfl⟩
  | _ => cases h

theorem params_stand : ∀ {d : Decl} {ds : List Decl}, (d :: ds).all Decl.writableParameter = true →
    Stands Params (List.map Decl.placeless) (printParams (d :: ds)) (d :: ds)
  | d, [], h, ts, hts => by
      obtain ⟨hd, -⟩ := Bool.and_eq_true_iff.mp h
      obtain ⟨pos, name, ty, hname, hsame⟩ := d.printParameter_stands hd ts hts
      refine ⟨_, .one hname, ?_⟩
      rw [List.map_cons, hsame]
      rfl
  | d, d' :: ds, h, ts, hts => by
      obtain ⟨hd, hds⟩ := Bool.and_eq_true_iff.mp h
      obtain ⟨us, rest, rfl, hus, hrest⟩ := List.map_eq_append_iff.mp hts
      obtain ⟨c, vs, rfl, hc, hvs⟩ := List.map_eq_cons_iff.mp hrest
      obtain ⟨pos, name, ty, hname, hsame⟩ := d.printParameter_stands hd us hus
      obtain ⟨ps, hparams, hsame'⟩ := params_stand hds vs hvs
      refine ⟨_, .more hname (congrArg Lexeme.kind hc) hparams, ?_⟩
      rw [List.map_cons, hsame, hsame']
      rfl

theorem printParams_stands {ds : List Decl} (h : ds.all Decl.writableParameter = true) :
    Stands Formals (List.map Decl.placeless) (printParams ds) ds := by
  intro ts hts
  cases ds with
  | nil =>
    obtain rfl := List.map_eq_nil_iff.mp hts
    exact ⟨[], .none, rfl⟩
  | cons d ds =>
    obtain ⟨ps, hparams, hsame⟩ := params_stand h ts hts
    exact ⟨ps, .some hparams, hsame⟩

/-- Declarations that stand for themselves do so one after the other. -/
theorem flatMap_stands {P : List Token → Decl → Prop} {print : Decl → List Lexeme} :
    ∀ {ds : List Decl}, (∀ d ∈ ds, Stands P Decl.placeless (print d) d) →
      Stands (Series P) (List.map Decl.placeless) (ds.flatMap print) ds
  | [], _, ts, hts => by
      obtain rfl := List.map_eq_nil_iff.mp hts
      exact ⟨[], .nil, rfl⟩
  | d :: ds, h, ts, hts => by
      obtain ⟨hd, hds⟩ := List.forall_mem_cons.mp h
      obtain ⟨us, vs, rfl, hus, hvs⟩ := List.map_eq_append_iff.mp hts
      obtain ⟨d', hfirst, hsame⟩ := hd us hus
      obtain ⟨ds', hseries, hsame'⟩ := flatMap_stands hds vs hvs
      refine ⟨_, .cons hfirst hseries, ?_⟩
      rw [List.map_cons, hsame, hsame', List.map_cons]

theorem Stmt.printClause_stands {st : Stmt} (h : st.writableClause = true) :
    Stands Clause Stmt.placeless st.printClause st := by
  intro ts hts
  cases st with
  | assign _ target value =>
    obtain ⟨htarget, hvalue⟩ := Bool.and_eq_true_iff.mp h
    obtain ⟨hlocation, htarget⟩ := Bool.and_eq_true_iff.mp htarget
    obtain ⟨us, rest, rfl, hus, hrest⟩ := List.map_eq_append_iff.mp hts
    obtain ⟨a, vs, rfl, ha, hvs⟩ := List.map_eq_cons_iff.mp hrest
    obtain ⟨target', hphrase, hsame⟩ := Expr.print_stands htarget 2 us hus
    obtain ⟨value', hphrase', hsame'⟩ := Expr.print_stands hvalue wholeRank vs hvs
    have hlocation' : target'.isLocation = true := by
      rw [← Expr.isLocation_placeless, hsame, Expr.isLocation_placeless, hlocation]
    refine ⟨_, .assign hphrase hlocation' (congrArg Lexeme.kind ha) hphrase', ?_⟩
    rw [Stmt.placeless, Stmt.placeless, hsame, hsame']
  | call _ e =>
    obtain ⟨hcall, he⟩ := Bool.and_eq_true_iff.mp h
    obtain ⟨e', hphrase, hsame⟩ := Expr.print_stands he 2 ts hts
    have hcall' : e'.isCall = true := by
      rw [← Expr.isCall_placeless, hsame, Expr.isCall_placeless, hcall]
    refine ⟨_, .call hphrase hcall', ?_⟩
    rw [Stmt.placeless, Stmt.placeless, hsame]
  | _ => cases h

theorem printCondition_stands {cond : Expr} (h : cond.writable = true) :
    Stands Condition Expr.placeless (printCondition cond) cond := by
  intro ts hts
  obtain ⟨l, rest, rfl, hl, hrest⟩ := List.map_eq_cons_iff.mp hts
  obtain ⟨us, rest, rfl, hus, hrest⟩ := List.map_eq_append_iff.mp hrest
  obtain ⟨r, rfl, hr⟩ := List.map_eq_singleton_iff.mp hrest
  obtain ⟨cond', hphrase, hsame⟩ := Expr.print_stands h wholeRank us hus
  exact ⟨cond', .mk (congrArg Lexeme.kind hl) hphrase (congrArg Lexeme.kind hr), hsame⟩

theorem printClauses_stands {init step : Stmt} {cond : Expr} (hinit : init.writableClause = true)
    (hcond : cond.writable = true) (hstep : step.writableClause = true) (ts : List Token)
    (hts : ts.map Token.lexeme = printClauses init cond step) :
    ∃ init' cond' step', ForClauses ts (init', cond', step') ∧ init'.placeless = init.placeless ∧
      cond'.placeless = cond.placeless ∧ step'.placeless = step.placeless := by
  obtain ⟨l, rest, rfl, hl, hrest⟩ := List.map_eq_cons_iff.mp hts
  obtain ⟨us, rest, rfl, hus, hrest⟩ := List.map_eq_append_iff.mp hrest
  obtain ⟨s₁, rest, rfl, hs₁, hrest⟩ := List.map_eq_cons_iff.mp hrest
  obtain ⟨vs, rest, rfl, hvs, hrest⟩ := List.map_eq_append_iff.mp hrest
  obtain ⟨s₂, rest, rfl, hs₂, hrest⟩ := List.map_eq_cons_iff.mp hrest
  obtain ⟨ws, rest, rfl, hws, hrest⟩ := List.map_eq_append_iff.mp hrest
  obtain ⟨r, rfl, hr⟩ := List.map_eq_singleton_iff.mp hrest
  obtain ⟨init', hclause, hsame⟩ := Stmt.printClause_stands hinit us hus
  obtain ⟨cond', hphrase, hsame'⟩ := Expr.print_stands hcond wholeRank vs hvs
  obtain ⟨step', hclause', hsame''⟩ := Stmt.printClause_stands hstep ws hws
  exact ⟨init', cond', step', .mk (congrArg Lexeme.kind hl) hclause (congrArg Lexeme.kind hs₁)
    hphrase (congrArg Lexeme.kind hs₂) hclause' (congrArg Lexeme.kind hr), hsame, hsame', hsame''⟩

theorem isWord_of_lexeme {t : Token} {text : String} (h : t.lexeme = word text) : t.IsWord text :=
  ⟨congrArg Lexeme.kind h, congrArg Lexeme.text h⟩

/-- A clause with its semicolon is a statement. -/
theorem clause_stands {st : Stmt} (h : st.writableClause = true) :
    Stands Stmt.Phrase Stmt.placeless (st.printClause ++ [sign .semicolon]) st := by
  intro ts hts
  obtain ⟨us, rest, rfl, hus, hrest⟩ := List.map_eq_append_iff.mp hts
  obtain ⟨semi, rfl, hsemi⟩ := List.map_eq_singleton_iff.mp hrest
  obtain ⟨st', hclause, hsame⟩ := Stmt.printClause_stands h us hus
  exact ⟨st', .clause hclause (congrArg Lexeme.kind hsemi), hsame⟩

mutual

/-- **A statement stands for itself** as it is printed. -/
theorem Stmt.print_stands : ∀ st : Stmt, st.writable = true →
    Stands Stmt.Phrase Stmt.placeless st.print st
  | .assign pos target value, h => clause_stands h
  | .call pos e, h => clause_stands h
  | .ret _ none, _ => by
      intro ts hts
      obtain ⟨t, rest, rfl, ht, hrest⟩ := List.map_eq_cons_iff.mp hts
      obtain ⟨semi, rfl, hsemi⟩ := List.map_eq_singleton_iff.mp hrest
      exact ⟨_, .retNone (isWord_of_lexeme ht) (congrArg Lexeme.kind hsemi), rfl⟩
  | .ret _ (some e), h => by
      intro ts hts
      obtain ⟨t, rest, rfl, ht, hrest⟩ := List.map_eq_cons_iff.mp hts
      obtain ⟨us, rest, rfl, hus, hrest⟩ := List.map_eq_append_iff.mp hrest
      obtain ⟨semi, rfl, hsemi⟩ := List.map_eq_singleton_iff.mp hrest
      obtain ⟨e', hphrase, hsame⟩ := Expr.print_stands h wholeRank us hus
      refine ⟨_, .retSome (isWord_of_lexeme ht) hphrase (congrArg Lexeme.kind hsemi), ?_⟩
      rw [Stmt.placeless, Stmt.placeless, Option.map_some, Option.map_some, hsame]
  | .ifThen _ cond yes, h => by
      intro ts hts
      obtain ⟨hcond, hyes⟩ := Bool.and_eq_true_iff.mp h
      obtain ⟨t, rest, rfl, ht, hrest⟩ := List.map_eq_cons_iff.mp hts
      obtain ⟨us, vs, rfl, hus, hvs⟩ := List.map_eq_append_iff.mp hrest
      obtain ⟨cond', hcond', hsame⟩ := printCondition_stands hcond us hus
      obtain ⟨yes', hyes', hsame'⟩ := yes.print_stands hyes vs hvs
      refine ⟨_, .ifThen (isWord_of_lexeme ht) hcond' hyes', ?_⟩
      rw [Stmt.placeless, Stmt.placeless, hsame, hsame']
  | .ifElse _ cond yes no, h => by
      intro ts hts
      obtain ⟨hboth, hno⟩ := Bool.and_eq_true_iff.mp h
      obtain ⟨hcond, hyes⟩ := Bool.and_eq_true_iff.mp hboth
      obtain ⟨t, rest, rfl, ht, hrest⟩ := List.map_eq_cons_iff.mp hts
      obtain ⟨us, rest, rfl, hus, hrest⟩ := List.map_eq_append_iff.mp hrest
      obtain ⟨vs, rest, rfl, hvs, hrest⟩ := List.map_eq_append_iff.mp hrest
      obtain ⟨w, ws, rfl, hw, hws⟩ := List.map_eq_cons_iff.mp hrest
      obtain ⟨cond', hcond', hsame⟩ := printCondition_stands hcond us hus
      obtain ⟨yes', hyes', hsame'⟩ := yes.print_stands hyes vs hvs
      obtain ⟨no', hno', hsame''⟩ := no.print_stands hno ws hws
      refine ⟨_, .ifElse (isWord_of_lexeme ht) hcond' hyes' (isWord_of_lexeme hw) hno', ?_⟩
      rw [Stmt.placeless, Stmt.placeless, hsame, hsame', hsame'']
  | .whileLoop _ cond body, h => by
      intro ts hts
      obtain ⟨hcond, hbody⟩ := Bool.and_eq_true_iff.mp h
      obtain ⟨t, rest, rfl, ht, hrest⟩ := List.map_eq_cons_iff.mp hts
      obtain ⟨us, vs, rfl, hus, hvs⟩ := List.map_eq_append_iff.mp hrest
      obtain ⟨cond', hcond', hsame⟩ := printCondition_stands hcond us hus
      obtain ⟨body', hbody', hsame'⟩ := body.print_stands hbody vs hvs
      refine ⟨_, .whileLoop (isWord_of_lexeme ht) hcond' hbody', ?_⟩
      rw [Stmt.placeless, Stmt.placeless, hsame, hsame']
  | .forLoop _ init cond step body, h => by
      intro ts hts
      obtain ⟨hclauses, hbody⟩ := Bool.and_eq_true_iff.mp h
      obtain ⟨hboth, hstep⟩ := Bool.and_eq_true_iff.mp hclauses
      obtain ⟨hinit, hcond⟩ := Bool.and_eq_true_iff.mp hboth
      obtain ⟨t, rest, rfl, ht, hrest⟩ := List.map_eq_cons_iff.mp hts
      obtain ⟨us, vs, rfl, hus, hvs⟩ := List.map_eq_append_iff.mp hrest
      obtain ⟨init', cond', step', hphrase, hsame, hsame', hsame''⟩ :=
        printClauses_stands hinit hcond hstep us hus
      obtain ⟨body', hbody', hinside⟩ := body.print_stands hbody vs hvs
      refine ⟨_, .forLoop (isWord_of_lexeme ht) hphrase hbody', ?_⟩
      rw [Stmt.placeless, Stmt.placeless, hsame, hsame', hsame'', hinside]

theorem Block.print_stands : ∀ b : Block, b.writable = true →
    Stands Block.Phrase Block.placeless b.print b
  | .mk _ ds sts, h => by
      intro ts hts
      obtain ⟨hds, hsts⟩ := Bool.and_eq_true_iff.mp h
      obtain ⟨l, rest, rfl, hl, hrest⟩ := List.map_eq_cons_iff.mp hts
      obtain ⟨us, rest, rfl, hus, hrest⟩ := List.map_eq_append_iff.mp hrest
      obtain ⟨vs, rest, rfl, hvs, hrest⟩ := List.map_eq_append_iff.mp hrest
      obtain ⟨r, rfl, hr⟩ := List.map_eq_singleton_iff.mp hrest
      have hvariables : ∀ d ∈ ds, Stands Variable.Phrase Decl.placeless d.printVariable d :=
        fun d hd => Decl.printVariable_stands (List.all_eq_true.mp hds d hd)
      obtain ⟨ds', hds', hsame⟩ := flatMap_stands hvariables us hus
      obtain ⟨sts', hsts', hsame'⟩ := Stmt.printAll_stands sts hsts vs hvs
      refine ⟨_, .mk (congrArg Lexeme.kind hl) hds' hsts' (congrArg Lexeme.kind hr), ?_⟩
      rw [Block.placeless, Block.placeless, Decl.allPlaceless_eq, Decl.allPlaceless_eq, hsame,
        hsame']

theorem Stmt.printAll_stands : ∀ sts : List Stmt, Stmt.allWritable sts = true →
    Stands Stmt.Phrases Stmt.allPlaceless (Stmt.printAll sts) sts
  | [], _ => by
      intro ts hts
      obtain rfl := List.map_eq_nil_iff.mp hts
      exact ⟨[], .nil, rfl⟩
  | st :: sts, h => by
      intro ts hts
      obtain ⟨hst, hsts⟩ := Bool.and_eq_true_iff.mp h
      obtain ⟨us, vs, rfl, hus, hvs⟩ := List.map_eq_append_iff.mp hts
      obtain ⟨st', hfirst, hsame⟩ := st.print_stands hst us hus
      obtain ⟨sts', hrest, hsame'⟩ := Stmt.printAll_stands sts hsts vs hvs
      refine ⟨_, .cons hfirst hrest, ?_⟩
      rw [Stmt.allPlaceless, Stmt.allPlaceless, hsame, hsame']

end

theorem Decl.print_stands {d : Decl} (h : d.writable = true) :
    Stands Decl.Phrase Decl.placeless d.print d := by
  intro ts hts
  cases d with
  | prototype head params =>
    obtain ⟨hhead, hparams⟩ := Bool.and_eq_true_iff.mp h
    obtain ⟨hret, hextent⟩ := Bool.and_eq_true_iff.mp hhead
    obtain ⟨us, rest, rfl, hus, hrest⟩ := List.map_eq_append_iff.mp hts
    obtain ⟨l, rest, rfl, hl, hrest⟩ := List.map_eq_cons_iff.mp hrest
    obtain ⟨vs, rest, rfl, hvs, hrest⟩ := List.map_eq_append_iff.mp hrest
    obtain ⟨r, rest, rfl, hr, hrest⟩ := List.map_eq_cons_iff.mp hrest
    obtain ⟨semi, rfl, hsemi⟩ := List.map_eq_singleton_iff.mp hrest
    obtain ⟨pos, hname⟩ := printTyped_plain hret hextent us hus
    obtain ⟨params', hformals, hsame⟩ := printParams_stands hparams vs hvs
    refine ⟨_, .prototype hname (congrArg Lexeme.kind hl) hformals (congrArg Lexeme.kind hr)
      (congrArg Lexeme.kind hsemi), ?_⟩
    rw [Decl.placeless, Decl.placeless, Decl.allPlaceless_eq, Decl.allPlaceless_eq, hsame]
    rfl
  | function head params body =>
    obtain ⟨hhead, hbody⟩ := Bool.and_eq_true_iff.mp h
    obtain ⟨hhead, hparams⟩ := Bool.and_eq_true_iff.mp hhead
    obtain ⟨hret, hextent⟩ := Bool.and_eq_true_iff.mp hhead
    obtain ⟨us, rest, rfl, hus, hrest⟩ := List.map_eq_append_iff.mp hts
    obtain ⟨l, rest, rfl, hl, hrest⟩ := List.map_eq_cons_iff.mp hrest
    obtain ⟨vs, rest, rfl, hvs, hrest⟩ := List.map_eq_append_iff.mp hrest
    obtain ⟨r, ws, rfl, hr, hws⟩ := List.map_eq_cons_iff.mp hrest
    obtain ⟨pos, hname⟩ := printTyped_plain hret hextent us hus
    obtain ⟨params', hformals, hsame⟩ := printParams_stands hparams vs hvs
    obtain ⟨body', hblock, hsame'⟩ := body.print_stands hbody ws hws
    refine ⟨_, .function hname (congrArg Lexeme.kind hl) hformals (congrArg Lexeme.kind hr) hblock,
      ?_⟩
    rw [Decl.placeless, Decl.placeless, Decl.allPlaceless_eq, Decl.allPlaceless_eq, hsame, hsame']
    rfl
  | «variable» pos name ty =>
    have hvariable : (Decl.variable pos name ty).writableVariable = true := h
    obtain ⟨d', hphrase, hsame⟩ := Decl.printVariable_stands hvariable ts hts
    exact ⟨d', .var hphrase, hsame⟩
  | parameter _ _ _ => cases h
  | misplaced _ => cases h

end CMinusMinus
