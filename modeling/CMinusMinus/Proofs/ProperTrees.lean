/-
  File:      CMinusMinus/Proofs/ProperTrees.lean
  Subject:   The trees that come from a source text.

  Trees may be built by hand and then hold anything anywhere. The parser makes PROPER trees only:
  operators are known, no node is out of place, names are names, base types are those of the
  language, an assignment has a location as its target, a `for` has assignments or calls as its
  clauses, a block declares variables and a parameter list declares parameters.

  * `Expr.Proper`, `Stmt.Proper`, `Block.Proper`, `Decl.Proper`, `Program.Proper` -- proper trees;
  * `parse_proper` -- from well-spelled tokens the parser makes a proper program;
  * `Program.ofSource?` -- the program of a source text, which is proper.
-/
import CMinusMinus.Parse.Program
import CMinusMinus.Proofs.Reading
import CMinusMinus.Proofs.Spelling

namespace CMinusMinus

/-! ## 1. Proper trees -/

/-- The language knows the operator. -/
def UnaryOp.Known (op : UnaryOp) : Prop := ∀ text, op ≠ .other text

/-- The language knows the operator. -/
def BinaryOp.Known (op : BinaryOp) : Prop := ∀ text, op ≠ .other text

/-- The base name is one of the language's. -/
def Ty.Proper (t : Ty) : Prop := t.name ∈ Ty.names

instance (t : Ty) : Decidable t.Proper := inferInstanceAs (Decidable (t.name ∈ Ty.names))

mutual

/-- An expression as the parser makes it. -/
def Expr.Proper : Expr → Prop
  | .int _ _ => True
  | .str _ text => text ≠ ""
  | .var _ name => IsName name
  | .index _ array i => array.Proper ∧ i.Proper
  | .call _ name args => IsName name ∧ Expr.AllProper args
  | .unary _ op operand => op.Known ∧ operand.Proper
  | .binary _ op left right => op.Known ∧ left.Proper ∧ right.Proper
  | .nameless _ _ | .misplaced _ => False

/-- Expressions as the parser makes them. -/
def Expr.AllProper : List Expr → Prop
  | [] => True
  | e :: es => e.Proper ∧ Expr.AllProper es

end

/-- A variable of a block. -/
inductive Decl.IsVariable : Decl → Prop where
  | mk {pos : Position} {name : String} {ty : Ty} (hname : IsName name) (hty : ty.Proper) :
      Decl.IsVariable (.variable pos name ty)

/-- A parameter of a function. -/
inductive Decl.IsParameter : Decl → Prop where
  | mk {pos : Position} {name : String} {ty : Ty} (hname : IsName name) (hty : ty.Proper) :
      Decl.IsParameter (.parameter pos name ty)

/-- What may stand as a clause of a `for`. -/
inductive Stmt.IsClause : Stmt → Prop where
  | assign {pos : Position} {target value : Expr} (hlocation : target.isLocation = true)
      (htarget : target.Proper) (hvalue : value.Proper) : Stmt.IsClause (.assign pos target value)
  | call {pos : Position} {e : Expr} (hcall : e.isCall = true) (he : e.Proper) :
      Stmt.IsClause (.call pos e)

mutual

/-- A statement as the parser makes it. -/
def Stmt.Proper : Stmt → Prop
  | .assign pos target value => Stmt.IsClause (.assign pos target value)
  | .ifThen _ cond body => cond.Proper ∧ body.Proper
  | .ifElse _ cond thenBody elseBody => cond.Proper ∧ thenBody.Proper ∧ elseBody.Proper
  | .whileLoop _ cond body => cond.Proper ∧ body.Proper
  | .forLoop _ init cond step body => init.IsClause ∧ cond.Proper ∧ step.IsClause ∧ body.Proper
  | .call pos e => Stmt.IsClause (.call pos e)
  | .ret _ value => ∀ e, value = some e → e.Proper
  | .misplaced _ | .missing _ _ => False

/-- A block as the parser makes it. -/
def Block.Proper : Block → Prop
  | .mk _ decls stmts => (∀ d ∈ decls, d.IsVariable) ∧ Stmt.AllProper stmts

/-- Statements as the parser makes them. -/
def Stmt.AllProper : List Stmt → Prop
  | [] => True
  | st :: sts => st.Proper ∧ Stmt.AllProper sts

end

/-- A clause is a proper statement. -/
theorem Stmt.IsClause.proper {st : Stmt} (h : st.IsClause) : st.Proper := by
  cases h with
  | assign hl ht hv => exact .assign hl ht hv
  | call hc he => exact .call hc he

/-- The head of a function. -/
structure FnHead.Proper (head : FnHead) : Prop where
  name : IsName head.name
  ret : head.ret.Proper

/-- A declaration at the top of a program. -/
inductive Decl.Proper : Decl → Prop where
  | var {d : Decl} (h : d.IsVariable) : Decl.Proper d
  | prototype {head : FnHead} {params : List Decl} (hhead : head.Proper)
      (hparams : ∀ d ∈ params, d.IsParameter) : Decl.Proper (.prototype head params)
  | function {head : FnHead} {params : List Decl} {body : Block} (hhead : head.Proper)
      (hparams : ∀ d ∈ params, d.IsParameter) (hbody : body.Proper) :
      Decl.Proper (.function head params body)

/-- A program as the parser makes it. -/
def Program.Proper (p : Program) : Prop := ∀ d ∈ p.decls, d.Proper

/-! ## 2. Operators -/

/-- A well-spelled token of a unary operator's kind spells a known operator. -/
theorem Token.WellSpelled.unary {t : Token} (ht : t.WellSpelled) (h : t.kind.isUnary = true) :
    (UnaryOp.ofText t.text).Known := by
  intro text
  cases hk : t.kind <;> simp [hk, TokenKind.isUnary] at h <;>
    rw [ht.sign _ (congrArg TokenKind.sign? hk)] <;> simp [UnaryOp.ofText]

/-- A well-spelled token of a binary operator's kind spells a known operator. -/
theorem Token.WellSpelled.binary {t : Token} (ht : t.WellSpelled) {n : Nat}
    (h : t.kind.level? = some n) : (BinaryOp.ofText t.text).Known := by
  intro text
  cases hk : t.kind <;> simp [hk, TokenKind.level?] at h <;>
    rw [ht.sign _ (congrArg TokenKind.sign? hk)] <;> simp [BinaryOp.ofText]

/-! ## 3. Expressions -/

/-- All tokens that the stream can still show are well spelled. -/
abbrev Stream.Lexed (s : Stream) : Prop := s.All Token.WellSpelled

namespace Parse

open Reading

mutual

theorem primary_proper (s : Stream) (hs : s.Lexed) :
    (primary s).Gives fun e rest => e.Proper ∧ rest.Lexed := by
  rw [primary]
  split
  · exact gives_error _
  · rename_i t next hnext htake
    obtain ⟨ht, hlexed⟩ := hs.take? htake
    split
    · rename_i hkind
      split
      · exact gives_ok ⟨ht.name hkind, hlexed⟩
      · rename_i inner hinner haccept
        refine Gives.within (Gives.andThen ((arguments_proper inner ?_).follow hinner) ?_) hnext
        · exact hlexed.accept? haccept
        · rintro args rest hrest ⟨hargs, hl⟩
          refine Gives.andThen ((hl.expect _ _).follow hrest) ?_
          rintro _ after h ⟨-, hafter⟩
          exact gives_ok ⟨⟨ht.name hkind, hargs⟩, hafter⟩
    · split
      · exact gives_error _
      · exact gives_ok ⟨trivial, hlexed⟩
    · rename_i hkind
      exact gives_ok ⟨ht.string hkind, hlexed⟩
    · refine Gives.andThen ((expression_proper next hlexed).within hnext) ?_
      rintro e rest hrest ⟨he, hl⟩
      refine Gives.andThen ((hl.expect _ _).follow hrest) ?_
      rintro _ after h ⟨-, hafter⟩
      exact gives_ok ⟨he, hafter⟩
    · exact gives_error _
termination_by weight s 0
decreasing_by all_goals simp only [weight]; omega

theorem arguments_proper (s : Stream) (hs : s.Lexed) :
    (arguments s).Gives fun es rest => Expr.AllProper es ∧ rest.Lexed := by
  rw [arguments]
  split
  · exact gives_done ⟨trivial, hs⟩
  · refine Gives.loosen (Gives.andThen (expression_proper s hs) ?_)
    rintro e rest hrest ⟨he, hl⟩
    refine Gives.andThen ((moreArguments_proper rest hl).follow hrest) ?_
    rintro es after h ⟨hes, hafter⟩
    exact gives_ok ⟨⟨he, hes⟩, hafter⟩
termination_by weight s 12
decreasing_by all_goals simp only [weight]; omega

theorem moreArguments_proper (s : Stream) (hs : s.Lexed) :
    (moreArguments s).Gives fun es rest => Expr.AllProper es ∧ rest.Lexed := by
  rw [moreArguments]
  split
  · exact gives_done ⟨trivial, hs⟩
  · rename_i inner hinner haccept
    have hl := hs.accept? haccept
    refine Gives.loosen (Gives.andThen ((expression_proper inner hl).within hinner) ?_)
    rintro e rest hrest ⟨he, hl⟩
    refine Gives.andThen ((moreArguments_proper rest hl).follow hrest) ?_
    rintro es after h ⟨hes, hafter⟩
    exact gives_ok ⟨⟨he, hes⟩, hafter⟩
termination_by weight s 0
decreasing_by all_goals simp only [weight]; omega

theorem postfixed_proper (s : Stream) (hs : s.Lexed) :
    (postfixed s).Gives fun e rest => e.Proper ∧ rest.Lexed := by
  rw [postfixed]
  refine Gives.andThen (primary_proper s hs) ?_
  rintro e rest hrest ⟨he, hl⟩
  exact (subscripts_proper e rest he hl).follow hrest
termination_by weight s 1
decreasing_by all_goals simp only [weight]; omega

theorem subscripts_proper (e : Expr) (s : Stream) (he : e.Proper) (hs : s.Lexed) :
    (subscripts e s).Gives fun e rest => e.Proper ∧ rest.Lexed := by
  rw [subscripts]
  split
  · exact gives_done ⟨he, hs⟩
  · rename_i inner hinner haccept
    have hl := hs.accept? haccept
    refine Gives.loosen (Gives.andThen ((expression_proper inner hl).within hinner) ?_)
    rintro i rest hrest ⟨hi, hl⟩
    refine Gives.andThen ((hl.expect _ _).follow hrest) ?_
    rintro _ after h ⟨-, hafter⟩
    exact (subscripts_proper (.index e.pos e i) after ⟨he, hi⟩ hafter).follow h
termination_by weight s 0
decreasing_by all_goals simp only [weight]; omega

theorem unary_proper (s : Stream) (hs : s.Lexed) :
    (unary s).Gives fun e rest => e.Proper ∧ rest.Lexed := by
  rw [unary]
  split
  · exact gives_error _
  · rename_i t next hnext htake
    obtain ⟨ht, hlexed⟩ := hs.take? htake
    split
    · rename_i hkind
      refine Gives.andThen ((unary_proper next hlexed).within hnext) ?_
      rintro e rest h ⟨he, hl⟩
      exact gives_ok ⟨⟨ht.unary hkind, he⟩, hl⟩
    · exact postfixed_proper s hs
termination_by weight s 2
decreasing_by all_goals simp only [weight]; omega

theorem binary_proper (n : Nat) (s : Stream) (hs : s.Lexed) :
    (binary n s).Gives fun e rest => e.Proper ∧ rest.Lexed := by
  cases n with
  | zero =>
    rw [binary]
    exact unary_proper s hs
  | succ n =>
    rw [binary]
    refine Gives.andThen (binary_proper n s hs) ?_
    rintro e rest hrest ⟨he, hl⟩
    exact (operands_proper (n + 1) e rest he hl).follow hrest
termination_by weight s 3 + n
decreasing_by all_goals simp only [weight]; omega

theorem operands_proper (n : Nat) (left : Expr) (s : Stream) (hleft : left.Proper)
    (hs : s.Lexed) : (operands n left s).Gives fun e rest => e.Proper ∧ rest.Lexed := by
  rw [operands]
  split
  · exact gives_done ⟨hleft, hs⟩
  · rename_i t next hnext htake
    obtain ⟨ht, hlexed⟩ := hs.take? htake
    split
    · rename_i hlevel
      -- the right operand binds tighter, and no level is looser than the loosest
      have hloose := TokenKind.level?_le hlevel
      refine Gives.loosen (Gives.andThen ((binary_proper (n - 1) next hlexed).within hnext) ?_)
      rintro right rest hrest ⟨hright, hl⟩
      exact (operands_proper n (.binary left.pos (.ofText t.text) left right) rest
        ⟨ht.binary hlevel, hleft, hright⟩ hl).follow hrest
    · exact gives_done ⟨hleft, hs⟩
termination_by weight s 0
decreasing_by all_goals simp only [weight, loosest] at *; omega

theorem expression_proper (s : Stream) (hs : s.Lexed) :
    (expression s).Gives fun e rest => e.Proper ∧ rest.Lexed := by
  rw [expression]
  exact binary_proper loosest s hs
termination_by weight s 11
decreasing_by all_goals simp only [weight, loosest]; omega

end

/-! ## 4. Types and declarations of variables -/

/-- A token that names a type, names a proper one. -/
theorem type_text {s : Stream} {t : Token} {r : { r : Stream // r.size < s.size }}
    (htake : s.take? = some (t, r)) (h : s.isAtType = true) : t.text ∈ Ty.names := by
  have hhere : s.here = some t := by
    unfold Stream.take? at htake
    split at htake
    · rename_i head rest hahead
      cases htake
      unfold Stream.here
      rw [hahead]
    · cases htake
  unfold Stream.isAtType at h
  rw [hhere, Option.any_some, Bool.and_eq_true] at h
  exact List.contains_iff_mem.mp h.2

theorem stars_lexed (s : Stream) (hs : s.Lexed) : (stars s).Gives fun _ rest => rest.Lexed := by
  rw [stars]
  split
  · exact gives_done hs
  · rename_i next hnext haccept
    refine Gives.loosen (Gives.andThen ((stars_lexed next (hs.accept? haccept)).follow hnext) ?_)
    rintro n rest h hrest
    exact gives_ok hrest
termination_by s.size

theorem type_proper (s : Stream) (hs : s.Lexed) :
    (type s).Gives fun ty rest => ty.Proper ∧ rest.Lexed := by
  unfold type
  split
  · exact gives_error _
  · rename_i t next hnext htake
    split
    · rename_i hat
      refine Gives.andThen ((stars_lexed next (hs.take? htake).2).follow hnext) ?_
      rintro n rest h hrest
      exact gives_ok ⟨type_text htake hat, hrest⟩
    · exact gives_error _

theorem extent_lexed (s : Stream) (hs : s.Lexed) : (extent s).Gives fun _ rest => rest.Lexed := by
  unfold extent
  split
  · exact gives_done hs
  · rename_i inner hinner haccept
    refine Gives.loosen (Gives.andThen (((hs.accept? haccept).expect _ _).follow hinner) ?_)
    rintro size rest hrest ⟨-, hl⟩
    refine Gives.andThen ((hl.expect _ _).follow hrest) ?_
    rintro _ after h ⟨-, hafter⟩
    split
    · exact gives_error _
    · exact gives_ok hafter

theorem varRest_variable {ty : Ty} {name : String} (pos : Position) (s : Stream)
    (hname : IsName name) (hty : ty.Proper) (hs : s.Lexed) :
    (varRest pos ty name s).Gives fun d rest => d.IsVariable ∧ rest.Lexed := by
  unfold varRest
  refine Gives.andThen (extent_lexed s hs) ?_
  rintro size? rest hrest hl
  refine Gives.andThen ((hl.expect _ _).follow hrest) ?_
  rintro _ after h ⟨-, hafter⟩
  exact gives_ok ⟨.mk hname hty, hafter⟩

theorem typedName_proper (problem : SyntaxProblem) (s : Stream) (hs : s.Lexed) :
    (typedName problem s).Gives fun v rest => (v.2.1.Proper ∧ IsName v.2.2) ∧ rest.Lexed := by
  unfold typedName
  refine Gives.andThen (type_proper s hs) ?_
  rintro ty rest hrest ⟨hty, hl⟩
  refine Gives.andThen ((hl.expect _ _).follow hrest) ?_
  rintro name after h ⟨⟨hkind, hname⟩, hafter⟩
  exact gives_ok ⟨⟨hty, hname.name hkind⟩, hafter⟩

theorem locals_proper (s : Stream) (hs : s.Lexed) :
    (locals s).Gives fun ds rest => (∀ d ∈ ds, d.IsVariable) ∧ rest.Lexed := by
  rw [locals]
  split
  · refine Gives.loosen (Gives.andThen (typedName_proper _ s hs) ?_)
    rintro ⟨pos, ty, name⟩ s₁ h₁ ⟨⟨hty, hname⟩, hl₁⟩
    refine Gives.andThen ((varRest_variable pos s₁ hname hty hl₁).follow h₁) ?_
    rintro d s₂ h₂ ⟨hd, hl₂⟩
    refine Gives.andThen ((locals_proper s₂ hl₂).follow h₂) ?_
    rintro ds after h ⟨hds, hafter⟩
    exact gives_ok ⟨List.forall_mem_cons.mpr ⟨hd, hds⟩, hafter⟩
  · exact gives_done ⟨fun d hd => absurd hd List.not_mem_nil, hs⟩
termination_by s.size

theorem params_proper (s : Stream) (hs : s.Lexed) :
    (params s).Gives fun ds rest => (∀ d ∈ ds, d.IsParameter) ∧ rest.Lexed := by
  rw [params]
  refine Gives.andThen (typedName_proper _ s hs) ?_
  rintro ⟨pos, ty, name⟩ rest hrest ⟨⟨hty, hname⟩, hl⟩
  dsimp only
  split
  · exact gives_ok ⟨List.forall_mem_singleton.mpr (.mk hname hty), hl⟩
  · rename_i inner hinner haccept
    refine Gives.andThen (((params_proper inner (hl.accept? haccept)).within hinner).within hrest) ?_
    rintro ps after h ⟨hps, hafter⟩
    exact gives_ok ⟨List.forall_mem_cons.mpr ⟨.mk hname hty, hps⟩, hafter⟩
termination_by s.size

theorem formals_proper (s : Stream) (hs : s.Lexed) :
    (formals s).Gives fun ds rest => (∀ d ∈ ds, d.IsParameter) ∧ rest.Lexed := by
  unfold formals
  split
  · exact gives_done ⟨fun d hd => absurd hd List.not_mem_nil, hs⟩
  · exact (params_proper s hs).loosen

/-! ## 5. Statements -/

theorem simple_clause (s : Stream) (hs : s.Lexed) :
    (simple s).Gives fun st rest => st.IsClause ∧ rest.Lexed := by
  unfold simple
  refine Gives.andThen (unary_proper s hs) ?_
  rintro target s₁ h₁ ⟨htarget, hl₁⟩
  split
  · rename_i hcall
    rw [Bool.and_eq_true] at hcall
    exact gives_ok ⟨.call hcall.1 htarget, hl₁⟩
  · split
    · rename_i hlocation
      refine Gives.andThen ((hl₁.expect _ _).follow h₁) ?_
      rintro _ s₂ h₂ ⟨-, hl₂⟩
      refine Gives.andThen ((expression_proper s₂ hl₂).within h₂) ?_
      rintro value after h ⟨hvalue, hafter⟩
      exact gives_ok ⟨.assign hlocation htarget hvalue, hafter⟩
    · exact gives_error _

theorem condition_proper (start finish : SyntaxProblem) (s : Stream) (hs : s.Lexed) :
    (condition start finish s).Gives fun e rest => e.Proper ∧ rest.Lexed := by
  unfold condition
  refine Gives.andThen (hs.expect _ _) ?_
  rintro _ s₁ h₁ ⟨-, hl₁⟩
  refine Gives.andThen ((expression_proper s₁ hl₁).within h₁) ?_
  rintro cond s₂ h₂ ⟨hcond, hl₂⟩
  refine Gives.andThen ((hl₂.expect _ _).follow h₂) ?_
  rintro _ after h ⟨-, hafter⟩
  exact gives_ok ⟨hcond, hafter⟩

theorem returned_proper (pos : Position) (s : Stream) (hs : s.Lexed) :
    (returned pos s).Gives fun st rest => st.Proper ∧ rest.Lexed := by
  unfold returned
  split
  · rename_i after h haccept
    exact Gives.loosen (gives_ok ⟨fun _ he => (by cases he), hs.accept? haccept⟩)
  · refine Gives.loosen (Gives.andThen (expression_proper s hs) ?_)
    rintro value rest hrest ⟨hvalue, hl⟩
    refine Gives.andThen ((hl.expect _ _).follow hrest) ?_
    rintro _ after h ⟨-, hafter⟩
    refine gives_ok ⟨fun e he => ?_, hafter⟩
    cases he
    exact hvalue

theorem clauses_proper (s : Stream) (hs : s.Lexed) :
    (clauses s).Gives fun c rest =>
      (c.1.IsClause ∧ c.2.1.Proper ∧ c.2.2.IsClause) ∧ rest.Lexed := by
  unfold clauses
  refine Gives.andThen (hs.expect _ _) ?_
  rintro _ s₁ h₁ ⟨-, hl₁⟩
  refine Gives.andThen ((simple_clause s₁ hl₁).within h₁) ?_
  rintro init s₂ h₂ ⟨hinit, hl₂⟩
  refine Gives.andThen ((hl₂.expect _ _).follow h₂) ?_
  rintro _ s₃ h₃ ⟨-, hl₃⟩
  refine Gives.andThen ((expression_proper s₃ hl₃).within h₃) ?_
  rintro cond s₄ h₄ ⟨hcond, hl₄⟩
  refine Gives.andThen ((hl₄.expect _ _).follow h₄) ?_
  rintro _ s₅ h₅ ⟨-, hl₅⟩
  refine Gives.andThen ((simple_clause s₅ hl₅).within h₅) ?_
  rintro step s₆ h₆ ⟨hstep, hl₆⟩
  refine Gives.andThen ((hl₆.expect _ _).follow h₆) ?_
  rintro _ after h ⟨-, hafter⟩
  exact gives_ok ⟨⟨hinit, hcond, hstep⟩, hafter⟩

mutual

theorem body_proper (s : Stream) (hs : s.Lexed) :
    (body s).Gives fun b rest => b.Proper ∧ rest.Lexed := by
  rw [body]
  split
  · exact gives_error _
  · rename_i t next hnext htake
    split
    · refine Gives.andThen ((locals_proper next (hs.take? htake).2).follow hnext) ?_
      rintro ds s₁ h₁ ⟨hds, hl₁⟩
      refine Gives.andThen ((statements_proper s₁ hl₁).follow h₁) ?_
      rintro ss s₂ h₂ ⟨hss, hl₂⟩
      refine Gives.andThen ((hl₂.expect _ _).follow h₂) ?_
      rintro _ after h ⟨-, hafter⟩
      exact gives_ok ⟨⟨hds, hss⟩, hafter⟩
    · exact gives_error _
termination_by weight s 0
decreasing_by all_goals simp only [weight]; omega

theorem statements_proper (s : Stream) (hs : s.Lexed) :
    (statements s).Gives fun ss rest => Stmt.AllProper ss ∧ rest.Lexed := by
  rw [statements]
  split
  · exact gives_done ⟨trivial, hs⟩
  · split
    · exact gives_error _
    · refine Gives.loosen (Gives.andThen (statement_proper s hs) ?_)
      rintro st rest hrest ⟨hst, hl⟩
      refine Gives.andThen ((statements_proper rest hl).follow hrest) ?_
      rintro sts after h ⟨hsts, hafter⟩
      exact gives_ok ⟨⟨hst, hsts⟩, hafter⟩
termination_by weight s 2
decreasing_by all_goals simp only [weight]; omega

theorem statement_proper (s : Stream) (hs : s.Lexed) :
    (statement s).Gives fun st rest => st.Proper ∧ rest.Lexed := by
  rw [statement]
  split
  · exact gives_error _
  · rename_i t next hnext htake
    have hlexed := (hs.take? htake).2
    split
    · split
      · exact (returned_proper _ next hlexed).follow hnext
      · refine Gives.andThen ((condition_proper _ _ next hlexed).follow hnext) ?_
        rintro cond s₁ h₁ ⟨hcond, hl₁⟩
        refine Gives.andThen ((body_proper s₁ hl₁).within h₁) ?_
        rintro yes s₂ h₂ ⟨hyes, hl₂⟩
        split
        · exact gives_ok ⟨⟨hcond, hyes⟩, hl₂⟩
        · rename_i s₃ h₃ haccept
          have hl₃ := hl₂.acceptKeyword? haccept
          refine Gives.andThen (((body_proper s₃ hl₃).within h₃).within h₂) ?_
          rintro no after h ⟨hno, hafter⟩
          exact gives_ok ⟨⟨hcond, hyes, hno⟩, hafter⟩
      · refine Gives.andThen ((condition_proper _ _ next hlexed).follow hnext) ?_
        rintro cond s₁ h₁ ⟨hcond, hl₁⟩
        refine Gives.andThen ((body_proper s₁ hl₁).within h₁) ?_
        rintro b after h ⟨hb, hafter⟩
        exact gives_ok ⟨⟨hcond, hb⟩, hafter⟩
      · refine Gives.andThen ((clauses_proper next hlexed).follow hnext) ?_
        rintro ⟨init, cond, step⟩ s₁ h₁ ⟨⟨hinit, hcond, hstep⟩, hl₁⟩
        refine Gives.andThen ((body_proper s₁ hl₁).within h₁) ?_
        rintro b after h ⟨hb, hafter⟩
        exact gives_ok ⟨⟨hinit, hcond, hstep, hb⟩, hafter⟩
      · exact gives_error _
    · refine Gives.andThen (simple_clause s hs) ?_
      rintro st rest hrest ⟨hst, hl⟩
      refine Gives.andThen ((hl.expect _ _).follow hrest) ?_
      rintro _ after h ⟨-, hafter⟩
      exact gives_ok ⟨hst.proper, hafter⟩
termination_by weight s 1
decreasing_by all_goals simp only [weight]; omega

end

/-! ## 6. Programs -/

theorem functionRest_proper {head : FnHead} {params : List Decl} (s : Stream)
    (hhead : head.Proper) (hparams : ∀ d ∈ params, d.IsParameter) (hs : s.Lexed) :
    (functionRest head params s).Gives fun d rest => d.Proper ∧ rest.Lexed := by
  unfold functionRest
  split
  · rename_i after h haccept
    exact Gives.loosen (gives_ok ⟨.prototype hhead hparams, hs.accept? haccept⟩)
  · refine Gives.loosen (Gives.andThen (body_proper s hs) ?_)
    rintro b after h ⟨hb, hafter⟩
    exact gives_ok ⟨.function hhead hparams hb, hafter⟩

theorem declaration_proper (s : Stream) (hs : s.Lexed) :
    (declaration s).Gives fun d rest => d.Proper ∧ rest.Lexed := by
  unfold declaration
  refine Gives.andThen (typedName_proper _ s hs) ?_
  rintro ⟨pos, ty, name⟩ rest hrest ⟨⟨hty, hname⟩, hl⟩
  dsimp only
  split
  · intro p hp
    obtain ⟨hd, hafter⟩ := (varRest_variable pos rest hname hty hl).follow hrest p hp
    exact ⟨.var hd, hafter⟩
  · rename_i inner hinner haccept
    refine Gives.within (Gives.andThen
      ((formals_proper inner (hl.accept? haccept)).follow hinner) ?_) hrest
    rintro ps s₁ h₁ ⟨hps, hl₁⟩
    refine Gives.andThen ((hl₁.expect _ _).follow h₁) ?_
    rintro _ s₂ h₂ ⟨-, hl₂⟩
    exact (functionRest_proper s₂ ⟨hname, hty⟩ hps hl₂).follow h₂

theorem declarations_proper (s : Stream) (hs : s.Lexed) :
    (declarations s).Gives fun ds _ => ∀ d ∈ ds, d.Proper := by
  rw [declarations]
  split
  · exact gives_done fun d hd => absurd hd List.not_mem_nil
  · refine Gives.loosen (Gives.andThen (declaration_proper s hs) ?_)
    rintro d rest hrest ⟨hd, hl⟩
    refine Gives.andThen ((declarations_proper rest hl).follow hrest) ?_
    rintro ds after h hds
    exact gives_ok (List.forall_mem_cons.mpr ⟨hd, hds⟩)
termination_by s.size

/-- **From well-spelled tokens the parser makes a proper program.** -/
theorem parse_proper {tokens : List Token} {p : Program} (ht : ∀ t ∈ tokens, t.WellSpelled)
    (h : program tokens = .ok p) : p.Proper := by
  unfold program at h
  split at h
  · cases h
  · rename_i parsed hparsed
    cases h
    exact declarations_proper _ (Stream.all_ofTokens ht) parsed hparsed

end Parse

/-- The program of a source text; none for a text that cannot be read. -/
def Program.ofSource? (source : List Char) : Option Program :=
  match scan source with
  | .ok s => (Parse.program s.tokens).toOption
  | .error _ => none

/-- The program of a text is that of its characters. -/
theorem Program.ofSource?_of_text {text : String} {cs : List Char} {p : Program}
    (htext : text = String.ofList cs) (h : Program.ofSource? cs = some p) :
    Program.ofSource? text.toList = some p := by
  rw [htext, String.toList_ofList]
  exact h

/-- The program of a text whose characters are known. For the kernel it is far less work to go from
    the characters to the text than the other way. -/
theorem Program.exists_of_text {Q : Program → Prop} [DecidablePred Q] {text : String}
    {cs : List Char} (htext : text = String.ofList cs)
    (h : (Program.ofSource? cs).any (fun p => decide (Q p)) = true) :
    ∃ p, Program.ofSource? text.toList = some p ∧ Q p := by
  obtain ⟨p, hp, hQ⟩ := (Option.any_eq_true _ _).mp h
  rw [htext, String.toList_ofList]
  exact ⟨p, hp, of_decide_eq_true hQ⟩

/-- A program of a source text was read from the tokens of the text. -/
theorem Program.exists_scan_of_source {source : List Char} {p : Program}
    (h : Program.ofSource? source = some p) :
    ∃ s, scan source = .ok s ∧ Parse.program s.tokens = .ok p := by
  unfold Program.ofSource? at h
  split at h
  · rename_i s hs
    cases hp : Parse.program s.tokens with
    | error f => rw [hp] at h; cases h
    | ok q =>
      rw [hp] at h
      cases h
      exact ⟨s, hs, hp⟩
  · cases h

/-- **A program that was read from a source text is proper.** -/
theorem Program.proper_ofSource? {source : List Char} {p : Program}
    (h : Program.ofSource? source = some p) : p.Proper := by
  obtain ⟨s, hs, hp⟩ := Program.exists_scan_of_source h
  exact Parse.parse_proper (scan_wellSpelled hs) hp

end CMinusMinus
