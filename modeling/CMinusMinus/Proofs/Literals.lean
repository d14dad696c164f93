/-
  File:      CMinusMinus/Proofs/Literals.lean
  Subject:   The string literals of a body and the pool of constants.

  Lowering puts a string literal into the pool where it comes to it, whether another one is equal
  to it or not. For a well-typed body the pool therefore grows by exactly the literals of the body,
  in the order of its code: the expressions of its statements one after the other, each from left
  to right.

  * `Block.exprs` -- the expressions of a block in the order of its code;
  * `Expr.literals`, `Block.literals`, `Program.literals` -- the string literals;
  * `Lower.modes_pools`, `Lower.block_pool` -- they are what the pool grows by.
-/
import CMinusMinus.Proofs.Passage

namespace CMinusMinus

/-! ## 1. Literals of the source -/

mutual

/-- The string literals of an expression, from left to right. -/
def Expr.literals : Expr → List String
  | .str _ text => [text]
  | .index _ array i => array.literals ++ i.literals
  | .call _ _ args => Expr.literalsOf args
  | .unary _ _ e => e.literals
  | .binary _ _ l r => l.literals ++ r.literals
  | .int _ _ | .var _ _ | .nameless _ _ | .misplaced _ => []

/-- The string literals of expressions one after the other. -/
def Expr.literalsOf : List Expr → List String
  | [] => []
  | e :: es => e.literals ++ Expr.literalsOf es

end

mutual

/-- The literals of a proper expression are not empty: their quotes belong to them. -/
theorem Expr.Proper.literals : ∀ {e : Expr}, e.Proper → ∀ text ∈ e.literals, text ≠ ""
  | .str _ _, h => fun _ htext => List.mem_singleton.mp htext ▸ h
  | .index _ _ _, h =>
      List.forall_mem_append.mpr ⟨Expr.Proper.literals h.1, Expr.Proper.literals h.2⟩
  | .call _ _ _, h => Expr.AllProper.literals h.2
  | .unary _ _ operand, h => Expr.Proper.literals (e := operand) h.2
  | .binary _ _ _ _, h =>
      List.forall_mem_append.mpr ⟨Expr.Proper.literals h.2.1, Expr.Proper.literals h.2.2⟩
  | .int _ _, _ | .var _ _, _ => fun _ h => absurd h List.not_mem_nil
  | .nameless _ _, h | .misplaced _, h => h.elim

theorem Expr.AllProper.literals : ∀ {es : List Expr}, Expr.AllProper es →
    ∀ text ∈ Expr.literalsOf es, text ≠ ""
  | [], _ => fun _ h => absurd h List.not_mem_nil
  | _ :: _, h =>
      List.forall_mem_append.mpr ⟨Expr.Proper.literals h.1, Expr.AllProper.literals h.2⟩

end

mutual

/-- The expressions of a statement, in the order of its code. -/
def Stmt.exprs : Stmt → List Expr
  | .assign _ target exp => [target, exp]
  | .ifThen _ cond body | .whileLoop _ cond body => cond :: body.exprs
  | .ifElse _ cond thenBody elseBody => cond :: (thenBody.exprs ++ elseBody.exprs)
  | .forLoop _ init cond step body => init.exprs ++ cond :: (body.exprs ++ step.exprs)
  | .call _ e => [e]
  | .ret _ value => value.toList
  | .misplaced _ | .missing _ _ => []

/-- The expressions of a block, in the order of its code. -/
def Block.exprs : Block → List Expr
  | .mk _ _ sts => Stmt.exprsOf sts

/-- The expressions of statements one after the other. -/
def Stmt.exprsOf : List Stmt → List Expr
  | [] => []
  | st :: sts => st.exprs ++ Stmt.exprsOf sts

end

theorem Stmt.IsClause.exprs {st : Stmt} (h : st.IsClause) : ∀ e ∈ st.exprs, e.Proper := by
  cases h with
  | assign _ htarget hvalue => simp [Stmt.exprs, htarget, hvalue]
  | call _ he => simp [Stmt.exprs, he]

mutual

/-- The expressions of a proper statement are proper. -/
theorem Stmt.Proper.exprs : ∀ {st : Stmt}, st.Proper → ∀ e ∈ st.exprs, e.Proper
  | .assign _ _ _, h | .call _ _, h => Stmt.IsClause.exprs h
  | .ifThen _ _ _, h | .whileLoop _ _ _, h => List.forall_mem_cons.mpr ⟨h.1, Block.Proper.exprs h.2⟩
  | .ifElse _ _ _ _, h => by
      have hbodies :=
        List.forall_mem_append.mpr ⟨Block.Proper.exprs h.2.1, Block.Proper.exprs h.2.2⟩
      exact List.forall_mem_cons.mpr ⟨h.1, hbodies⟩
  | .forLoop _ _ _ _ _, h => by
      have hrest := List.forall_mem_append.mpr ⟨Block.Proper.exprs h.2.2.2, h.2.2.1.exprs⟩
      exact List.forall_mem_append.mpr ⟨h.1.exprs, List.forall_mem_cons.mpr ⟨h.2.1, hrest⟩⟩
  | .ret _ _, h => fun e he => h e (Option.mem_toList.mp he)
  | .misplaced _, h | .missing _ _, h => h.elim

theorem Block.Proper.exprs : ∀ {b : Block}, b.Proper → ∀ e ∈ b.exprs, e.Proper
  | .mk _ _ _, h => Stmt.AllProper.exprs h.2

theorem Stmt.AllProper.exprs : ∀ {sts : List Stmt}, Stmt.AllProper sts →
    ∀ e ∈ Stmt.exprsOf sts, e.Proper
  | [], _ => fun _ h => absurd h List.not_mem_nil
  | _ :: _, h => List.forall_mem_append.mpr ⟨Stmt.Proper.exprs h.1, Stmt.AllProper.exprs h.2⟩

end

/-- The string literals of a block, in the order of its code. -/
def Block.literals (b : Block) : List String := b.exprs.flatMap Expr.literals

theorem Block.Proper.literals {b : Block} (h : b.Proper) : ∀ text ∈ b.literals, text ≠ "" := by
  intro text htext
  obtain ⟨e, he, hmem⟩ := List.mem_flatMap.mp htext
  exact (h.exprs e he).literals text hmem

/-- The string literals of a declaration. -/
def Decl.literals : Decl → List String
  | .function _ _ body => body.literals
  | _ => []

/-- The string literals of declarations, in the order of their code. -/
def literalsIn (ds : List Decl) : List String := ds.flatMap Decl.literals

@[simp] theorem literalsIn_append (ds₁ ds₂ : List Decl) :
    literalsIn (ds₁ ++ ds₂) = literalsIn ds₁ ++ literalsIn ds₂ := List.flatMap_append

/-- The string literals of a program, in the order of its code. -/
def Program.literals (p : Program) : List String := literalsIn p.decls

theorem Decl.Proper.literals {d : Decl} (h : d.Proper) : ∀ text ∈ d.literals, text ≠ "" := by
  cases h with
  | var hvar =>
    obtain ⟨-, -⟩ := hvar
    exact List.forall_mem_nil _
  | prototype _ _ => exact List.forall_mem_nil _
  | function _ _ hbody => exact hbody.literals

theorem Program.Proper.literals {p : Program} (h : p.Proper) :
    ∀ text ∈ p.literals, text ≠ "" := by
  intro text htext
  obtain ⟨d, hd, hmem⟩ := List.mem_flatMap.mp htext
  exact (h d hd).literals text hmem

namespace Lower

/-! ## 2. Expressions -/

namespace State

@[simp] theorem pool_afterLabel (s : State) : s.afterLabel.alloc.pool = s.alloc.pool := rfl

@[simp] theorem pool_afterTemporary (s : State) : s.afterTemporary.alloc.pool = s.alloc.pool := rfl

@[simp] theorem pool_overhear (s : State) (j : Journal) :
    (s.overhear j).alloc.pool = s.alloc.pool := rfl

end State

namespace Modes

/-- In both modes the pool grows by the texts. -/
structure Pools (m : Modes) (texts : List String) : Prop where
  value : ∀ s, (m.value s).after.alloc.pool = s.alloc.pool ++ texts
  branch : ∀ t s, (m.branch t s).after.alloc.pool = s.alloc.pool ++ texts

variable {left right operand : Modes} {texts ts₁ ts₂ : List String}

theorem pools_ofValue {value : State → Emitted}
    (h : ∀ s, (value s).after.alloc.pool = s.alloc.pool ++ texts) : (ofValue value).Pools texts :=
  ⟨h, fun _ => h⟩

theorem pools_ofBranch {branch : Targets Target → State → Lowered}
    (h : ∀ t s, (branch t s).after.alloc.pool = s.alloc.pool ++ texts) :
    (ofBranch branch).Pools texts := ⟨fun _ => h _ _, h⟩

theorem pools_ofOperand (operand : Operand) : (ofOperand operand).Pools [] :=
  pools_ofValue fun _ => (List.append_nil _).symm

theorem pools_compute (hl : left.Pools ts₁) (hr : right.Pools ts₂)
    (instr : Operand → Operand → Operand → Instr) :
    (compute left right instr).Pools (ts₁ ++ ts₂) :=
  pools_ofValue fun s => by simp [hl.value, hr.value]

theorem pools_compare (op : RelOp) (hl : left.Pools ts₁) (hr : right.Pools ts₂) :
    (compare op left right).Pools (ts₁ ++ ts₂) :=
  pools_ofBranch fun t s => by simp [hl.value, hr.value]

theorem pools_conjunction (hl : left.Pools ts₁) (hr : right.Pools ts₂) :
    (conjunction left right).Pools (ts₁ ++ ts₂) :=
  pools_ofBranch fun t s => by simp [hl.branch, hr.branch]

theorem pools_disjunction (hl : left.Pools ts₁) (hr : right.Pools ts₂) :
    (disjunction left right).Pools (ts₁ ++ ts₂) :=
  pools_ofBranch fun t s => by simp [hl.branch, hr.branch]

/-- A call whose function is found, given what its arguments add. -/
theorem pools_functionCall {Γ : Scope} {name : String} {types : Check.Verdicts} {args : List Modes}
    {f : Signature} (hf : Γ.function? name types.tys = some f)
    (hargs : ∀ s, (handOver 0 args s).after.alloc.pool = s.alloc.pool ++ texts) :
    (functionCall Γ name types args).Pools texts := by
  refine pools_ofValue fun s => ?_
  simp only [hf]
  split <;> simp [hargs]

end Modes

mutual

/-- **The pool grows by the literals of a well-typed expression**, in both modes. -/
theorem modes_pools {Γ : Scope} (hΓ : Γ.Proper) : ∀ {e : Expr} {τ : Ty}, HasType Γ e τ →
    (modes Γ e).Pools e.literals
  | _, _, .int => Modes.pools_ofOperand _
  | _, _, .str => Modes.pools_ofValue fun _ => rfl
  | _, _, .var hv => by
      rw [modes, Modes.ofVar, hΓ.soundVar?, hv]
      exact Modes.pools_ofOperand _
  | _, _, .index ha hi _ => Modes.pools_compute (modes_pools hΓ ha) (modes_pools hΓ hi) _
  | _, _, .system hname hargs _ => by
      rw [modes, Modes.call, if_pos hname]
      exact Modes.pools_ofValue (modesOf_pools hΓ hargs).1
  | _, _, .call hname hargs hf => by
      rw [modes, Modes.call, if_neg (Bool.eq_false_iff.mp hname), Check.typesOf_eq hΓ hargs]
      exact Modes.pools_functionCall hf ((modesOf_pools hΓ hargs).2 0)
  | _, _, .neg he _ => Modes.pools_ofValue (modes_pools hΓ he).value
  | _, _, .not he _ => Modes.pools_ofBranch fun _ => (modes_pools hΓ he).branch _
  | _, _, .address he _ | _, _, .deref he _ => Modes.pools_ofValue (modes_pools hΓ he).value
  | _, _, .arith hl hr _ _ => Modes.pools_compute (modes_pools hΓ hl) (modes_pools hΓ hr) _
  | _, _, .rel hl hr _ _ => Modes.pools_compare _ (modes_pools hΓ hl) (modes_pools hΓ hr)
  | _, _, .and hl hr _ _ => Modes.pools_conjunction (modes_pools hΓ hl) (modes_pools hΓ hr)
  | _, _, .or hl hr _ _ => Modes.pools_disjunction (modes_pools hΓ hl) (modes_pools hΓ hr)

/-- The same for arguments, whether they are read and written or handed over. -/
theorem modesOf_pools {Γ : Scope} (hΓ : Γ.Proper) : ∀ {es : List Expr} {τs : List Ty},
    HaveTypes Γ es τs →
      (∀ s, (Modes.sequence (modesOf Γ es) s).2.2.alloc.pool =
        s.alloc.pool ++ Expr.literalsOf es) ∧
      ∀ place s, (Modes.handOver place (modesOf Γ es) s).after.alloc.pool =
        s.alloc.pool ++ Expr.literalsOf es
  | _, _, .nil => ⟨fun _ => (List.append_nil _).symm, fun _ _ => (List.append_nil _).symm⟩
  | _, _, .cons he hes => by
      have hfirst := (modes_pools hΓ he).value
      obtain ⟨hsequence, hhandOver⟩ := modesOf_pools hΓ hes
      constructor
      · intro s
        simp [modesOf, Modes.sequence, Expr.literalsOf, hfirst, hsequence]
      · intro place s
        simp [modesOf, Modes.handOver, Expr.literalsOf, hfirst, hhandOver]

end

/-! ## 3. Statements -/

section Statements

variable (label : String) {ret : Ty} {Γ : Scope} (hΓ : Γ.bare.Proper)

include hΓ

theorem value_pool {e : Expr} {τ : Ty} (he : HasType Γ.bare e τ) (s : State) :
    (value Γ e s).after.alloc.pool = s.alloc.pool ++ e.literals :=
  (modes_pools (Γ.proper_bare.mp hΓ) he.of_bare).value s

theorem branch_pool {e : Expr} (he : IsTruth Γ.bare e) (t : Targets Target) (s : State) :
    (branch Γ e t s).after.alloc.pool = s.alloc.pool ++ e.literals := by
  obtain ⟨τ, hτ, -⟩ := he
  exact (modes_pools (Γ.proper_bare.mp hΓ) hτ.of_bare).branch t s

theorem clause_pool {st : Stmt} (hst : st.IsClause) (h : st.WellTyped ret Γ.bare) (next : Target)
    (s : State) :
    (stmt label Γ st next s).after.alloc.pool = s.alloc.pool ++ st.exprs.flatMap Expr.literals := by
  cases h with
  | assign htarget hvalue _ =>
    rw [stmt]
    unfold assignment
    split
    · cases htarget with
      | index harray hi _ =>
        simp [Stmt.exprs, Expr.literals, value_pool hΓ harray, value_pool hΓ hi,
          value_pool hΓ hvalue]
    · simp [Stmt.exprs, value_pool hΓ htarget, value_pool hΓ hvalue]
  | call he =>
    cases hst with
    | call hcall _ =>
      rw [stmt, effect, if_pos hcall]
      simp [Stmt.exprs, value_pool hΓ he]
  | _ => cases hst

end Statements

mutual

/-- **The pool grows by the literals of a well-typed statement.** -/
theorem stmt_pool (label : String) {ret : Ty} {Γ : Scope} (hΓ : Γ.bare.Proper) : ∀ st : Stmt,
    st.Proper → st.WellTyped ret Γ.bare → ∀ next s,
      (stmt label Γ st next s).after.alloc.pool = s.alloc.pool ++ st.exprs.flatMap Expr.literals
  | .assign _ _ _, hst, h, next, s => clause_pool label hΓ hst h next s
  | .ifThen _ cond body, hst, h, next, s => by
      cases h with
      | ifThen hcond hbody =>
        have hb := block_pool label hΓ [] Frame.proper_nil body hst.2 hbody
        simp [stmt, Stmt.exprs, branch_pool hΓ hcond, hb, Block.literals]
  | .ifElse _ cond thenBody elseBody, hst, h, next, s => by
      cases h with
      | ifElse hcond hthen helse =>
        have ha := block_pool label hΓ [] Frame.proper_nil thenBody hst.2.1 hthen
        have hb := block_pool label hΓ [] Frame.proper_nil elseBody hst.2.2 helse
        simp [stmt, Stmt.exprs, branch_pool hΓ hcond, ha, hb, Block.literals]
  | .whileLoop _ cond body, hst, h, next, s => by
      cases h with
      | whileLoop hcond hbody =>
        have hb := block_pool label hΓ [] Frame.proper_nil body hst.2 hbody
        simp [stmt, Stmt.exprs, branch_pool hΓ hcond, hb, Block.literals]
  | .forLoop _ init cond step body, hst, h, next, s => by
      cases h with
      | forLoop hinit hcond hstep hbody =>
        have hi := clause_pool label hΓ hst.1 hinit
        have hb := block_pool label hΓ [] Frame.proper_nil body hst.2.2.2 hbody
        have hn := clause_pool label hΓ hst.2.2.1 hstep
        simp [stmt, Stmt.exprs, hi, branch_pool hΓ hcond, hb, hn, Block.literals]
  | .call _ _, hst, h, next, s => clause_pool label hΓ hst h next s
  | .ret _ none, _, _, _, _ => (List.append_nil _).symm
  | .ret _ (some e), _, h, _, s => by
      cases h with
      | retSome he _ => simp [stmt, returned, Stmt.exprs, value_pool hΓ he]
  | .misplaced _, hst, _, _, _ => hst.elim
  | .missing _ _, hst, _, _, _ => hst.elim

theorem block_pool (label : String) {ret : Ty} {Γ : Scope} (hΓ : Γ.bare.Proper) (frame : Frame)
    (hframe : Frame.Proper (Frame.bare frame)) : ∀ b : Block, b.Proper →
    b.WellTyped ret Γ.bare (Frame.bare frame) → ∀ s,
      (block label Γ frame b s).after.alloc.pool = s.alloc.pool ++ b.literals
  | .mk _ ds sts, hb, h, s => by
      cases h with
      | mk hdecls hstmts =>
        have hΓ' := placeDecls_proper .local hΓ hframe (binding_of_variables hb.1) hdecls s
        rw [← placeDecls_bare .local hdecls s, ← Scope.bare_push] at hstmts
        have hpool : (placeDecls .local frame ds s).2.alloc.pool = s.alloc.pool :=
          placeDecls_keeps (π := Allocator.pool) (fun _ => rfl) ds frame s
        rw [block, stmts_pool label hΓ' sts hb.2 hstmts, hpool]
        rfl

theorem stmts_pool (label : String) {ret : Ty} {Γ : Scope} (hΓ : Γ.bare.Proper) :
    ∀ sts : List Stmt, Stmt.AllProper sts → Stmt.AllWellTyped ret Γ.bare sts → ∀ s,
      (stmts label Γ sts s).after.alloc.pool =
        s.alloc.pool ++ (Stmt.exprsOf sts).flatMap Expr.literals
  | [], _, _, _ => (List.append_nil _).symm
  | st :: sts, hsts, h, s => by
      cases h with
      | cons hst hrest =>
        have hfirst := stmt_pool label hΓ st hsts.1 hst
        have hothers := stmts_pool label hΓ sts hsts.2 hrest
        simp [stmts, Stmt.exprsOf, hfirst, hothers]

end

end Lower

end CMinusMinus
