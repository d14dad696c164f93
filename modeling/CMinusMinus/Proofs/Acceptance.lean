/-
  File:      CMinusMinus/Proofs/Acceptance.lean
  Subject:   The checker finds no error in a well-typed program.

  On a well-typed tree the checker has nothing to say about expressions and statements. About
  declarations it says that it took them in, and it may advise against a variable built on void;
  neither is an error. With the converse, `Program.Proper.wellTyped`, the checker accepts a program
  exactly if the rules do.

  * `decls_accepted` -- declarations that the rules take in;
  * `stmt_blameless`, `block_blameless` -- statements and blocks;
  * `Program.Proper.accepted_iff` -- programs.
-/
import CMinusMinus.Proofs.FunctionSites

namespace CMinusMinus

namespace Check

open Journal

/-! ## 1. Declarations -/

theorem declare_blameless {Γ : Scope} {name : String} {entry : Entry} {frame : Frame}
    (h : Γ.top.add name entry = .ok frame) (pos : Position) :
    (declare Γ pos name entry).2.Blameless := by
  unfold declare
  rw [h]
  exact blameless_trace _

/-- The advice against a variable built on void is a warning. -/
theorem variableDecl_blameless {Γ : Scope} {name : String} {ty : Ty} {frame : Frame}
    (h : Γ.top.add name (.variable { ty := ty }) = .ok frame) (pos : Position) :
    (variableDecl Γ pos name ty).2.Blameless := by
  refine blameless_append.mpr ⟨?_, declare_blameless h pos⟩
  split
  · intro d hd
    rw [List.mem_singleton.mp hd]
    exact Severity.noConfusion
  · exact blameless_nil

theorem parameterDecl_blameless {Γ : Scope} {name : String} {ty : Ty} {frame : Frame}
    (hvoid : ¬ (ty.name = "void" ∧ ty.pointers = 0))
    (h : Γ.top.add name (.variable { ty := ty }) = .ok frame) (pos : Position) :
    (parameterDecl Γ pos name ty).2.Blameless := by
  refine blameless_append.mpr ⟨(blameless_complainIf rfl).mpr ?_, declare_blameless h pos⟩
  simpa using hvoid

/-- **Declarations that the rules take in go into the innermost frame**, and none is an error. -/
theorem decls_accepted {frame frame' : Frame} {ds : List Decl} (h : Declares frame ds frame') :
    ∀ {Γ : Scope}, Γ.top = frame →
      (decls Γ ds).1 = Γ.withTop frame' ∧ (decls Γ ds).2.Blameless := by
  induction h with
  | nil =>
    intro Γ hΓ
    rw [decls, ← hΓ, Scope.withTop_top]
    exact ⟨rfl, blameless_nil⟩
  | @var frame middle frame' pos name ty ds hadd _ ih =>
    intro Γ hΓ
    rw [← hΓ] at hadd
    have hscope : (decl Γ (.variable pos name ty)).1 = Γ.withTop middle := declare_ok hadd pos
    obtain ⟨hrest, hquiet⟩ := ih (Γ := Γ.withTop middle) (Scope.top_withTop _ _)
    rw [decls, hscope, hrest, Scope.withTop_withTop]
    exact ⟨rfl, blameless_append.mpr ⟨variableDecl_blameless hadd pos, hquiet⟩⟩
  | @param frame middle frame' pos name ty ds hvoid hadd _ ih =>
    intro Γ hΓ
    rw [← hΓ] at hadd
    have hscope : (decl Γ (.parameter pos name ty)).1 = Γ.withTop middle := declare_ok hadd pos
    obtain ⟨hrest, hquiet⟩ := ih (Γ := Γ.withTop middle) (Scope.top_withTop _ _)
    rw [decls, hscope, hrest, Scope.withTop_withTop]
    exact ⟨rfl, blameless_append.mpr ⟨parameterDecl_blameless hvoid hadd pos, hquiet⟩⟩

theorem functionDecl_blameless {globals globals' : Frame} {head : FnHead} {params : List Decl}
    {tys : List Ty} {forward : Bool} (htys : paramTypes params = .ok tys)
    (hadd : globals.add head.name (.function ⟨head.ret, tys, forward⟩) = .ok globals') :
    (functionDecl { globals := globals } head params forward).2.Blameless := by
  unfold functionDecl
  rw [htys]
  exact declare_blameless (Γ := { globals := globals }) hadd head.pos

/-! ## 2. Statements -/

section Statements

variable {ret : Ty} {Γ : Scope} (hΓ : Γ.Proper)

include hΓ

theorem condition_blameless {e : Expr} (h : IsTruth Γ e) : (condition Γ e).Blameless := by
  obtain ⟨τ, he, hbool⟩ := h
  have hquiet := (offends_eq_false (he.proper hΓ)).mpr hbool
  unfold condition
  rw [typeOf_eq hΓ he, blameless_append, blameless_complainIf rfl]
  exact ⟨blameless_nil, hquiet⟩

/-- A clause of a `for` that is well typed. -/
theorem clause_blameless {st : Stmt} (hst : st.IsClause) (h : st.WellTyped ret Γ) :
    (stmt ret Γ st).Blameless := by
  cases hst with
  | assign =>
    cases h with
    | assign htarget hvalue hagree =>
      rw [stmt, assignment, typeOf_eq hΓ htarget, typeOf_eq hΓ hvalue, hagree]
      simp
  | call =>
    cases h with
    | call he =>
      rw [stmt, typeOf_eq hΓ he]
      exact blameless_nil

theorem returned_blameless {pos : Position} {value : Option Expr}
    (h : Stmt.WellTyped ret Γ (.ret pos value)) : (returned ret Γ pos value).Blameless := by
  cases h with
  | retNone hvoid =>
    rw [returned, hvoid]
    exact blameless_nil
  | retSome he hagree =>
    rw [returned, typeOf_eq hΓ he, hagree]
    simp

end Statements

mutual

/-- **The checker does not blame a well-typed statement.** -/
theorem stmt_blameless {ret : Ty} {Γ : Scope} (hΓ : Γ.Proper) : ∀ st : Stmt, st.Proper →
    st.WellTyped ret Γ → (stmt ret Γ st).Blameless
  | .assign _ _ _, hst, h => clause_blameless hΓ hst h
  | .ifThen _ _ body, hst, .ifThen hcond hbody => by
      rw [stmt, blameless_append]
      exact ⟨condition_blameless hΓ hcond,
        block_blameless hΓ Frame.proper_nil body hst.2 hbody⟩
  | .ifElse _ _ thenBody elseBody, hst, .ifElse hcond hthen helse => by
      rw [stmt, blameless_append, blameless_append]
      exact ⟨⟨condition_blameless hΓ hcond,
        block_blameless hΓ Frame.proper_nil thenBody hst.2.1 hthen⟩,
        block_blameless hΓ Frame.proper_nil elseBody hst.2.2 helse⟩
  | .whileLoop _ _ body, hst, .whileLoop hcond hbody => by
      rw [stmt, blameless_append]
      exact ⟨condition_blameless hΓ hcond,
        block_blameless hΓ Frame.proper_nil body hst.2 hbody⟩
  | .forLoop _ _ _ _ body, hst, .forLoop hinit hcond hstep hbody => by
      rw [stmt, blameless_append, blameless_append, blameless_append]
      exact ⟨⟨⟨clause_blameless hΓ hst.1 hinit, condition_blameless hΓ hcond⟩,
        clause_blameless hΓ hst.2.2.1 hstep⟩,
        block_blameless hΓ Frame.proper_nil body hst.2.2.2 hbody⟩
  | .call _ _, hst, h => clause_blameless hΓ hst h
  | .ret _ _, _, h => returned_blameless hΓ h
  | .misplaced _, hst, _ => hst.elim
  | .missing _ _, hst, _ => hst.elim

theorem block_blameless {ret : Ty} {Γ : Scope} (hΓ : Γ.Proper) {frame : Frame}
    (hframe : Frame.Proper frame) : ∀ b : Block, b.Proper → b.WellTyped ret Γ frame →
      (block ret (Γ.push frame) b).Blameless
  | .mk _ _ sts, hb, .mk hdecls hstmts => by
      obtain ⟨hscope, hquiet⟩ := decls_accepted hdecls (Scope.top_push Γ frame)
      have hinside := hdecls.proper (binding_of_variables hb.1) hframe
      rw [block, hscope, Scope.withTop_push]
      exact blameless_append.mpr ⟨hquiet, stmts_blameless (hΓ.push hinside) sts hb.2 hstmts⟩

theorem stmts_blameless {ret : Ty} {Γ : Scope} (hΓ : Γ.Proper) : ∀ sts : List Stmt,
    Stmt.AllProper sts → Stmt.AllWellTyped ret Γ sts → (stmts ret Γ sts).Blameless
  | [], _, _ => blameless_nil
  | st :: sts, hsts, .cons hst hrest =>
      blameless_append.mpr ⟨stmt_blameless hΓ st hsts.1 hst, stmts_blameless hΓ sts hsts.2 hrest⟩

end

/-! ## 3. Programs -/

theorem decl_blameless {globals globals' : Frame} {d : Decl} (hglobals : Frame.Proper globals)
    (hd : d.Proper) (h : d.WellTyped globals globals') :
    (decl { globals := globals } d).2.Blameless := by
  have hafter := h.proper hd hglobals
  cases h with
  | var hadd => exact variableDecl_blameless (Γ := { globals := globals }) hadd _
  | prototype htys hparams hadd =>
    rw [decl]
    exact blameless_append.mpr ⟨(decls_accepted hparams rfl).2, functionDecl_blameless htys hadd⟩
  | @function _ formals head params tys body htys hparams hadd hbody =>
    cases hd with
    | var hvar => cases hvar
    | function _ hvars hproper =>
      obtain ⟨hscope, hquiet⟩ := decls_accepted hparams
        (Γ := Scope.push { globals := globals } []) rfl
      have hformals := hparams.proper (binding_of_params hvars) Frame.proper_nil
      rw [decl, functionDecl_scope htys hadd, hscope, Scope.withTop_push, Scope.top_push]
      exact blameless_append.mpr ⟨blameless_append.mpr ⟨hquiet, functionDecl_blameless htys hadd⟩,
        block_blameless (Scope.proper_globals hafter) hformals body hproper hbody⟩

theorem decls_blameless {globals globals' : Frame} {ds : List Decl}
    (h : Decl.AllWellTyped globals ds globals') : Frame.Proper globals → (∀ d ∈ ds, d.Proper) →
      (decls { globals := globals } ds).2.Blameless := by
  induction h with
  | nil => exact fun _ _ => blameless_nil
  | @cons globals middle globals' d ds hd _ ih =>
    intro hglobals hproper
    obtain ⟨hfirst, hothers⟩ := List.forall_mem_cons.mp hproper
    rw [decls, decl_scope hd]
    exact blameless_append.mpr ⟨decl_blameless hglobals hfirst hd,
      ih (hd.proper hfirst hglobals) hothers⟩

end Check

/-- **The checker finds no error in a proper program exactly if it is well typed.** -/
theorem Program.Proper.accepted_iff {p : Program} (hp : p.Proper) : p.Accepted ↔ p.WellTyped := by
  refine ⟨hp.wellTyped, fun ⟨globals, h⟩ => ?_⟩
  have hquiet := Check.decls_blameless h Frame.proper_nil hp
  exact Journal.blameless_iff.mp
    (Journal.blameless_append.mpr ⟨hquiet, Journal.blameless_trace _⟩)

end CMinusMinus
