/-
  File:      CMinusMinus/Proofs/LawfulPrograms.lean
  Subject:   The checker accepts exactly the lawful programs.

  Where the tables of a scope reflect the declarations around a place, the law and the rules over
  tables say the same of what stands there: an expression has the same types, a block is lawful
  exactly if it is well typed. From the empty program on, the tables of the checker do reflect the
  declarations that it has passed.

  * `Expr.Typed.hasType`, `HasType.typed` -- expressions;
  * `Block.lawful_iff`, `Decl.lawful_iff` -- blocks, and declarations at the top;
  * `checker_accepts_iff` -- programs.
-/
import CMinusMinus.Proofs.Acceptance
import CMinusMinus.Proofs.Tables
import Mathlib.Data.List.Forall2

namespace CMinusMinus

/-! ## 1. Expressions -/

/-- A name means the same variable in tables that reflect the scopes. -/
theorem nearest_iff_findSome? {scopes : List (List Decl)} {frames : List Frame}
    (h : List.Forall₂ Reflects scopes frames) (x : String) (τ : Ty) :
    Nearest scopes x τ ↔ ∃ v, frames.findSome? (fun frame => frame.var? x) = some v ∧ v.ty = τ := by
  induction h with
  | nil => simp [Nearest]
  | @cons ds frame outer frames hframe _ ih =>
    rw [List.findSome?_cons, Nearest, ih, ← hframe.var x τ]
    cases hx : frame.var? x with
    | none =>
      have hno : ∀ d ∈ ds, ∀ σ, ¬ d.Binds x σ := by
        intro d hd σ hσ
        obtain ⟨v, hv, -⟩ := (hframe.var x σ).mpr ⟨d, hd, hσ⟩
        rw [hx] at hv
        cases hv
      exact ⟨fun hor => hor.elim (fun ⟨_, hv, _⟩ => nomatch hv) And.right,
        fun houter => .inr ⟨hno, houter⟩⟩
    | some v =>
      obtain ⟨d, hd, hbinds⟩ := (hframe.var x v.ty).mp ⟨v, hx, rfl⟩
      exact ⟨fun hor => hor.elim id fun hr => absurd hbinds (hr.1 d hd v.ty), .inl⟩

/-- A scope reflects what is declared around an expression, table by table. -/
structure Mirrors (Δ : Context) (Γ : Scope) : Prop where
  inner : List.Forall₂ Reflects Δ.inner Γ.inner
  globals : Reflects Δ.globals Γ.globals

namespace Mirrors

variable {Δ : Context} {Γ : Scope}

theorem push (h : Mirrors Δ Γ) {ds : List Decl} {frame : Frame} (hframe : Reflects ds frame) :
    Mirrors (Δ.push ds) (Γ.push frame) :=
  ⟨.cons hframe h.inner, h.globals⟩

theorem nearest_iff (h : Mirrors Δ Γ) (x : String) (τ : Ty) :
    Nearest Δ.scopes x τ ↔ ∃ v, Γ.var? x = some v ∧ v.ty = τ :=
  nearest_iff_findSome? (List.rel_append h.inner (.cons h.globals .nil)) x τ

theorem resolves_iff (h : Mirrors Δ Γ) (name : String) (τs : List Ty) (f : Signature) :
    Resolves Δ.globals name τs f ↔ Γ.function? name τs = some f :=
  (h.globals.function name τs f).symm

end Mirrors

mutual

/-- What has a type under the law has it by the rules over tables. -/
theorem Expr.Typed.hasType {Δ : Context} {Γ : Scope} (h : Mirrors Δ Γ) : ∀ {e : Expr} {τ : Ty},
    e.Typed Δ τ → HasType Γ e τ
  | .int _ _, _, ht => ht ▸ .int
  | .str _ _, _, ht => ht ▸ .str
  | .var _ x, τ, ht => by
      obtain ⟨v, hv, hτ⟩ := (h.nearest_iff x τ).mp ht
      exact hτ ▸ .var hv
  | .index _ _ _, _, ⟨_, _, ha, hi, hint, hτ⟩ =>
      hτ ▸ .index (Expr.Typed.hasType h ha) (Expr.Typed.hasType h hi) hint
  | .call _ name _, _, ⟨τs, hargs, hcall⟩ => by
      have hargs := Expr.AllTyped.haveTypes h hargs
      split at hcall
      · rename_i hname
        exact hcall.2 ▸ .system hname hargs hcall.1
      · rename_i hname
        obtain ⟨f, hf, hτ⟩ := hcall
        exact hτ ▸ .call (Bool.eq_false_iff.mpr hname) hargs ((h.resolves_iff name τs f).mp hf)
  | .unary _ .neg _, _, ⟨⟨_, he, hint⟩, hτ⟩ => hτ ▸ .neg (Expr.Typed.hasType h he) hint
  | .unary _ .not _, _, ⟨⟨_, he, hbool⟩, hτ⟩ => hτ ▸ .not (Expr.Typed.hasType h he) hbool
  | .unary _ .address _, _, ⟨hvar, he⟩ => .address (Expr.Typed.hasType h he) hvar
  | .unary _ .deref _, _, ⟨hvar, he⟩ => .deref (Expr.Typed.hasType h he) hvar
  | .binary _ (.arith _) _ _, _, ⟨⟨_, hl, hα⟩, ⟨_, hr, hβ⟩, hτ⟩ =>
      hτ ▸ .arith (Expr.Typed.hasType h hl) (Expr.Typed.hasType h hr) hα hβ
  | .binary _ (.rel _) _ _, _, ⟨⟨_, hl, hα⟩, ⟨_, hr, hβ⟩, hτ⟩ =>
      hτ ▸ .rel (Expr.Typed.hasType h hl) (Expr.Typed.hasType h hr) hα hβ
  | .binary _ .and _ _, _, ⟨⟨_, hl, hα⟩, ⟨_, hr, hβ⟩, hτ⟩ =>
      hτ ▸ .and (Expr.Typed.hasType h hl) (Expr.Typed.hasType h hr) hα hβ
  | .binary _ .or _ _, _, ⟨⟨_, hl, hα⟩, ⟨_, hr, hβ⟩, hτ⟩ =>
      hτ ▸ .or (Expr.Typed.hasType h hl) (Expr.Typed.hasType h hr) hα hβ

theorem Expr.AllTyped.haveTypes {Δ : Context} {Γ : Scope} (h : Mirrors Δ Γ) :
    ∀ {es : List Expr} {τs : List Ty}, Expr.AllTyped Δ es τs → HaveTypes Γ es τs
  | [], _, ht => ht ▸ .nil
  | _ :: _, _, ⟨_, _, hτs, he, hes⟩ =>
      hτs ▸ .cons (Expr.Typed.hasType h he) (Expr.AllTyped.haveTypes h hes)

end

mutual

/-- What has a type by the rules over tables has it under the law. -/
theorem HasType.typed {Δ : Context} {Γ : Scope} (h : Mirrors Δ Γ) : ∀ {e : Expr} {τ : Ty},
    HasType Γ e τ → e.Typed Δ τ
  | _, _, .int => rfl
  | _, _, .str => rfl
  | _, _, .var hv => (h.nearest_iff _ _).mpr ⟨_, hv, rfl⟩
  | _, _, .index ha hi hint => ⟨_, _, ha.typed h, hi.typed h, hint, rfl⟩
  | _, _, .system hname hargs hone => by
      refine ⟨_, hargs.typed h, ?_⟩
      rw [if_pos hname]
      exact ⟨hone, rfl⟩
  | _, _, .call hname hargs hf => by
      refine ⟨_, hargs.typed h, ?_⟩
      rw [if_neg (Bool.eq_false_iff.mp hname)]
      exact ⟨_, (h.resolves_iff _ _ _).mpr hf, rfl⟩
  | _, _, .neg he hint => ⟨⟨_, he.typed h, hint⟩, rfl⟩
  | _, _, .not he hbool => ⟨⟨_, he.typed h, hbool⟩, rfl⟩
  | _, _, .address he hvar => ⟨hvar, he.typed h⟩
  | _, _, .deref he hvar => ⟨hvar, he.typed h⟩
  | _, _, .arith hl hr hα hβ => ⟨⟨_, hl.typed h, hα⟩, ⟨_, hr.typed h, hβ⟩, rfl⟩
  | _, _, .rel hl hr hα hβ => ⟨⟨_, hl.typed h, hα⟩, ⟨_, hr.typed h, hβ⟩, rfl⟩
  | _, _, .and hl hr hα hβ => ⟨⟨_, hl.typed h, hα⟩, ⟨_, hr.typed h, hβ⟩, rfl⟩
  | _, _, .or hl hr hα hβ => ⟨⟨_, hl.typed h, hα⟩, ⟨_, hr.typed h, hβ⟩, rfl⟩

theorem HaveTypes.typed {Δ : Context} {Γ : Scope} (h : Mirrors Δ Γ) :
    ∀ {es : List Expr} {τs : List Ty}, HaveTypes Γ es τs → Expr.AllTyped Δ es τs
  | _, _, .nil => rfl
  | _, _, .cons he hes => ⟨_, _, rfl, he.typed h, hes.typed h⟩

end

/-! ## 2. Statements -/

theorem Decl.admissible_variable_iff {before : List Decl} {pos : Position} {x : String} {τ : Ty} :
    (Decl.variable pos x τ).Admissible before ↔ ∀ d ∈ before, d.name? ≠ some x := by
  constructor
  · exact fun h => h.fresh x τ (.variable pos)
  · intro h
    refine ⟨fun y σ hy => ?_, fun _ _ hf => (nomatch hf), fun _ _ _ heq => (nomatch heq)⟩
    cases hy
    exact h

theorem Decl.admissible_parameter_iff {before : List Decl} {pos : Position} {x : String} {τ : Ty} :
    (Decl.parameter pos x τ).Admissible before ↔
      ¬ (τ.name = "void" ∧ τ.pointers = 0) ∧ ∀ d ∈ before, d.name? ≠ some x := by
  constructor
  · exact fun h => ⟨h.notVoid pos x τ rfl, h.fresh x τ (.parameter pos)⟩
  · intro ⟨hvoid, h⟩
    refine ⟨fun y σ hy => ?_, fun _ _ hf => (nomatch hf), fun _ _ _ heq => ?_⟩
    · cases hy
      exact h
    · cases heq
      exact hvoid

section Declarations

variable {own ds : List Decl} {d : Decl} {frame frame' : Frame} (h : Reflects own frame)

include h

/-- The first declaration that is taken in is admissible. -/
theorem Reflects.of_declares (hall : Declares frame (d :: ds) frame') :
    d.Admissible own ∧ ∃ middle, Reflects (own ++ [d]) middle ∧ Declares middle ds frame' := by
  cases hall with
  | var hadd hrest =>
    exact ⟨Decl.admissible_variable_iff.mpr ((h.addVariable_ok_iff _ _).mp ⟨_, hadd⟩),
      _, h.addVariable (.variable _) hadd, hrest⟩
  | param hvoid hadd hrest =>
    exact ⟨Decl.admissible_parameter_iff.mpr ⟨hvoid, (h.addVariable_ok_iff _ _).mp ⟨_, hadd⟩⟩,
      _, h.addVariable (.parameter _) hadd, hrest⟩

/-- A declaration that is admissible is taken in. -/
theorem Reflects.declare (hd : d.IsBinding) (hadm : d.Admissible own) :
    ∃ middle, Reflects (own ++ [d]) middle ∧
      ∀ {ds frame'}, Declares middle ds frame' → Declares frame (d :: ds) frame' := by
  rcases hd with hd | hd
  · obtain ⟨-, -⟩ := hd
    obtain ⟨middle, hadd⟩ := (h.addVariable_ok_iff _ _).mpr (Decl.admissible_variable_iff.mp hadm)
    exact ⟨middle, h.addVariable (.variable _) hadd, .var hadd⟩
  · obtain ⟨-, -⟩ := hd
    obtain ⟨hvoid, hnew⟩ := Decl.admissible_parameter_iff.mp hadm
    obtain ⟨middle, hadd⟩ := (h.addVariable_ok_iff _ _).mpr hnew
    exact ⟨middle, h.addVariable (.parameter _) hadd, .param hvoid hadd⟩

end Declarations

/-- **Declarations of a block or a parameter list are taken in exactly if they are admissible.** -/
theorem declares_iff : ∀ {ds own : List Decl} {frame : Frame}, (∀ d ∈ ds, d.IsBinding) →
    Reflects own frame → ((∃ frame', Declares frame ds frame') ↔ Admitted own ds)
  | [], _, frame, _, _ => ⟨fun _ => trivial, fun _ => ⟨frame, .nil⟩⟩
  | d :: ds, own, frame, hds, h => by
      obtain ⟨hd, hds⟩ := List.forall_mem_cons.mp hds
      constructor
      · intro ⟨frame', hall⟩
        obtain ⟨hadm, middle, hmiddle, hrest⟩ := h.of_declares hall
        exact ⟨hadm, (declares_iff hds hmiddle).mp ⟨frame', hrest⟩⟩
      · intro ⟨hadm, hrest⟩
        obtain ⟨middle, hmiddle, hcons⟩ := h.declare hd hadm
        obtain ⟨frame', hall⟩ := (declares_iff hds hmiddle).mpr hrest
        exact ⟨frame', hcons hall⟩

/-- The table after declarations reflects them. -/
theorem Reflects.declares : ∀ {ds own : List Decl} {frame frame' : Frame},
    (∀ d ∈ ds, d.IsBinding) → Reflects own frame → Declares frame ds frame' →
      Reflects (own ++ ds) frame'
  | [], own, _, _, _, h, hall => by
      cases hall
      rw [List.append_nil]
      exact h
  | d :: ds, own, _, _, hds, h, hall => by
      obtain ⟨hd, hds⟩ := List.forall_mem_cons.mp hds
      obtain ⟨-, middle, hmiddle, hrest⟩ := h.of_declares hall
      rw [List.append_cons]
      exact Reflects.declares hds hmiddle hrest

theorem Ty.identity_eq_iff (a b : Ty) : a.identity = b.identity ↔ a.agrees b = true := by
  rw [Ty.agrees_iff, Ty.identity, Ty.identity, Prod.mk.injEq]

theorem Expr.Decides.isTruth {Δ : Context} {Γ : Scope} (h : Mirrors Δ Γ) {e : Expr}
    (he : e.Decides Δ) : IsTruth Γ e := by
  obtain ⟨τ, ht, hbool⟩ := he
  exact ⟨τ, ht.hasType h, hbool⟩

theorem IsTruth.decides {Δ : Context} {Γ : Scope} (h : Mirrors Δ Γ) {e : Expr}
    (he : IsTruth Γ e) : e.Decides Δ := by
  obtain ⟨τ, ht, hbool⟩ := he
  exact ⟨τ, ht.typed h, hbool⟩

mutual

/-- A lawful statement is well typed by the rules over tables. -/
theorem Stmt.Lawful.wellTyped {ret : Ty} {Δ : Context} {Γ : Scope} (h : Mirrors Δ Γ) :
    ∀ {st : Stmt}, st.Proper → st.Lawful ret Δ → st.WellTyped ret Γ
  | .assign _ _ _, _, ⟨α, β, hα, hβ, hsame⟩ =>
      .assign (hα.hasType h) (hβ.hasType h) ((Ty.identity_eq_iff α β).mp hsame)
  | .ifThen _ _ _, hst, ⟨hc, hb⟩ => .ifThen (hc.isTruth h) (Block.Lawful.wellTyped h .nil hst.2 hb)
  | .ifElse _ _ _ _, hst, ⟨hc, ht, he⟩ =>
      .ifElse (hc.isTruth h) (Block.Lawful.wellTyped h .nil hst.2.1 ht)
        (Block.Lawful.wellTyped h .nil hst.2.2 he)
  | .whileLoop _ _ _, hst, ⟨hc, hb⟩ =>
      .whileLoop (hc.isTruth h) (Block.Lawful.wellTyped h .nil hst.2 hb)
  | .forLoop _ _ _ _ _, hst, ⟨hi, hc, hs, hb⟩ =>
      .forLoop (Stmt.Lawful.wellTyped h hst.1.proper hi) (hc.isTruth h)
        (Stmt.Lawful.wellTyped h hst.2.2.1.proper hs) (Block.Lawful.wellTyped h .nil hst.2.2.2 hb)
  | .call _ _, _, ⟨_, he⟩ => .call (he.hasType h)
  | .ret _ none, _, hvoid => .retNone hvoid
  | .ret _ (some _), _, ⟨τ, he, hsame⟩ =>
      .retSome (he.hasType h) ((Ty.identity_eq_iff τ ret).mp hsame)

theorem Block.Lawful.wellTyped {ret : Ty} {Δ : Context} {Γ : Scope} (h : Mirrors Δ Γ)
    {own : List Decl} {frame : Frame} (hown : Reflects own frame) : ∀ {b : Block}, b.Proper →
      b.Lawful ret Δ own → b.WellTyped ret Γ frame
  | .mk _ _ _, hb, ⟨hadmitted, hsts⟩ => by
      have hvars := binding_of_variables hb.1
      obtain ⟨frame', hds⟩ := (declares_iff hvars hown).mpr hadmitted
      exact .mk hds (Stmt.AllLawful.wellTyped (h.push (hown.declares hvars hds)) hb.2 hsts)

theorem Stmt.AllLawful.wellTyped {ret : Ty} {Δ : Context} {Γ : Scope} (h : Mirrors Δ Γ) :
    ∀ {sts : List Stmt}, Stmt.AllProper sts → Stmt.AllLawful ret Δ sts →
      Stmt.AllWellTyped ret Γ sts
  | [], _, _ => .nil
  | _ :: _, hsts, ⟨hst, hrest⟩ =>
      .cons (Stmt.Lawful.wellTyped h hsts.1 hst) (Stmt.AllLawful.wellTyped h hsts.2 hrest)

end

mutual

/-- A statement that is well typed by the rules over tables is lawful. -/
theorem Stmt.WellTyped.lawful {ret : Ty} {Δ : Context} {Γ : Scope} (h : Mirrors Δ Γ) :
    ∀ {st : Stmt}, st.Proper → st.WellTyped ret Γ → st.Lawful ret Δ
  | .assign _ _ _, _, .assign hα hβ hagree =>
      ⟨_, _, hα.typed h, hβ.typed h, (Ty.identity_eq_iff _ _).mpr hagree⟩
  | .ifThen _ _ _, hst, .ifThen hc hb => ⟨hc.decides h, Block.WellTyped.lawful h .nil hst.2 hb⟩
  | .ifElse _ _ _ _, hst, .ifElse hc ht he =>
      ⟨hc.decides h, Block.WellTyped.lawful h .nil hst.2.1 ht,
        Block.WellTyped.lawful h .nil hst.2.2 he⟩
  | .whileLoop _ _ _, hst, .whileLoop hc hb =>
      ⟨hc.decides h, Block.WellTyped.lawful h .nil hst.2 hb⟩
  | .forLoop _ _ _ _ _, hst, .forLoop hi hc hs hb =>
      ⟨Stmt.WellTyped.lawful h hst.1.proper hi, hc.decides h,
        Stmt.WellTyped.lawful h hst.2.2.1.proper hs, Block.WellTyped.lawful h .nil hst.2.2.2 hb⟩
  | .call _ _, _, .call he => ⟨_, he.typed h⟩
  | .ret _ none, _, .retNone hvoid => hvoid
  | .ret _ (some _), _, .retSome he hagree =>
      ⟨_, he.typed h, (Ty.identity_eq_iff _ _).mpr hagree⟩

theorem Block.WellTyped.lawful {ret : Ty} {Δ : Context} {Γ : Scope} (h : Mirrors Δ Γ)
    {own : List Decl} {frame : Frame} (hown : Reflects own frame) : ∀ {b : Block}, b.Proper →
      b.WellTyped ret Γ frame → b.Lawful ret Δ own
  | .mk _ _ _, hb, .mk hds hsts => by
      have hvars := binding_of_variables hb.1
      exact ⟨(declares_iff hvars hown).mp ⟨_, hds⟩,
        Stmt.AllWellTyped.lawful (h.push (hown.declares hvars hds)) hb.2 hsts⟩

theorem Stmt.AllWellTyped.lawful {ret : Ty} {Δ : Context} {Γ : Scope} (h : Mirrors Δ Γ) :
    ∀ {sts : List Stmt}, Stmt.AllProper sts → Stmt.AllWellTyped ret Γ sts →
      Stmt.AllLawful ret Δ sts
  | [], _, _ => trivial
  | _ :: _, hsts, .cons hst hrest =>
      ⟨Stmt.WellTyped.lawful h hsts.1 hst, Stmt.AllWellTyped.lawful h hsts.2 hrest⟩

end

/-- **A block is lawful exactly if it is well typed** by the rules over tables. -/
theorem Block.lawful_iff {ret : Ty} {Δ : Context} {Γ : Scope} (h : Mirrors Δ Γ) {own : List Decl}
    {frame : Frame} (hown : Reflects own frame) {b : Block} (hb : b.Proper) :
    b.Lawful ret Δ own ↔ b.WellTyped ret Γ frame :=
  ⟨Block.Lawful.wellTyped h hown hb, Block.WellTyped.lawful h hown hb⟩

/-! ## 3. Programs -/

theorem Decl.admissible_function_iff {before : List Decl} {d : Decl} {name : String}
    {f : Signature} (hd : d.signature? = some (name, f)) : d.Admissible before ↔
      ∀ d' ∈ before, (∀ τ, ¬ d'.Binds name τ) ∧
        ∀ g, d'.Offers name f.params g → g.forward = true ∧ f.forward = false := by
  constructor
  · exact fun h => h.completes name f hd
  · intro h
    refine ⟨fun x τ hx => absurd hx (Decl.not_binds_of_signature? hd x τ), fun n g hg => ?_,
      fun pos x τ heq => ?_⟩
    · rw [hd] at hg
      cases hg
      exact h
    · subst heq
      cases hd

section Top

variable {before : List Decl} {globals globals' : Frame} (h : Reflects before globals) {d : Decl}

include h

/-- A function is taken in exactly if it is admissible. -/
theorem Reflects.admissible_iff {name : String} {f : Signature}
    (hd : d.signature? = some (name, f)) :
    d.Admissible before ↔ ∃ globals', globals.add name (.function f) = .ok globals' :=
  (Decl.admissible_function_iff hd).trans (h.addFunction_ok_iff name f).symm

theorem Reflects.add {name : String} {f : Signature} (hd : d.signature? = some (name, f))
    (hadd : globals.add name (.function f) = .ok globals') : Reflects (before ++ [d]) globals' :=
  h.addFunction hd ((h.admissible_iff hd).mpr ⟨globals', hadd⟩) hadd

/-- The table after a declaration at the top reflects it. -/
theorem Reflects.wellTyped (hw : d.WellTyped globals globals') :
    Reflects (before ++ [d]) globals' := by
  cases hw with
  | var hadd => exact h.addVariable (.variable _) hadd
  | prototype htys _ hadd =>
    rw [paramTypes_eq htys] at hadd
    exact h.add rfl hadd
  | function htys _ hadd _ =>
    rw [paramTypes_eq htys] at hadd
    exact h.add rfl hadd

/-- **A declaration at the top is lawful exactly if it is well typed** by the rules over tables. -/
theorem Decl.lawful_iff (hd : d.Proper) :
    d.Admissible before ∧ d.Lawful before ↔ ∃ globals', d.WellTyped globals globals' := by
  cases hd with
  | var hvar =>
    obtain ⟨-, -⟩ := hvar
    constructor
    · intro ⟨hadm, _⟩
      obtain ⟨globals', hadd⟩ :=
        (h.addVariable_ok_iff _ _).mpr (Decl.admissible_variable_iff.mp hadm)
      exact ⟨globals', .var hadd⟩
    · intro ⟨globals', hw⟩
      cases hw with
      | var hadd =>
        exact ⟨Decl.admissible_variable_iff.mpr ((h.addVariable_ok_iff _ _).mp ⟨_, hadd⟩), trivial⟩
  | @prototype head params _ hparams =>
    have hformals := declares_iff (binding_of_params hparams) Reflects.nil
    obtain ⟨tys, htys, -⟩ := paramTypes_ok hparams
    have hsig : (Decl.prototype head params).signature? =
        some (head.name, ⟨head.ret, tys, true⟩) := by
      rw [paramTypes_eq htys]
      rfl
    rw [h.admissible_iff hsig, Decl.Lawful, ← hformals]
    constructor
    · intro ⟨⟨globals', hadd⟩, formals, hdeclares⟩
      exact ⟨globals', .prototype htys hdeclares hadd⟩
    · intro ⟨globals', hw⟩
      cases hw with
      | prototype htys' hdeclares hadd =>
        rw [htys] at htys'
        cases htys'
        exact ⟨⟨_, hadd⟩, _, hdeclares⟩
  | @function head params body _ hparams hbody =>
    have hbinding := binding_of_params hparams
    obtain ⟨tys, htys, -⟩ := paramTypes_ok hparams
    have hsig : (Decl.function head params body).signature? =
        some (head.name, ⟨head.ret, tys, false⟩) := by
      rw [paramTypes_eq htys]
      rfl
    -- the body under the law and under the rules, once the function is in the table
    have hinside : ∀ {globals' formals : Frame},
        globals.add head.name (.function ⟨head.ret, tys, false⟩) = .ok globals' →
        Declares [] params formals →
          (body.Lawful head.ret { globals := before ++ [.function head params body] } params ↔
            body.WellTyped head.ret { globals := globals' } formals) :=
      fun hadd hdeclares => Block.lawful_iff ⟨.nil, h.add hsig hadd⟩
        (Reflects.nil.declares hbinding hdeclares) hbody
    rw [h.admissible_iff hsig, Decl.Lawful, ← declares_iff hbinding Reflects.nil]
    constructor
    · intro ⟨⟨globals', hadd⟩, ⟨formals, hdeclares⟩, hlawful⟩
      exact ⟨globals', .function htys hdeclares hadd ((hinside hadd hdeclares).mp hlawful)⟩
    · intro ⟨globals', hw⟩
      cases hw with
      | function htys' hdeclares hadd hwell =>
        rw [htys] at htys'
        cases htys'
        exact ⟨⟨_, hadd⟩, ⟨_, hdeclares⟩, (hinside hadd hdeclares).mpr hwell⟩

end Top

theorem Decl.allLawful_iff : ∀ {ds before : List Decl} {globals : Frame},
    Reflects before globals → (∀ d ∈ ds, d.Proper) →
      (Decl.AllLawful before ds ↔ ∃ globals', Decl.AllWellTyped globals ds globals')
  | [], _, globals, _, _ => ⟨fun _ => ⟨globals, .nil⟩, fun _ => trivial⟩
  | d :: ds, before, globals, h, hds => by
      obtain ⟨hd, hds⟩ := List.forall_mem_cons.mp hds
      rw [Decl.AllLawful, ← and_assoc, Decl.lawful_iff h hd]
      constructor
      · intro ⟨⟨middle, hmiddle⟩, hrest⟩
        obtain ⟨globals', hall⟩ := (Decl.allLawful_iff (h.wellTyped hmiddle) hds).mp hrest
        exact ⟨globals', .cons hmiddle hall⟩
      · intro ⟨globals', hall⟩
        cases hall with
        | cons hmiddle hrest =>
          exact ⟨⟨_, hmiddle⟩, (Decl.allLawful_iff (h.wellTyped hmiddle) hds).mpr ⟨_, hrest⟩⟩

/-- **The checker accepts exactly the lawful programs**, and it comes to an end on all of them. -/
theorem checker_accepts_iff {source : List Char} {p : Program}
    (h : Program.ofSource? source = some p) :
    (Check.program p).Faultless ∧ (p.Accepted ↔ p.Lawful) := by
  have hp := Program.proper_ofSource? h
  refine ⟨Check.program_faultless hp, ?_⟩
  rw [hp.accepted_iff]
  exact (Decl.allLawful_iff .nil hp).symm

/-- A prototype completed by a definition, overloads, a variable that hides a function, a parameter
    hidden in an inner block, and a variable built on void. -/
def hiddenNames : String :=
  "int n; void *nowhere; int twice(int n);
bool twice(bool b) \x7b return !b; \x7d
int twice(int n) \x7b return n + n; \x7d
void main(int m) \x7b
  int twice; int a[3];
  scanf(m);
  if (m < n && twice(m == 0)) \x7b bool m; m = twice(a[1] <= 2); \x7d else \x7b twice = twice(*a); \x7d
  for (n = 0; n < 3; n = n + 1) \x7b a[n] = -n; \x7d
  return;
\x7d"

theorem checker_accepts_iff_hiddenNames : ∃ p, Program.ofSource? hiddenNames.toList = some p ∧
    p.Accepted ∧ p.Lawful := by
  have hread : ∃ p, Program.ofSource? hiddenNames.toList = some p ∧ p.Accepted := by
    set_option maxRecDepth 2000 in
    exact Program.exists_of_text rfl (by decide +kernel)
  obtain ⟨p, hp, haccepted⟩ := hread
  exact ⟨p, hp, haccepted, (checker_accepts_iff hp).2.mp haccepted⟩

end CMinusMinus
