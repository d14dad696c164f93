/-
  File:      CMinusMinus/Proofs/OperandTypes.lean
  Subject:   What operators demand of their operands.

  Arithmetic, comparisons, unary minus and subscripts demand `int`, logical operators and conditions
  demand `bool`. The checker compares base names only, so what an accepted program meets is the base
  name of each demand. The whole type is met wherever the operand bears no pointer: a pointer comes
  from a variable or from a call, and only subscripts, `&` and `*` hand it on.

  * `Demand`, `Program.demands` -- the operands of a program, with what is demanded of each;
  * `Expr.declared?`, `HasType.declared` -- the types that come from declarations, and the others;
  * `Expr.bearsPointer`, `HasType.pointers_iff` -- only what is declared so has a pointer type;
  * `Block.WellTyped.demands` -- the demands of a well-typed block are met by base name;
  * `operand_types_exact_iff` -- **the operands of an accepted program**.
-/
import CMinusMinus.Proofs.FunctionSites

namespace CMinusMinus

/-! ## 1. Demands -/

/-- An operand, the scope it stands in, and the type that is demanded of it. -/
structure Demand where
  scope : Scope
  operand : Expr
  wanted : Ty

/-- What a unary operator demands of its operand, if it demands a type at all. -/
def UnaryOp.wanted? : UnaryOp → Option Ty
  | .neg => some .int
  | .not => some .bool
  | .address | .deref | .other _ => none

/-- What a binary operator demands of both operands. -/
def BinaryOp.wanted? : BinaryOp → Option Ty
  | .arith _ | .rel _ => some .int
  | .and | .or => some .bool
  | .other _ => none

/-- The demand of an operator on one operand. -/
def Demand.onOperand (Γ : Scope) (wanted? : Option Ty) (e : Expr) : List Demand :=
  wanted?.toList.map (⟨Γ, e, ·⟩)

mutual

/-- **The demands of an expression** on the operands in it. -/
def Expr.demands (Γ : Scope) : Expr → List Demand
  | .index _ array i => array.demands Γ ++ i.demands Γ ++ [⟨Γ, i, .int⟩]
  | .call _ _ args | .nameless _ args => Expr.demandsOf Γ args
  | .unary _ op e => e.demands Γ ++ Demand.onOperand Γ op.wanted? e
  | .binary _ op l r => l.demands Γ ++ r.demands Γ ++
      (Demand.onOperand Γ op.wanted? l ++ Demand.onOperand Γ op.wanted? r)
  | .int _ _ | .str _ _ | .var _ _ | .misplaced _ => []

/-- The demands of expressions one after the other. -/
def Expr.demandsOf (Γ : Scope) : List Expr → List Demand
  | [] => []
  | e :: es => e.demands Γ ++ Expr.demandsOf Γ es

end

/-- The demands of a condition. -/
def Expr.conditionDemands (Γ : Scope) (e : Expr) : List Demand := e.demands Γ ++ [⟨Γ, e, .bool⟩]

mutual

/-- **The demands of a statement**, each with the checker's scope. -/
def Stmt.demands (Γ : Scope) : Stmt → List Demand
  | .assign _ target value => target.demands Γ ++ value.demands Γ
  | .ifThen _ cond body | .whileLoop _ cond body =>
      cond.conditionDemands Γ ++ body.demands (Γ.push [])
  | .ifElse _ cond thenBody elseBody =>
      cond.conditionDemands Γ ++ (thenBody.demands (Γ.push []) ++ elseBody.demands (Γ.push []))
  | .forLoop _ init cond step body =>
      init.demands Γ ++ (cond.conditionDemands Γ ++ (step.demands Γ ++ body.demands (Γ.push [])))
  | .call _ e | .ret _ (some e) => e.demands Γ
  | .ret _ none | .misplaced _ | .missing _ _ => []

/-- The demands of a block in a scope whose innermost frame is its own. -/
def Block.demands (Γ : Scope) : Block → List Demand
  | .mk _ ds sts => Stmt.demandsOf (Check.decls Γ ds).1 sts

/-- The demands of statements one after the other. -/
def Stmt.demandsOf (Γ : Scope) : List Stmt → List Demand
  | [] => []
  | st :: sts => st.demands Γ ++ Stmt.demandsOf Γ sts

end

/-- **The demands of a program.** -/
def Program.demands (p : Program) : List Demand := p.sites.flatMap fun f => f.body.demands f.scope

/-- The type that the checker finds for the operand. -/
def Demand.found (d : Demand) : Ty := (Check.typeOf d.scope d.operand).ty

/-! ## 2. Written types -/

mutual

/-- The types that the declarations in a statement write. -/
def Stmt.types : Stmt → List Ty
  | .ifThen _ _ body | .whileLoop _ _ body => body.types
  | .ifElse _ _ thenBody elseBody => thenBody.types ++ elseBody.types
  | .forLoop _ init _ step body => init.types ++ (step.types ++ body.types)
  | .assign _ _ _ | .call _ _ | .ret _ _ | .misplaced _ | .missing _ _ => []

/-- The types that the declarations in a block write. -/
def Block.types : Block → List Ty
  | .mk _ ds sts => ds.filterMap Decl.ty? ++ Stmt.typesOf sts

/-- The types that the declarations in statements write. -/
def Stmt.typesOf : List Stmt → List Ty
  | [] => []
  | st :: sts => st.types ++ Stmt.typesOf sts

end

/-- The types that a declaration at the top writes. -/
def Decl.types : Decl → List Ty
  | .variable _ _ ty | .parameter _ _ ty => [ty]
  | .prototype head params => head.ret :: params.filterMap Decl.ty?
  | .function head params body => head.ret :: (params.filterMap Decl.ty? ++ body.types)
  | .misplaced _ => []

/-- **The types that a program writes**: of its variables and parameters, and those that its
    functions return. -/
def Program.types (p : Program) : List Ty := p.decls.flatMap Decl.types

/-- The type of a variable, or the one that a function returns. -/
def Entry.ty : Entry → Ty
  | .variable v => v.ty
  | .function f => f.ret

/-- All types of variables and all returned types in a scope have a property. -/
def Scope.Within (I : Ty → Prop) (Γ : Scope) : Prop := ∀ frame ∈ Γ.frames, ∀ b ∈ frame, I b.2.ty

section Within

variable {I : Ty → Prop}

theorem Scope.within_globals {globals : Frame} (h : ∀ b ∈ globals, I b.2.ty) :
    Scope.Within I { globals := globals } := by
  intro frame hframe
  rw [List.mem_singleton.mp hframe]
  exact h

theorem Scope.Within.push {Γ : Scope} (hΓ : Γ.Within I) {frame : Frame}
    (hframe : ∀ b ∈ frame, I b.2.ty) : (Γ.push frame).Within I := by
  intro f hf
  rcases List.mem_cons.mp hf with hhead | htail
  · rw [hhead]
    exact hframe
  · exact hΓ f htail

theorem Frame.within_add {frame frame' : Frame} {name : String} {entry : Entry}
    (h : frame.add name entry = .ok frame') (hframe : ∀ b ∈ frame, I b.2.ty) (hentry : I entry.ty) :
    ∀ b ∈ frame', I b.2.ty := by
  intro b hb
  rcases Frame.mem_of_add h b hb with hold | hnew
  · exact hframe b hold
  · rw [hnew]
    exact hentry

theorem Declares.within {frame frame' : Frame} {ds : List Decl} (h : Declares frame ds frame') :
    (∀ τ ∈ ds.filterMap Decl.ty?, I τ) → (∀ b ∈ frame, I b.2.ty) → ∀ b ∈ frame', I b.2.ty := by
  induction h with
  | nil => exact fun _ hframe => hframe
  | var hadd _ ih | param _ hadd _ ih =>
    intro htypes hframe
    obtain ⟨hty, hrest⟩ := List.forall_mem_cons.mp htypes
    exact ih hrest (Frame.within_add hadd hframe hty)

/-- A variable that is found has one of the types. -/
theorem Scope.Within.var? {Γ : Scope} (h : Γ.Within I) {name : String} {v : Variable}
    (hv : Γ.var? name = some v) : I v.ty := by
  obtain ⟨frame, hframe, hf⟩ := List.exists_of_findSome?_eq_some hv
  obtain ⟨⟨n, e⟩, hb, hfound⟩ := List.exists_of_findSome?_eq_some hf
  rcases e with w | f
  · dsimp only at hfound
    split at hfound
    · cases hfound
      exact h frame hframe _ hb
    · cases hfound
  · cases hfound

/-- A function that is found returns one of the types. -/
theorem Scope.Within.function? {Γ : Scope} (h : Γ.Within I) {name : String} {args : List Ty}
    {f : Signature} (hf : Γ.function? name args = some f) : I f.ret := by
  obtain ⟨⟨n, e⟩, hb, hfound⟩ := List.exists_of_findSome?_eq_some hf
  rcases e with w | g
  · cases hfound
  · dsimp only at hfound
    split at hfound
    · cases hfound
      exact h Γ.globals (List.mem_append_right _ List.mem_cons_self) _ hb
    · cases hfound

end Within

/-! ## 3. Where pointers come from -/

/-- The type that a declaration gives to an expression: below subscripts, `&` and `*` it is a variable
    or a call. What operators and literals give is not declared. -/
def Expr.declared? (Γ : Scope) : Expr → Option Ty
  | .var _ name => (Γ.var? name).map Variable.ty
  | .index _ array _ => array.declared? Γ
  | .unary _ .address e | .unary _ .deref e => e.declared? Γ
  | .call _ name args =>
      if isSystemCall name then some .void
      else (Γ.function? name (Check.typesOf Γ args).tys).map Signature.ret
  | _ => none

/-- **The type of an expression** is the declared one, apart from the size of an array, or one of those
    that literals and operators have. -/
theorem HasType.declared {Γ : Scope} (hΓ : Γ.Proper) : ∀ {e : Expr} {τ : Ty}, HasType Γ e τ →
    (∃ σ, e.declared? Γ = some σ ∧ τ.agrees σ = true) ∨
      e.declared? Γ = none ∧ τ.name ∈ ["int", "bool", "string"] ∧ τ.pointers = 0
  | _, _, .var hv => .inl ⟨_, by rw [Expr.declared?, hv]; rfl, Ty.agrees_refl _⟩
  | _, _, .index harray _ _ => harray.declared hΓ
  | _, _, .address he _ | _, _, .deref he _ => he.declared hΓ
  | _, _, .system hname _ _ => .inl ⟨.void, by rw [Expr.declared?, if_pos hname], rfl⟩
  | _, _, .call hname hargs hf => by
      refine .inl ⟨_, ?_, Ty.agrees_refl _⟩
      rw [Expr.declared?, hname, Check.typesOf_eq hΓ hargs, hf]
      rfl
  | _, _, .int | _, _, .neg _ _ | _, _, .arith _ _ _ _ | _, _, .not _ _ | _, _, .rel _ _ _ _
  | _, _, .and _ _ _ _ | _, _, .or _ _ _ _ | _, _, .str => .inr ⟨rfl, by decide, rfl⟩

/-- **An operand that bears a pointer**: it is declared with a pointer type. -/
def Expr.bearsPointer (Γ : Scope) (e : Expr) : Bool :=
  (e.declared? Γ).any fun σ => σ.pointers != 0

/-- **Only what bears a pointer has a pointer type.** -/
theorem HasType.pointers_iff {Γ : Scope} (hΓ : Γ.Proper) {e : Expr} {τ : Ty} (h : HasType Γ e τ) :
    τ.pointers = 0 ↔ e.bearsPointer Γ = false := by
  unfold Expr.bearsPointer
  rcases h.declared hΓ with ⟨σ, hσ, hagree⟩ | ⟨hnone, -, hplain⟩
  · rw [hσ, ((Ty.agrees_iff τ σ).mp hagree).2]
    simp
  · rw [hnone, hplain]
    simp

/-- Where no declaration has a pointer type, no expression has one. -/
theorem HasType.pointers_eq {Γ : Scope} (hΓ : Γ.Within fun τ => τ.pointers = 0) :
    ∀ {e : Expr} {τ : Ty}, HasType Γ e τ → τ.pointers = 0
  | _, _, .var hv => hΓ.var? hv
  | _, _, .index harray _ _ => harray.pointers_eq hΓ
  | _, _, .address he _ | _, _, .deref he _ => he.pointers_eq hΓ
  | _, _, .call _ _ hf => hΓ.function? hf
  | _, _, .system _ _ _ | _, _, .int | _, _, .neg _ _ | _, _, .arith _ _ _ _ | _, _, .not _ _
  | _, _, .rel _ _ _ _ | _, _, .and _ _ _ _ | _, _, .or _ _ _ _ | _, _, .str => rfl

/-! ## 4. Demands are met by base name -/

/-- **A demand is met by base name**, in a scope whose types have the property. -/
structure Demand.Met (I : Ty → Prop) (d : Demand) : Prop where
  scope_proper : d.scope.Proper
  scope_within : d.scope.Within I
  plain : d.wanted.pointers = 0
  typed : ∃ τ, HasType d.scope d.operand τ ∧ τ.name = d.wanted.name

section Met

variable {I : Ty → Prop}

mutual

/-- **The demands of a well-typed expression are met.** -/
theorem HasType.demands {Γ : Scope} (hΓ : Γ.Proper) (hI : Γ.Within I) : ∀ {e : Expr} {τ : Ty},
    HasType Γ e τ → ∀ d ∈ e.demands Γ, d.Met I
  | _, _, .int | _, _, .str | _, _, .var _ => List.forall_mem_nil _
  | _, _, .index harray hi hint =>
      List.forall_mem_append.mpr ⟨List.forall_mem_append.mpr
        ⟨harray.demands hΓ hI, hi.demands hΓ hI⟩,
        List.forall_mem_singleton.mpr ⟨hΓ, hI, rfl, _, hi, hint⟩⟩
  | _, _, .system _ hargs _ | _, _, .call _ hargs _ => hargs.demands hΓ hI
  | _, _, .neg he hint =>
      List.forall_mem_append.mpr
        ⟨he.demands hΓ hI, List.forall_mem_singleton.mpr ⟨hΓ, hI, rfl, _, he, hint⟩⟩
  | _, _, .not he hbool =>
      List.forall_mem_append.mpr
        ⟨he.demands hΓ hI, List.forall_mem_singleton.mpr ⟨hΓ, hI, rfl, _, he, hbool⟩⟩
  | _, _, .address he _ | _, _, .deref he _ =>
      List.forall_mem_append.mpr ⟨he.demands hΓ hI, List.forall_mem_nil _⟩
  | _, _, .arith hl hr hα hβ | _, _, .rel hl hr hα hβ | _, _, .and hl hr hα hβ
  | _, _, .or hl hr hα hβ =>
      List.forall_mem_append.mpr ⟨List.forall_mem_append.mpr ⟨hl.demands hΓ hI, hr.demands hΓ hI⟩,
        List.forall_mem_cons.mpr ⟨⟨hΓ, hI, rfl, _, hl, hα⟩,
          List.forall_mem_singleton.mpr ⟨hΓ, hI, rfl, _, hr, hβ⟩⟩⟩

theorem HaveTypes.demands {Γ : Scope} (hΓ : Γ.Proper) (hI : Γ.Within I) :
    ∀ {es : List Expr} {τs : List Ty}, HaveTypes Γ es τs → ∀ d ∈ Expr.demandsOf Γ es, d.Met I
  | _, _, .nil => List.forall_mem_nil _
  | _, _, .cons he hes => List.forall_mem_append.mpr ⟨he.demands hΓ hI, hes.demands hΓ hI⟩

end

theorem IsTruth.demands {Γ : Scope} (hΓ : Γ.Proper) (hI : Γ.Within I) {cond : Expr}
    (h : IsTruth Γ cond) : ∀ d ∈ cond.conditionDemands Γ, d.Met I := by
  obtain ⟨τ, hτ, hbool⟩ := h
  exact List.forall_mem_append.mpr
    ⟨hτ.demands hΓ hI, List.forall_mem_singleton.mpr ⟨hΓ, hI, rfl, τ, hτ, hbool⟩⟩

mutual

/-- **The demands of a well-typed statement are met.** -/
theorem Stmt.WellTyped.demands {ret : Ty} {Γ : Scope} (hΓ : Γ.Proper) (hI : Γ.Within I) :
    ∀ {st : Stmt}, st.Proper → (∀ τ ∈ st.types, I τ) → st.WellTyped ret Γ →
      ∀ d ∈ st.demands Γ, d.Met I
  | _, _, _, .assign htarget hvalue _ =>
      List.forall_mem_append.mpr ⟨htarget.demands hΓ hI, hvalue.demands hΓ hI⟩
  | _, hst, htypes, .ifThen hcond hbody | _, hst, htypes, .whileLoop hcond hbody =>
      List.forall_mem_append.mpr ⟨hcond.demands hΓ hI,
        hbody.demands hΓ hI Frame.proper_nil (List.forall_mem_nil _) hst.2 htypes⟩
  | _, hst, htypes, .ifElse hcond hthen helse => by
      obtain ⟨hyes, hno⟩ := List.forall_mem_append.mp htypes
      exact List.forall_mem_append.mpr ⟨hcond.demands hΓ hI, List.forall_mem_append.mpr
        ⟨hthen.demands hΓ hI Frame.proper_nil (List.forall_mem_nil _) hst.2.1 hyes,
          helse.demands hΓ hI Frame.proper_nil (List.forall_mem_nil _) hst.2.2 hno⟩⟩
  | _, hst, htypes, .forLoop hinit hcond hstep hbody => by
      obtain ⟨hfirst, hrest⟩ := List.forall_mem_append.mp htypes
      obtain ⟨hnext, hinside⟩ := List.forall_mem_append.mp hrest
      exact List.forall_mem_append.mpr ⟨hinit.demands hΓ hI hst.1.proper hfirst,
        List.forall_mem_append.mpr ⟨hcond.demands hΓ hI, List.forall_mem_append.mpr
          ⟨hstep.demands hΓ hI hst.2.2.1.proper hnext,
            hbody.demands hΓ hI Frame.proper_nil (List.forall_mem_nil _) hst.2.2.2 hinside⟩⟩⟩
  | _, _, _, .call he => he.demands hΓ hI
  | _, _, _, .retNone _ => List.forall_mem_nil _
  | _, _, _, .retSome he _ => he.demands hΓ hI

/-- **The demands of a well-typed block are met.** -/
theorem Block.WellTyped.demands {ret : Ty} {Γ : Scope} (hΓ : Γ.Proper) (hI : Γ.Within I)
    {frame : Frame} (hproper : Frame.Proper frame) (hwithin : ∀ b ∈ frame, I b.2.ty) :
    ∀ {b : Block}, b.Proper → (∀ τ ∈ b.types, I τ) → b.WellTyped ret Γ frame →
      ∀ d ∈ b.demands (Γ.push frame), d.Met I
  | _, hb, htypes, .mk hdecls hstmts => by
      obtain ⟨hlocals, hinside⟩ := List.forall_mem_append.mp htypes
      rw [Block.demands, Check.decls_scope hdecls]
      exact hstmts.demands (hΓ.push (hdecls.proper (binding_of_variables hb.1) hproper))
        (hI.push (hdecls.within hlocals hwithin)) hb.2 hinside

theorem Stmt.AllWellTyped.demands {ret : Ty} {Γ : Scope} (hΓ : Γ.Proper) (hI : Γ.Within I) :
    ∀ {sts : List Stmt}, Stmt.AllProper sts → (∀ τ ∈ Stmt.typesOf sts, I τ) →
      Stmt.AllWellTyped ret Γ sts → ∀ d ∈ Stmt.demandsOf Γ sts, d.Met I
  | _, _, _, .nil => List.forall_mem_nil _
  | _, hsts, htypes, .cons hst hrest => by
      obtain ⟨hfirst, hothers⟩ := List.forall_mem_append.mp htypes
      exact List.forall_mem_append.mpr
        ⟨hst.demands hΓ hI hsts.1 hfirst, hrest.demands hΓ hI hsts.2 hothers⟩

end

/-- The globals keep the property across a declaration at the top. -/
theorem Decl.WellTyped.within {globals globals' : Frame} {d : Decl} (h : d.WellTyped globals globals')
    (htypes : ∀ τ ∈ d.types, I τ) (hglobals : ∀ b ∈ globals, I b.2.ty) :
    ∀ b ∈ globals', I b.2.ty := by
  cases h with
  | var hadd => exact Frame.within_add hadd hglobals (htypes _ List.mem_cons_self)
  | prototype _ _ hadd | function _ _ hadd _ =>
    exact Frame.within_add hadd hglobals (htypes _ List.mem_cons_self)

/-- The demands of the function that a declaration at the top defines. -/
theorem Decl.WellTyped.demands {globals globals' : Frame} {d : Decl}
    (h : d.WellTyped globals globals') (hd : d.Proper) (hproper : Frame.Proper globals)
    (htypes : ∀ τ ∈ d.types, I τ) (hglobals : ∀ b ∈ globals, I b.2.ty) :
    ∀ f ∈ (d.site? { globals := globals }).toList, ∀ x ∈ f.body.demands f.scope, x.Met I := by
  have hproper' := h.proper hd hproper
  have hglobals' := h.within htypes hglobals
  cases h with
  | var _ | prototype _ _ _ => exact List.forall_mem_nil _
  | @function _ formals head params tys body htys hparams hadd hbody =>
    have hsite := Check.site?_function (f := ⟨head, params, body⟩) htys hparams hadd
    rw [hsite]
    refine List.forall_mem_singleton.mpr ?_
    cases hd with
    | var hvar => cases hvar
    | function _ hbindings hblock =>
      obtain ⟨-, hwritten⟩ := List.forall_mem_cons.mp htypes
      obtain ⟨houter, hinner⟩ := List.forall_mem_append.mp hwritten
      exact hbody.demands (Scope.proper_globals hproper') (Scope.within_globals hglobals')
        (hparams.proper (binding_of_params hbindings) Frame.proper_nil)
        (hparams.within houter (List.forall_mem_nil _)) hblock hinner

/-- **The demands of all functions are met.** -/
theorem Decl.AllWellTyped.demands {globals globals' : Frame} {ds : List Decl}
    (h : Decl.AllWellTyped globals ds globals') : (∀ d ∈ ds, d.Proper) → Frame.Proper globals →
      (∀ τ ∈ ds.flatMap Decl.types, I τ) → (∀ b ∈ globals, I b.2.ty) →
      ∀ f ∈ Decl.sites { globals := globals } ds, ∀ x ∈ f.body.demands f.scope, x.Met I := by
  induction h with
  | nil => exact fun _ _ _ _ => List.forall_mem_nil _
  | @cons globals middle globals' d ds hd _ ih =>
    intro hproper hglobals htypes hwithin
    obtain ⟨hfirst, hothers⟩ := List.forall_mem_cons.mp hproper
    rw [List.flatMap_cons] at htypes
    obtain ⟨hown, hrest⟩ := List.forall_mem_append.mp htypes
    rw [Decl.sites, Check.decl_scope hd]
    exact List.forall_mem_append.mpr ⟨hd.demands hfirst hglobals hown hwithin,
      ih hothers (hd.proper hfirst hglobals) hrest (hd.within hown hwithin)⟩

/-- **The demands of an accepted program are met** by base name. -/
theorem Program.demands_met {p : Program} (hp : p.Proper) (haccepted : p.Accepted)
    (htypes : ∀ τ ∈ p.types, I τ) : ∀ d ∈ p.demands, d.Met I := by
  obtain ⟨globals, htyped⟩ := hp.wellTyped haccepted
  have hmet := htyped.demands hp Frame.proper_nil htypes (List.forall_mem_nil _)
  intro d hd
  obtain ⟨f, hf, hdemand⟩ := List.mem_flatMap.mp hd
  exact hmet f hf d hdemand

end Met

/-! ## 5. Accepted programs -/

namespace Demand.Met

variable {I : Ty → Prop} {d : Demand}

/-- The checker has nothing to say of the operand, and the base name of its type is the wanted one. -/
theorem found_eq (h : d.Met I) : ∃ τ, HasType d.scope d.operand τ ∧
    Check.typeOf d.scope d.operand = ⟨τ, []⟩ ∧ τ.name = d.wanted.name := by
  obtain ⟨τ, hτ, hname⟩ := h.typed
  exact ⟨τ, hτ, Check.typeOf_eq h.scope_proper hτ, hname⟩

/-- The type is the wanted one if and only if it is no pointer. -/
theorem agrees_iff (h : d.Met I) : d.found.agrees d.wanted = true ↔ d.found.pointers = 0 := by
  obtain ⟨τ, -, hfound, hname⟩ := h.found_eq
  have hty : d.found = τ := congrArg Check.Verdict.ty hfound
  rw [Ty.agrees_iff, hty, h.plain]
  exact and_iff_right hname

end Demand.Met

/-- **The operands of an accepted program.** The checker has nothing to say of an operand of which a
    type is demanded, and the base name of its type is the demanded one. The whole type is the
    demanded one if and only if the operand bears no pointer. So it is in all of a program that
    writes no pointer type. -/
theorem operand_types_exact_iff {source : List Char} {p : Program}
    (h : Program.ofSource? source = some p) (haccepted : p.Accepted) :
    (∀ d ∈ p.demands, (Check.typeOf d.scope d.operand).journal = [] ∧
      d.found.name = d.wanted.name ∧
      (d.found.agrees d.wanted = true ↔ d.operand.bearsPointer d.scope = false)) ∧
    ((∀ τ ∈ p.types, τ.pointers = 0) → ∀ d ∈ p.demands, d.found.agrees d.wanted = true) := by
  have hp := Program.proper_ofSource? h
  constructor
  · intro d hd
    have hmet := Program.demands_met (I := fun _ => True) hp haccepted (fun _ _ => trivial) d hd
    obtain ⟨τ, hτ, hfound, hname⟩ := hmet.found_eq
    have hty : d.found = τ := congrArg Check.Verdict.ty hfound
    refine ⟨congrArg Check.Verdict.journal hfound, hty ▸ hname, ?_⟩
    rw [hmet.agrees_iff, hty]
    exact hτ.pointers_iff hmet.scope_proper
  · intro htypes d hd
    have hmet := Program.demands_met hp haccepted htypes d hd
    obtain ⟨τ, hτ, hfound, -⟩ := hmet.found_eq
    have hty : d.found = τ := congrArg Check.Verdict.ty hfound
    rw [hmet.agrees_iff, hty]
    exact hτ.pointers_eq hmet.scope_within

/-- A pointer is added to a number and compared with it. -/
def pointerSum : String :=
  "void f(int *p) \x7b int x; while (p < 9) \x7b x = -x + p; \x7d \x7d"

theorem operand_types_exact_iff_pointerSum :
    ∃ p, Program.ofSource? pointerSum.toList = some p ∧ p.Accepted ∧
      (∃ d ∈ p.demands, d.found.name = "int" ∧ d.found.agrees .int = false) ∧
      ∃ d ∈ p.demands, d.found.agrees .bool = true := by
  have hread : ∃ p, Program.ofSource? pointerSum.toList = some p ∧ p.Accepted ∧
      (∃ d ∈ p.demands, d.wanted = .int ∧ d.operand.bearsPointer d.scope = true) ∧
      ∃ d ∈ p.demands, d.wanted = .bool ∧ d.operand.bearsPointer d.scope = false := by
    set_option maxRecDepth 2000 in
    exact Program.exists_of_text rfl (by decide +kernel)
  obtain ⟨p, hp, haccepted, ⟨d, hd, hint, hbears⟩, ⟨c, hc, hbool, hplain⟩⟩ := hread
  have hexact := (operand_types_exact_iff hp haccepted).1
  refine ⟨p, hp, haccepted, ⟨d, hd, ?_, ?_⟩, c, hc, ?_⟩
  · exact (hexact d hd).2.1.trans (congrArg Ty.name hint)
  · rw [← hint, Bool.eq_false_iff]
    intro hagrees
    rw [(hexact d hd).2.2.mp hagrees] at hbears
    cases hbears
  · rw [← hbool]
    exact (hexact c hc).2.2.mpr hplain

end CMinusMinus
