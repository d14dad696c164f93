/-
  File:      CMinusMinus/Proofs/LinkedCalls.lean
  Subject:   What the calls in code are linked to.

  Lowering resolves a call anew, in tables of its own. The calls in the code of an accepted program
  are still those of its source, one for one and in the order of the code, and each carries the label
  of a function that the source declares before the call or around it: one with the called name and
  with the types that the checker finds for the arguments. Whether there is code behind the label is
  another matter, since a prototype has none. There is, if all prototypes are completed.

  * `CallSite`, `Program.callSites` -- the calls of a program, with what is known at each of them;
  * `CallSite.Linked` -- a call in code has the label of a function that the call may mean;
  * `Block.WellTyped.callSites` -- the calls of a body are found in the tables of the checker;
  * `Program.Complete`, `Program.HasEntry` -- nothing is only promised;
  * `calls_linked` -- **all calls are linked.**
-/
import CMinusMinus.Proofs.CallForms
import CMinusMinus.Proofs.LawfulPrograms

namespace CMinusMinus

/-! ## 1. Calls in the source -/

/-- A call in a program: the declarations at the top that stand before the function around it, and
    that of the function itself; the checker's scope at the call; what is called, and with what. -/
structure CallSite where
  known : List Decl
  scope : Scope
  name : String
  args : List Expr

mutual

/-- **The calls of an expression**, in the order of their code; those that the system answers are
    left out. -/
def Expr.callSites (known : List Decl) (Γ : Scope) : Expr → List CallSite
  | .index _ array i => array.callSites known Γ ++ i.callSites known Γ
  | .call _ name args =>
      Expr.callSitesOf known Γ args ++ if isSystemCall name then [] else [⟨known, Γ, name, args⟩]
  | .unary _ _ e => e.callSites known Γ
  | .binary _ _ l r => l.callSites known Γ ++ r.callSites known Γ
  | .int _ _ | .str _ _ | .var _ _ | .nameless _ _ | .misplaced _ => []

/-- The calls of arguments one after the other. -/
def Expr.callSitesOf (known : List Decl) (Γ : Scope) : List Expr → List CallSite
  | [] => []
  | e :: es => e.callSites known Γ ++ Expr.callSitesOf known Γ es

end

mutual

/-- **The calls of a statement**, in the order of their code. -/
def Stmt.callSites (known : List Decl) (Γ : Scope) : Stmt → List CallSite
  | .assign _ target value => target.callSites known Γ ++ value.callSites known Γ
  | .ifThen _ cond body | .whileLoop _ cond body =>
      cond.callSites known Γ ++ body.callSites known (Γ.push [])
  | .ifElse _ cond thenBody elseBody =>
      cond.callSites known Γ ++ thenBody.callSites known (Γ.push []) ++
        elseBody.callSites known (Γ.push [])
  | .forLoop _ init cond step body =>
      init.callSites known Γ ++ cond.callSites known Γ ++ body.callSites known (Γ.push []) ++
        step.callSites known Γ
  | .call _ e | .ret _ (some e) => e.callSites known Γ
  | .ret _ none | .misplaced _ | .missing _ _ => []

/-- The calls of a block in a scope whose innermost frame is its own. -/
def Block.callSites (known : List Decl) (Γ : Scope) : Block → List CallSite
  | .mk _ ds sts => Stmt.callSitesOf known (Check.decls Γ ds).1 sts

/-- The calls of statements one after the other. -/
def Stmt.callSitesOf (known : List Decl) (Γ : Scope) : List Stmt → List CallSite
  | [] => []
  | st :: sts => st.callSites known Γ ++ Stmt.callSitesOf known Γ sts

end

/-- The functions that declarations one after the other define, each with the declarations before
    it and its own. -/
def Decl.knownSites (before : List Decl) (Γ : Scope) : List Decl → List (List Decl × FnSite)
  | [] => []
  | d :: ds => (d.site? Γ).toList.map (before ++ [d], ·) ++
      Decl.knownSites (before ++ [d]) (Check.decl Γ d).1 ds

/-- **The calls of a program**, in the order of their code. -/
def Program.callSites (p : Program) : List CallSite :=
  (Decl.knownSites [] {} p.decls).flatMap fun f => f.2.body.callSites f.1 f.2.scope

/-- **The call in code is linked**: a declaration that is known at the call in the source makes its
    name a function with the types that the checker finds for the arguments. The call has the label
    of this function, and as many arguments. -/
def CallSite.Linked (c : Called) (site : CallSite) : Prop :=
  ∃ d ∈ site.known, ∃ f, d.Offers site.name (Check.typesOf site.scope site.args).tys f ∧
    c.label = codeLabel site.name f.params ∧ c.args = site.args.length

/-! ## 2. Calls in tables -/

/-- The call means the overload in the table of the globals. -/
structure CallSite.Means (known : List Decl) (globals : Frame) (o : Overload) (site : CallSite) :
    Prop where
  known_eq : site.known = known
  name : o.name = site.name
  found : globals.function? site.name (Check.typesOf site.scope site.args).tys = some o.sig

theorem Check.typesOf_length (Γ : Scope) (es : List Expr) :
    (Check.typesOf Γ es).tys.length = es.length := by
  induction es with
  | nil => rfl
  | cons e es ih => exact congrArg (· + 1) ih

/-- Where the table reflects the declarations, the call is linked. -/
theorem CallSite.Means.linked {known : List Decl} {globals : Frame} {o : Overload} {site : CallSite}
    (h : site.Means known globals o) (hglobals : Reflects known globals) :
    site.Linked o.called := by
  obtain ⟨d, hd, hoffers⟩ := ((hglobals.function _ _ _).mp h.found).offered
  refine ⟨d, h.known_eq ▸ hd, o.sig, hoffers, congrArg (codeLabel · o.sig.params) h.name, ?_⟩
  exact (Lower.function?_length h.found).trans (Check.typesOf_length _ _)

theorem Expr.gap_callee (Γ : Scope) (e : Expr) : (e.gap Γ).filterMap Mark.callee? = [] := by
  unfold Expr.gap
  split <;> rfl

section Tables

variable (known : List Decl)

/-- A call with arguments of known types means the function that is found for them. -/
theorem CallSite.means_of_types {Γ : Scope} (hΓ : Γ.Proper) {name : String} {args : List Expr}
    {τs : List Ty} {f : Signature} (hargs : HaveTypes Γ args τs)
    (hf : Γ.function? name τs = some f) :
    CallSite.Means known Γ.globals ⟨name, f⟩ ⟨known, Γ, name, args⟩ := by
  refine ⟨rfl, rfl, ?_⟩
  dsimp only
  rw [Check.typesOf_eq hΓ hargs]
  exact hf

mutual

/-- **The calls of a well-typed expression mean what its marks say.** -/
theorem HasType.callSites {Γ : Scope} (hΓ : Γ.Proper) : ∀ {e : Expr} {τ : Ty}, HasType Γ e τ →
    List.Forall₂ (CallSite.Means known Γ.globals) ((e.marks Γ).filterMap Mark.callee?)
      (e.callSites known Γ)
  | _, _, .int | _, _, .str | _, _, .var _ => .nil
  | _, _, .index harray hi _ => by
      simpa [Expr.marks, Expr.callSites, Expr.gap_callee] using
        List.rel_append (harray.callSites hΓ) (hi.callSites hΓ)
  | _, _, .system hname hargs _ => by
      simpa [Expr.marks, Expr.callSites, Expr.callee?, hname] using hargs.callSites hΓ
  | _, _, .call hname hargs hf => by
      have hcallee := Lower.callee?_eq hΓ hname hargs hf
      have hmeans := CallSite.means_of_types known hΓ hargs hf
      simpa [Expr.marks, Expr.callSites, hcallee, hname, Mark.callee?] using
        List.rel_append (hargs.callSites hΓ) (.cons hmeans .nil)
  | _, _, .neg he _ | _, _, .not he _ | _, _, .address he _ | _, _, .deref he _ => by
      simpa [Expr.marks, Expr.callSites, Expr.gap_callee] using he.callSites hΓ
  | _, _, .arith hl hr _ _ | _, _, .rel hl hr _ _ | _, _, .and hl hr _ _ | _, _, .or hl hr _ _ => by
      simpa [Expr.marks, Expr.callSites, Expr.gap_callee] using
        List.rel_append (hl.callSites hΓ) (hr.callSites hΓ)

theorem HaveTypes.callSites {Γ : Scope} (hΓ : Γ.Proper) : ∀ {es : List Expr} {τs : List Ty},
    HaveTypes Γ es τs → List.Forall₂ (CallSite.Means known Γ.globals)
      ((Expr.handed Γ es).filterMap Mark.callee?) (Expr.callSitesOf known Γ es)
  | _, _, .nil => .nil
  | _, _, .cons he hes => by
      simpa [Expr.handed, Expr.callSitesOf, Expr.gap_callee] using
        List.rel_append (he.callSites hΓ) (hes.callSites hΓ)

end

theorem IsTruth.callSites {Γ : Scope} (hΓ : Γ.Proper) {cond : Expr} (h : IsTruth Γ cond) :
    List.Forall₂ (CallSite.Means known Γ.globals) ((cond.used Γ).filterMap Mark.callee?)
      (cond.callSites known Γ) := by
  obtain ⟨τ, hτ, -⟩ := h
  simpa [Expr.used, Expr.gap_callee] using hτ.callSites known hΓ

/-- The calls of an assignment. -/
theorem assigned_callSites {Γ : Scope} (hΓ : Γ.Proper) {target value : Expr} {α β : Ty}
    (htarget : HasType Γ target α) (hvalue : HasType Γ value β) :
    List.Forall₂ (CallSite.Means known Γ.globals)
      ((Stmt.assigned Γ target value).filterMap Mark.callee?)
      (target.callSites known Γ ++ value.callSites known Γ) := by
  have hboth := List.rel_append (htarget.callSites known hΓ) (hvalue.callSites known hΓ)
  unfold Stmt.assigned
  split
  · simpa [Expr.marks, Expr.gap_callee] using hboth
  · simpa [Expr.gap_callee] using hboth

mutual

/-- **The calls of a well-typed statement mean what its marks say.** -/
theorem Stmt.WellTyped.callSites {ret : Ty} {Γ : Scope} (hΓ : Γ.Proper) : ∀ {st : Stmt},
    st.Proper → st.WellTyped ret Γ → List.Forall₂ (CallSite.Means known Γ.globals)
      ((st.marks Γ).filterMap Mark.callee?) (st.callSites known Γ)
  | _, _, .assign htarget hvalue _ => assigned_callSites known hΓ htarget hvalue
  | _, hst, .ifThen hcond hbody => by
      simpa [Stmt.marks, Stmt.callSites] using
        List.rel_append (hcond.callSites known hΓ)
          (hbody.callSites hΓ Frame.proper_nil hst.2)
  | _, hst, .ifElse hcond hthen helse => by
      simpa [Stmt.marks, Stmt.callSites] using
        List.rel_append (hcond.callSites known hΓ)
          (List.rel_append (hthen.callSites hΓ Frame.proper_nil hst.2.1)
            (helse.callSites hΓ Frame.proper_nil hst.2.2))
  | _, hst, .whileLoop hcond hbody => by
      simpa [Stmt.marks, Stmt.callSites] using
        List.rel_append (hcond.callSites known hΓ)
          (hbody.callSites hΓ Frame.proper_nil hst.2)
  | _, hst, .forLoop hinit hcond hstep hbody => by
      simpa [Stmt.marks, Stmt.callSites] using
        List.rel_append (hinit.callSites hΓ hst.1.proper)
          (List.rel_append (hcond.callSites known hΓ)
            (List.rel_append (hbody.callSites hΓ Frame.proper_nil hst.2.2.2)
              (hstep.callSites hΓ hst.2.2.1.proper)))
  | _, _, .call he => he.callSites known hΓ
  | _, _, .retNone _ => .nil
  | _, _, .retSome he _ => by
      simpa [Stmt.marks, Stmt.callSites, Expr.used, Expr.gap_callee, Mark.callee?,
        List.filterMap_cons] using he.callSites known hΓ

/-- **The calls of a well-typed block mean what its marks say.** -/
theorem Block.WellTyped.callSites {ret : Ty} {Γ : Scope} {frame : Frame} (hΓ : Γ.Proper)
    (hframe : Frame.Proper frame) : ∀ {b : Block}, b.Proper → b.WellTyped ret Γ frame →
      List.Forall₂ (CallSite.Means known Γ.globals)
        ((b.marks (Γ.push frame)).filterMap Mark.callee?) (b.callSites known (Γ.push frame))
  | _, hb, .mk hdecls hstmts => by
      have hframe' := hdecls.proper (binding_of_variables hb.1) hframe
      rw [Block.marks, Block.callSites, Check.decls_scope hdecls]
      exact hstmts.callSites (hΓ.push hframe') hb.2

theorem Stmt.AllWellTyped.callSites {ret : Ty} {Γ : Scope} (hΓ : Γ.Proper) : ∀ {sts : List Stmt},
    Stmt.AllProper sts → Stmt.AllWellTyped ret Γ sts →
      List.Forall₂ (CallSite.Means known Γ.globals)
        ((Stmt.marksOf Γ sts).filterMap Mark.callee?) (Stmt.callSitesOf known Γ sts)
  | _, _, .nil => .nil
  | _, hsts, .cons hst hrest => by
      simpa [Stmt.marksOf, Stmt.callSitesOf] using
        List.rel_append (hst.callSites hΓ hsts.1) (hrest.callSites hΓ hsts.2)

end

/-- The calls of a function mean the overloads that its code calls. -/
theorem Setting.callSites (c : Setting) :
    List.Forall₂ (CallSite.Means known c.site.scope.globals) (c.body.calls c.site.scope)
      (c.body.callSites known c.site.scope) :=
  c.typed.callSites known c.scope_proper c.frame_proper c.body_proper

end Tables

/-! ## 3. What is known at a function -/

theorem Decl.knownSites_sites : ∀ (ds before : List Decl) (Γ : Scope),
    (Decl.knownSites before Γ ds).map Prod.snd = Decl.sites Γ ds
  | [], _, _ => rfl
  | d :: ds, before, Γ => by
      rw [Decl.knownSites, Decl.sites, List.map_append, List.map_map,
        Decl.knownSites_sites ds (before ++ [d]) (Check.decl Γ d).1]
      exact congrArg (· ++ _) (List.map_id _)

/-- What is known at a function stands in the program. -/
theorem Decl.mem_of_knownSites : ∀ {ds before : List Decl} {Γ : Scope} {k : List Decl × FnSite},
    k ∈ Decl.knownSites before Γ ds → ∀ d ∈ k.1, d ∈ before ++ ds
  | [], _, _, _, hk => absurd hk List.not_mem_nil
  | e :: ds, before, Γ, k, hk => by
      intro d hd
      rcases List.mem_append.mp hk with hhere | hlater
      · obtain ⟨f, -, rfl⟩ := List.mem_map.mp hhere
        rcases List.mem_append.mp hd with hd | hd
        · exact List.mem_append_left _ hd
        · rw [List.mem_singleton.mp hd]
          exact List.mem_append_right _ List.mem_cons_self
      · have hmem := Decl.mem_of_knownSites hlater d hd
        rwa [List.append_assoc, List.singleton_append] at hmem

/-- The table of a function that is well typed reflects the declarations up to its own. -/
theorem Reflects.site {before : List Decl} {globals globals' : Frame} {d : Decl} {f : FnSite}
    (h : Reflects before globals) (hd : d.WellTyped globals globals')
    (hf : d.site? { globals := globals } = some f) : Reflects (before ++ [d]) f.scope.globals := by
  have hafter := h.wellTyped hd
  cases hd with
  | var hadd => cases hf
  | prototype htys hparams hadd => cases hf
  | @function _ _ head params _ body htys hparams hadd hbody =>
    have hsite := Check.site?_function (f := ⟨head, params, body⟩) htys hparams hadd
    cases hsite.symm.trans hf
    exact hafter

/-- **The table of each function reflects what is known there.** -/
theorem Reflects.knownSites : ∀ {ds before : List Decl} {globals globals' : Frame},
    Reflects before globals → Decl.AllWellTyped globals ds globals' →
      ∀ k ∈ Decl.knownSites before { globals := globals } ds, Reflects k.1 k.2.scope.globals
  | [], _, _, _, _, _, _, hk => absurd hk List.not_mem_nil
  | d :: ds, before, globals, _, h, .cons hd hds, k, hk => by
      rcases List.mem_append.mp hk with hhere | hlater
      · obtain ⟨f, hf, rfl⟩ := List.mem_map.mp hhere
        exact h.site hd (Option.mem_toList.mp hf)
      · rw [Check.decl_scope hd] at hlater
        exact Reflects.knownSites (h.wellTyped hd) hds k hlater

/-! ## 4. Labels with code behind them -/

/-- The functions that a program declares, by prototypes and by definitions. -/
def Program.signatures (p : Program) : List (String × Signature) :=
  p.decls.filterMap Decl.signature?

/-- **Every prototype is completed** by a definition of the same name and of the same types. -/
def Program.Complete (p : Program) : Prop :=
  ∀ b ∈ p.signatures, b.2.forward = true → ∃ b' ∈ p.signatures, b'.2.forward = false ∧
    b'.1 = b.1 ∧ b'.2.params.map Ty.identity = b.2.params.map Ty.identity

/-- **The program defines the function that it starts with**, without parameters. -/
def Program.HasEntry (p : Program) : Prop :=
  ∃ b ∈ p.signatures, b.2.forward = false ∧ b.1 = Lower.entryName ∧ b.2.params = []

instance (p : Program) : Decidable p.Complete :=
  inferInstanceAs (Decidable (∀ b ∈ p.signatures, b.2.forward = true →
    ∃ b' ∈ p.signatures, b'.2.forward = false ∧
      b'.1 = b.1 ∧ b'.2.params.map Ty.identity = b.2.params.map Ty.identity))

instance (p : Program) : Decidable p.HasEntry :=
  inferInstanceAs (Decidable (∃ b ∈ p.signatures, b.2.forward = false ∧ b.1 = Lower.entryName ∧
    b.2.params = []))

/-- The code label that an instruction goes to. -/
def Instr.enters? : Instr → Option String
  | .entry name _ | .call name _ | .callValue _ name _ => some name
  | _ => none

/-- Types that agree have the same base names, and so give the same label. -/
theorem codeLabel_of_identity {as bs : List Ty} (name : String)
    (h : as.map Ty.identity = bs.map Ty.identity) : codeLabel name as = codeLabel name bs := by
  have hnames : as.map Ty.name = bs.map Ty.name := by
    have hfirst := congrArg (List.map Prod.fst) h
    rwa [List.map_map, List.map_map] at hfirst
  unfold codeLabel
  rw [hnames]

/-- A function that is defined has a segment in the code. -/
theorem Program.mem_funcLabels {p : Program} (hp : p.Proper) {b : String × Signature}
    (hb : b ∈ p.signatures) (hfull : b.2.forward = false) (s : Lower.State) :
    codeLabel b.1 b.2.params ∈ funcLabels (Lower.program p s).code := by
  obtain ⟨d, hd, hsig⟩ := List.mem_filterMap.mp hb
  rw [funcLabels_program hp]
  cases d with
  | function head params body =>
    cases hsig
    have hkey : ⟨head.name, params.filterMap Decl.ty?⟩ ∈ p.keys :=
      List.mem_filterMap.mpr ⟨_, hd, rfl⟩
    exact List.mem_map_of_mem hkey
  | prototype head params =>
    cases hsig
    cases hfull
  | _ => cases hsig

/-- A program enters at one label. -/
theorem Program.entry_label {p : Program} (hp : p.Proper) {s : Lower.State} {label : String}
    {globals : Nat} (h : .entry label globals ∈ (Lower.program p s).code) :
    label = codeLabel Lower.entryName [] := by
  obtain ⟨gs, hcode, -, htidy⟩ := Lower.decls_segments [] s hp
  rw [Lower.program, hcode] at h
  rcases List.mem_append.mp h with hheader | hbody
  · rcases List.mem_append.mp hheader with hstring | hentry
    · obtain ⟨text, -, htext⟩ := List.mem_map.mp hstring
      cases htext
    · cases List.mem_singleton.mp hentry
      rfl
  · obtain ⟨g, hg, hmem⟩ := List.mem_flatMap.mp hbody
    obtain ⟨m, n, htidied⟩ := htidy.tidy g hg
    have hinside : Instr.entry label globals ∈ g.body := by
      simpa [Segment.code, Segment.inside] using hmem
    exact (htidied.inner _ hinside).elim

/-- A call that is linked has code behind it, if all prototypes are completed. -/
theorem CallSite.Linked.mem_funcLabels {p : Program} (hp : p.Proper) (hcomplete : p.Complete)
    {c : Called} {site : CallSite} (h : site.Linked c) (hknown : ∀ d ∈ site.known, d ∈ p.decls)
    (s : Lower.State) : c.label ∈ funcLabels (Lower.program p s).code := by
  obtain ⟨d, hd, f, ⟨hsig, -⟩, hlabel, -⟩ := h
  have hb : (site.name, f) ∈ p.signatures := List.mem_filterMap.mpr ⟨d, hknown d hd, hsig⟩
  rw [hlabel]
  cases hforward : f.forward with
  | false => exact Program.mem_funcLabels hp hb hforward s
  | true =>
    obtain ⟨⟨name, g⟩, hb', hfull, hname, htypes⟩ := hcomplete _ hb hforward
    cases hname
    rw [← codeLabel_of_identity site.name htypes]
    exact Program.mem_funcLabels hp hb' hfull s

/-! ## 5. Programs -/

theorem forall₂_flatMap {α β γ : Type} {R : β → γ → Prop} {f : α → List β} {g : α → List γ} :
    ∀ {as : List α}, (∀ a ∈ as, List.Forall₂ R (f a) (g a)) →
      List.Forall₂ R (as.flatMap f) (as.flatMap g)
  | [], _ => .nil
  | a :: as, h => by
      obtain ⟨ha, has⟩ := List.forall_mem_cons.mp h
      rw [List.flatMap_cons, List.flatMap_cons]
      exact List.rel_append ha (forall₂_flatMap has)

theorem Lower.code_of_result {p : Program} {s after : Lower.State} {code : List Instr}
    (h : Lower.result p s = .ok (code, after)) : code = (Lower.program p s).code := by
  unfold Lower.result at h
  dsimp only at h
  split at h
  · cases h
  · cases h
    rfl

/-- The calls of one function are linked, and know only the program's own declarations. -/
theorem Program.linked_of_means {p : Program} {k : List Decl × FnSite}
    (hk : k ∈ Decl.knownSites [] {} p.decls) (hglobals : Reflects k.1 k.2.scope.globals)
    (hmeans : List.Forall₂ (CallSite.Means k.1 k.2.scope.globals) (k.2.body.calls k.2.scope)
      (k.2.body.callSites k.1 k.2.scope)) :
    List.Forall₂ (fun c site => site.Linked c ∧ ∀ d ∈ site.known, d ∈ p.decls)
      ((k.2.body.calls k.2.scope).map Overload.called) (k.2.body.callSites k.1 k.2.scope) := by
  rw [List.forall₂_map_left_iff]
  refine hmeans.imp fun o site h => ⟨h.linked hglobals, ?_⟩
  rw [h.known_eq]
  exact Decl.mem_of_knownSites hk

/-- **The calls of the program are linked**, given that those of each function are found. -/
theorem Program.forall₂_linked {p : Program} {globals : Frame}
    (htyped : Decl.AllWellTyped [] p.decls globals)
    (hmeans : ∀ f ∈ p.sites, ∀ known, List.Forall₂ (CallSite.Means known f.scope.globals)
      (f.body.calls f.scope) (f.body.callSites known f.scope)) :
    List.Forall₂ (fun c site => site.Linked c ∧ ∀ d ∈ site.known, d ∈ p.decls)
      (p.calls.map Overload.called) p.callSites := by
  have hsites : (Decl.knownSites [] {} p.decls).map Prod.snd = p.sites :=
    Decl.knownSites_sites p.decls [] {}
  have hcalls : p.calls.map Overload.called = (Decl.knownSites [] {} p.decls).flatMap fun k =>
      (k.2.body.calls k.2.scope).map Overload.called := by
    rw [Program.calls, ← hsites, List.map_flatMap, List.flatMap_map]
  rw [hcalls]
  refine forall₂_flatMap fun k hk => ?_
  have hsite : k.2 ∈ p.sites := hsites ▸ List.mem_map_of_mem hk
  exact Program.linked_of_means hk (Reflects.nil.knownSites htyped k hk) (hmeans k.2 hsite k.1)

/-- Where every call has code behind it, and so has the entry, every label does. -/
theorem Program.enters_mem_funcLabels {p : Program} (hp : p.Proper) (hentry : p.HasEntry)
    {s : Lower.State}
    (hcalled : ∀ c ∈ callsOf (Lower.program p s).code,
      c.label ∈ funcLabels (Lower.program p s).code)
    {i : Instr} (hi : i ∈ (Lower.program p s).code) {label : String}
    (hlabel : i.enters? = some label) : label ∈ funcLabels (Lower.program p s).code := by
  cases i with
  | entry name globals =>
    cases hlabel
    obtain ⟨b, hb, hfull, hname, hparams⟩ := hentry
    have hmem := Program.mem_funcLabels hp hb hfull s
    rwa [hname, hparams, ← Program.entry_label hp hi] at hmem
  | call name args =>
    cases hlabel
    exact hcalled ⟨_, _, _⟩ (List.mem_filterMap.mpr ⟨_, hi, rfl⟩)
  | callValue dest name args =>
    cases hlabel
    exact hcalled ⟨_, _, _⟩ (List.mem_filterMap.mpr ⟨_, hi, rfl⟩)
  | _ => cases hlabel

/-- **All calls are linked.** The calls in the code of an accepted program are those of its source,
    one for one. Each has the label of a function that is declared before the call or that the call
    stands in, with the called name and with the types of the arguments, and it has as many
    arguments as the call in the source. If besides all prototypes are completed and the program
    defines where it starts, then every label that is called or entered has code behind it. -/
theorem calls_linked {source : List Char} {p : Program} (h : Program.ofSource? source = some p)
    (haccepted : p.Accepted) :
    ∃ code after, Lower.result p {} = .ok (code, after) ∧
      List.Forall₂ CallSite.Linked (callsOf code) p.callSites ∧
      (p.Complete → p.HasEntry →
        ∀ i ∈ code, ∀ label, i.enters? = some label → label ∈ funcLabels code) := by
  have hp := Program.proper_ofSource? h
  obtain ⟨globals, htyped⟩ := hp.wellTyped haccepted
  obtain ⟨code, after, fs, hresult, hlayout, hfs⟩ :=
    Program.exists_layout (P := fun f g =>
      callsOf g.body = (f.body.calls f.scope).map Overload.called ∧
        ∀ known, List.Forall₂ (CallSite.Means known f.scope.globals) (f.body.calls f.scope)
          (f.body.callSites known f.scope))
      (fun c => ⟨c.callsOf_body, fun known => c.callSites known⟩) h haccepted
  have hmeans : ∀ f ∈ p.sites, ∀ known, List.Forall₂ (CallSite.Means known f.scope.globals)
      (f.body.calls f.scope) (f.body.callSites known f.scope) := by
    rw [← hlayout.sites, List.forall_mem_map]
    exact fun f hf => (hfs f hf).2
  have hlinked := Program.forall₂_linked htyped hmeans
  rw [← hlayout.callsOf_eq fun f hf => (hfs f hf).1] at hlinked
  refine ⟨code, after, hresult, hlinked.imp fun c site hc => hc.1, ?_⟩
  intro hcomplete hentry i hi label hlabel
  rw [Lower.code_of_result hresult] at hi hlinked ⊢
  have hboth := hlinked.imp fun c site hc =>
    And.intro (hc.1.mem_funcLabels hp hcomplete hc.2 {}) hc.1
  have hcalled := ((List.forall₂_and_left _ _).mp hboth).1
  exact Program.enters_mem_funcLabels hp hentry hcalled hi hlabel

/-- Overloads, prototypes completed before and after they are used, and functions that call
    themselves and one another. -/
def mutualCalls : String :=
  "bool odd(int n);
bool even(int n) \x7b if (n == 0) \x7b return n == 0; \x7d return odd(n - 1); \x7d
bool odd(int n) \x7b if (n == 0) \x7b return n == 1; \x7d return even(n - 1); \x7d
int fact(int n) \x7b if (even(n) && n == 0) \x7b return 1; \x7d return n * fact(n - 1); \x7d
int fact(bool b, int n) \x7b if (b) \x7b return fact(n); \x7d return fact(even(n), fact(n)); \x7d
void main() \x7b int a[3]; a[fact(1)] = fact(odd(2), a[0]); printf(a[1]); \x7d"

theorem calls_linked_mutualCalls :
    ∃ p, Program.ofSource? mutualCalls.toList = some p ∧ p.Accepted ∧ p.Complete ∧ p.HasEntry ∧
      ∃ code after, Lower.result p {} = .ok (code, after) ∧
        List.Forall₂ CallSite.Linked (callsOf code) p.callSites ∧
        ∀ i ∈ code, ∀ label, i.enters? = some label → label ∈ funcLabels code := by
  have hread : ∃ p, Program.ofSource? mutualCalls.toList = some p ∧
      p.Accepted ∧ p.Complete ∧ p.HasEntry := by
    set_option maxRecDepth 2000 in
    exact Program.exists_of_text rfl (by decide +kernel)
  obtain ⟨p, hp, haccepted, hcomplete, hentry⟩ := hread
  obtain ⟨code, after, hresult, hlinked, henters⟩ := calls_linked hp haccepted
  exact ⟨p, hp, haccepted, hcomplete, hentry, code, after, hresult, hlinked,
    henters hcomplete hentry⟩

end CMinusMinus
