/-
  File:      CMinusMinus/Proofs/ReturnStatements.lean
  Subject:   What the checker says of return statements.

  A return statement is judged where it stands, by the type of its value and by the return type of
  its function, and the check goes on behind it as if it were not there. Without a value the return
  type must be built on `void`; with one the two types must agree. So two returns pass that should
  not: one without a value where a pointer to `void` is to be returned, and one in a function without
  a value whose own value is none, such as a call of another function without a value.

  * `ReturnSite`, `Program.cuts` -- the return statements of a program, each with the program that is
    left without it;
  * `Check.decls_proper`, `Check.decl_proper` -- scopes stay proper, whatever is wrong in a program;
  * `Program.cuts_from` -- what is said of a return statement stands between what is said without it;
  * `Expr.givesVoid`, `HasType.void_iff` -- the values that are none;
  * `returns_policed` -- **what each return statement contributes**.
-/
import CMinusMinus.Proofs.OperandTypes
import CMinusMinus.Proofs.SingleDefect

namespace CMinusMinus

/-! ## 1. Return statements -/

/-- A return statement: its position and its value, the checker's scope there, and the return type of
    the function around it. -/
structure ReturnSite where
  pos : Position
  value : Option Expr
  scope : Scope
  ret : Ty

/-- What the checker says of a return statement. -/
def ReturnSite.journal (r : ReturnSite) : Journal := Check.returned r.ret r.scope r.pos r.value

mutual

/-- **The return statements in a statement**, each with what is left of the statement without it. The
    first and the last clause of a `for` are never returns. -/
def Stmt.cuts (ret : Ty) (Γ : Scope) : Stmt → List (ReturnSite × List Stmt)
  | .ret pos value => [(⟨pos, value, Γ, ret⟩, [])]
  | .ifThen pos cond body =>
      (body.cuts ret (Γ.push [])).map fun c => (c.1, [.ifThen pos cond c.2])
  | .ifElse pos cond yes no =>
      (yes.cuts ret (Γ.push [])).map (fun c => (c.1, [.ifElse pos cond c.2 no])) ++
        (no.cuts ret (Γ.push [])).map fun c => (c.1, [.ifElse pos cond yes c.2])
  | .whileLoop pos cond body =>
      (body.cuts ret (Γ.push [])).map fun c => (c.1, [.whileLoop pos cond c.2])
  | .forLoop pos init cond step body =>
      (body.cuts ret (Γ.push [])).map fun c => (c.1, [.forLoop pos init cond step c.2])
  | .assign _ _ _ | .call _ _ | .misplaced _ | .missing _ _ => []

/-- The return statements in a block, in a scope whose innermost frame is its own. -/
def Block.cuts (ret : Ty) (Γ : Scope) : Block → List (ReturnSite × Block)
  | .mk pos ds sts => (Stmt.cutsOf ret (Check.decls Γ ds).1 sts).map fun c => (c.1, .mk pos ds c.2)

/-- The return statements in statements one after the other. -/
def Stmt.cutsOf (ret : Ty) (Γ : Scope) : List Stmt → List (ReturnSite × List Stmt)
  | [] => []
  | st :: sts => (st.cuts ret Γ).map (fun c => (c.1, c.2 ++ sts)) ++
      (Stmt.cutsOf ret Γ sts).map fun c => (c.1, st :: c.2)

end

/-- The return statements in a declaration at the top. -/
def Decl.cuts (Γ : Scope) : Decl → List (ReturnSite × Decl)
  | .function head params body =>
      let formals := (Check.decls (Γ.push []) params).1.top
      (body.cuts head.ret ((Check.functionDecl Γ head params false).1.push formals)).map
        fun c => (c.1, .function head params c.2)
  | _ => []

/-- The return statements in declarations one after the other. -/
def Decl.cutsOf (Γ : Scope) : List Decl → List (ReturnSite × List Decl)
  | [] => []
  | d :: ds => (d.cuts Γ).map (fun c => (c.1, c.2 :: ds)) ++
      (Decl.cutsOf (Check.decl Γ d).1 ds).map fun c => (c.1, d :: c.2)

/-- **The return statements of a program**, each with the program that is left without it. -/
def Program.cuts (p : Program) : List (ReturnSite × Program) :=
  (Decl.cutsOf {} p.decls).map fun c => (c.1, ⟨c.2⟩)

/-! ## 2. Scopes stay proper -/

theorem Scope.Proper.top {Γ : Scope} (h : Γ.Proper) : Frame.Proper Γ.top := by
  obtain ⟨inner, globals⟩ := Γ
  cases inner with
  | nil => exact h globals List.mem_cons_self
  | cons frame outer => exact h frame List.mem_cons_self

theorem Scope.Proper.withTop {Γ : Scope} (h : Γ.Proper) {frame : Frame}
    (hframe : Frame.Proper frame) : (Γ.withTop frame).Proper := by
  obtain ⟨inner, globals⟩ := Γ
  cases inner with
  | nil => exact Scope.proper_globals hframe
  | cons _ outer =>
    have houter : Scope.Proper ⟨outer, globals⟩ := fun f hf => h f (List.mem_cons_of_mem _ hf)
    exact houter.push hframe

namespace Check

variable {Γ : Scope}

theorem declare_proper (hΓ : Γ.Proper) {pos : Position} {name : String} {entry : Entry}
    (hentry : entry.Proper) : (declare Γ pos name entry).1.Proper := by
  unfold declare
  split
  · rename_i frame hadd
    exact hΓ.withTop (Frame.proper_add hadd hΓ.top hentry)
  · exact hΓ

/-- Declarations of a block or a parameter list leave a proper scope, refused or not. -/
theorem decls_proper : ∀ {ds : List Decl} {Γ : Scope}, (∀ d ∈ ds, d.IsBinding) → Γ.Proper →
    (decls Γ ds).1.Proper
  | [], _, _, hΓ => hΓ
  | d :: ds, Γ, hds, hΓ => by
      obtain ⟨hd, hrest⟩ := List.forall_mem_cons.mp hds
      have hfirst : (decl Γ d).1.Proper := by
        rcases hd with ⟨_, hty⟩ | ⟨_, hty⟩
        · exact declare_proper hΓ hty
        · exact declare_proper hΓ hty
      rw [decls]
      exact decls_proper hrest hfirst

theorem functionDecl_proper (hΓ : Γ.Proper) {head : FnHead} {params : List Decl} {forward : Bool}
    (hhead : head.Proper) (hparams : ∀ d ∈ params, d.IsParameter) :
    (functionDecl Γ head params forward).1.Proper := by
  obtain ⟨tys, htys, hproper⟩ := paramTypes_ok hparams
  unfold functionDecl
  rw [htys]
  exact declare_proper hΓ ⟨hhead.ret, hproper⟩

theorem decl_proper (hΓ : Γ.Proper) {d : Decl} (hd : d.Proper) : (decl Γ d).1.Proper := by
  cases hd with
  | var hvar =>
    obtain ⟨_, hty⟩ := hvar
    exact declare_proper hΓ hty
  | prototype hhead hparams => exact functionDecl_proper hΓ hhead hparams
  | function hhead hparams _ => exact functionDecl_proper hΓ hhead hparams

theorem stmts_append (ret : Ty) (Γ : Scope) (sts sts' : List Stmt) :
    stmts ret Γ (sts ++ sts') = stmts ret Γ sts ++ stmts ret Γ sts' := by
  induction sts with
  | nil => rfl
  | cons st sts ih => rw [List.cons_append, stmts, stmts, ih, List.append_assoc]

theorem stmts_singleton (ret : Ty) (Γ : Scope) (st : Stmt) : stmts ret Γ [st] = stmt ret Γ st := by
  rw [stmts, stmts, List.append_nil]

end Check

/-! ## 3. A return statement contributes on its own -/

/-- **A return statement contributes on its own**: the second journal is the first one with what is
    said of the return put in. -/
structure ReturnSite.CutFrom (r : ReturnSite) (j j' : Journal) : Prop where
  scope_proper : r.scope.Proper
  value_proper : ∀ e, r.value = some e → e.Proper
  inserts : Check.Inserts r.journal j j'

namespace ReturnSite.CutFrom

variable {r : ReturnSite} {j j' : Journal}

theorem behind (h : r.CutFrom j j') (i : Journal) : r.CutFrom (i ++ j) (i ++ j') :=
  ⟨h.scope_proper, h.value_proper, h.inserts.behind i⟩

theorem before (h : r.CutFrom j j') (i : Journal) : r.CutFrom (j ++ i) (j' ++ i) :=
  ⟨h.scope_proper, h.value_proper, h.inserts.before i⟩

end ReturnSite.CutFrom

open Check

mutual

/-- **The return statements in a statement.** By recursion on it: what is said of the block around a
    return stands behind the condition and before the other block. -/
theorem Stmt.cuts_from (ret : Ty) {Γ : Scope} (hΓ : Γ.Proper) : ∀ {st : Stmt}, st.Proper →
    ∀ c ∈ st.cuts ret Γ, c.1.CutFrom (stmts ret Γ c.2) (stmt ret Γ st)
  | .ret pos value, hst, c, hc => by
      rw [List.mem_singleton.mp hc]
      exact ⟨hΓ, hst, inserts_self _⟩
  | .ifThen pos cond body, hst, c, hc | .whileLoop pos cond body, hst, c, hc => by
      obtain ⟨d, hd, rfl⟩ := List.mem_map.mp hc
      rw [stmts_singleton]
      exact (Block.cuts_from ret (hΓ.push Frame.proper_nil) hst.2 d hd).behind _
  | .ifElse pos cond yes no, hst, c, hc => by
      rcases List.mem_append.mp hc with hc | hc
      · obtain ⟨d, hd, rfl⟩ := List.mem_map.mp hc
        rw [stmts_singleton]
        exact ((Block.cuts_from ret (hΓ.push Frame.proper_nil) hst.2.1 d hd).behind _).before _
      · obtain ⟨d, hd, rfl⟩ := List.mem_map.mp hc
        rw [stmts_singleton]
        exact (Block.cuts_from ret (hΓ.push Frame.proper_nil) hst.2.2 d hd).behind _
  | .forLoop pos init cond step body, hst, c, hc => by
      obtain ⟨d, hd, rfl⟩ := List.mem_map.mp hc
      rw [stmts_singleton]
      exact (Block.cuts_from ret (hΓ.push Frame.proper_nil) hst.2.2.2 d hd).behind _
  | .assign _ _ _, _, _, hc | .call _ _, _, _, hc | .misplaced _, _, _, hc
  | .missing _ _, _, _, hc => absurd hc List.not_mem_nil

/-- The return statements in a block: its declarations are checked before all of them. -/
theorem Block.cuts_from (ret : Ty) {Γ : Scope} (hΓ : Γ.Proper) : ∀ {b : Block}, b.Proper →
    ∀ c ∈ b.cuts ret Γ, c.1.CutFrom (block ret Γ c.2) (block ret Γ b)
  | .mk pos ds sts, hb, c, hc => by
      obtain ⟨d, hd, rfl⟩ := List.mem_map.mp hc
      have hscope := decls_proper (binding_of_variables hb.1) hΓ
      exact (Stmt.cutsOf_from ret hscope hb.2 d hd).behind _

theorem Stmt.cutsOf_from (ret : Ty) {Γ : Scope} (hΓ : Γ.Proper) : ∀ {sts : List Stmt},
    Stmt.AllProper sts → ∀ c ∈ Stmt.cutsOf ret Γ sts,
      c.1.CutFrom (stmts ret Γ c.2) (stmts ret Γ sts)
  | [], _, _, hc => absurd hc List.not_mem_nil
  | st :: sts, hsts, c, hc => by
      rcases List.mem_append.mp hc with hc | hc
      · obtain ⟨d, hd, rfl⟩ := List.mem_map.mp hc
        rw [stmts_append, stmts]
        exact (Stmt.cuts_from ret hΓ hsts.1 d hd).before _
      · obtain ⟨d, hd, rfl⟩ := List.mem_map.mp hc
        rw [stmts, stmts]
        exact (Stmt.cutsOf_from ret hΓ hsts.2 d hd).behind _

end

/-- The return statements in a declaration at the top, which declares the same without them. -/
theorem Decl.cuts_from {Γ : Scope} (hΓ : Γ.Proper) {d : Decl} (hd : d.Proper) :
    ∀ c ∈ d.cuts Γ, (decl Γ c.2).1 = (decl Γ d).1 ∧ c.1.CutFrom (decl Γ c.2).2 (decl Γ d).2 := by
  cases hd with
  | var hvar =>
    obtain ⟨_, _⟩ := hvar
    exact List.forall_mem_nil _
  | prototype _ _ => exact List.forall_mem_nil _
  | function hhead hparams hbody =>
    intro c hc
    obtain ⟨b, hb, rfl⟩ := List.mem_map.mp hc
    have hformals := decls_proper (binding_of_params hparams) (hΓ.push Frame.proper_nil)
    have hdeclared : (functionDecl Γ _ _ false).1.Proper := functionDecl_proper hΓ hhead hparams
    exact ⟨rfl, (Block.cuts_from _ (hdeclared.push hformals.top) hbody b hb).behind _⟩

theorem Decl.cutsOf_from : ∀ {ds : List Decl} {Γ : Scope}, Γ.Proper → (∀ d ∈ ds, d.Proper) →
    ∀ c ∈ Decl.cutsOf Γ ds, c.1.CutFrom (decls Γ c.2).2 (decls Γ ds).2
  | [], _, _, _, _, hc => absurd hc List.not_mem_nil
  | d :: ds, Γ, hΓ, hds, c, hc => by
      obtain ⟨hd, hrest⟩ := List.forall_mem_cons.mp hds
      rcases List.mem_append.mp hc with hc | hc
      · obtain ⟨b, hb, rfl⟩ := List.mem_map.mp hc
        obtain ⟨hscope, hcut⟩ := Decl.cuts_from hΓ hd b hb
        simp only [decls, hscope]
        exact hcut.before _
      · obtain ⟨b, hb, rfl⟩ := List.mem_map.mp hc
        exact (Decl.cutsOf_from (decl_proper hΓ hd) hrest b hb).behind _

/-- **The return statements of a program.** -/
theorem Program.cuts_from {p : Program} (hp : p.Proper) : ∀ c ∈ p.cuts,
    c.1.CutFrom (Check.decls {} c.2.decls).2 (Check.decls {} p.decls).2 := by
  intro c hc
  obtain ⟨b, hb, rfl⟩ := List.mem_map.mp hc
  exact Decl.cutsOf_from (Scope.proper_globals Frame.proper_nil) hp b hb

/-! ## 4. What a return statement contributes -/

/-- **An expression that gives no value**: it is declared as `void`, by a function that is called or by
    a variable. -/
def Expr.givesVoid (Γ : Scope) (e : Expr) : Bool := (e.declared? Γ).any fun σ => σ.agrees .void

theorem HasType.void_iff {Γ : Scope} (hΓ : Γ.Proper) {e : Expr} {τ : Ty} (h : HasType Γ e τ) :
    τ.agrees .void = true ↔ e.givesVoid Γ = true := by
  unfold Expr.givesVoid
  rcases h.declared hΓ with ⟨σ, hσ, hagree⟩ | ⟨hnone, hname, -⟩
  · obtain ⟨hnames, hpointers⟩ := (Ty.agrees_iff τ σ).mp hagree
    rw [hσ, Option.any_some, Ty.agrees_iff, Ty.agrees_iff, hnames, hpointers]
  · have hvalue : ∀ n ∈ ["int", "bool", "string"], n ≠ Ty.void.name := by decide
    have hnot : ¬ τ.agrees .void = true := fun hvoid =>
      hvalue τ.name hname ((Ty.agrees_iff τ .void).mp hvoid).1
    rw [hnone]
    exact iff_of_false hnot (by simp)

/-- The diagnostic of a return statement that does not fit its function. -/
def illegalReturn (pos : Position) : Diagnostic :=
  ⟨pos, .semanticError, "Illegal return statement"⟩

theorem Journal.diagnostics_complainIf (c : Bool) (pos : Position) :
    (complainIf c pos .returnMismatch).diagnostics = if c then [illegalReturn pos] else [] := by
  cases c <;> rfl

namespace ReturnSite

variable {r : ReturnSite}

theorem diagnostics_bare (h : r.value = none) :
    r.journal.diagnostics = if r.ret.name = "void" then [] else [illegalReturn r.pos] := by
  unfold journal
  rw [h, Check.returned, Journal.diagnostics_complainIf]
  by_cases hvoid : r.ret.name = "void" <;> simp [hvoid]

theorem diagnostics_value {e : Expr} {τ : Ty} (hscope : r.scope.Proper) (h : r.value = some e)
    (he : HasType r.scope e τ) :
    r.journal.diagnostics = if τ.agrees r.ret then [] else [illegalReturn r.pos] := by
  have hsound : τ.isError = false := (he.proper hscope).isError_eq
  unfold journal
  rw [h, Check.returned, Check.typeOf_eq hscope he]
  dsimp only
  rw [List.nil_append, hsound, Journal.diagnostics_complainIf]
  cases τ.agrees r.ret <;> rfl

end ReturnSite

theorem Ty.agrees_congr {α β : Ty} (h : α.agrees β = true) (τ : Ty) :
    τ.agrees α = true ↔ τ.agrees β = true := by
  obtain ⟨hname, hpointers⟩ := (Ty.agrees_iff α β).mp h
  rw [Ty.agrees_iff, Ty.agrees_iff, hname, hpointers]

/-- Leaving a return statement out brings no fault about. -/
theorem Program.faultless_cut {p : Program} (hp : p.Proper) {c : ReturnSite × Program}
    (hc : c ∈ p.cuts) : (Check.program c.2).Faultless := by
  obtain ⟨before, after, hwithout, hwith⟩ := (Program.cuts_from hp c hc).inserts
  have hall := Check.program_faultless hp
  unfold Check.program at hall ⊢
  dsimp only at hall ⊢
  rw [hwith, Journal.faultless_append, Journal.faultless_append, Journal.faultless_append] at hall
  rw [hwithout, Journal.faultless_append, Journal.faultless_append]
  exact ⟨⟨hall.1.1, hall.1.2.2⟩, Journal.faultless_trace _⟩

/-- **What each return statement contributes.** The check runs to its end with the return and without
    it. The diagnostics of the program are those of the program without the return, and between them
    what is said of the return:

    * without a value, one error unless the return type of the function is built on `void`;
    * with a value in which nothing is wrong, one error unless its type agrees with the return type;
    * so in a function without a value, one error unless the value is itself none. -/
theorem returns_policed {source : List Char} {p : Program}
    (h : Program.ofSource? source = some p) : ∀ c ∈ p.cuts,
      (Check.program p).Faultless ∧ (Check.program c.2).Faultless ∧ ∃ front own back,
      (Check.program p).diagnostics = front ++ own ++ back ∧
      (Check.program c.2).diagnostics = front ++ back ∧
      (c.1.value = none →
        own = if c.1.ret.name = "void" then [] else [illegalReturn c.1.pos]) ∧
      ∀ e, c.1.value = some e → (Check.typeOf c.1.scope e).journal.Blameless →
        (own = if (Check.typeOf c.1.scope e).ty.agrees c.1.ret then [] else
          [illegalReturn c.1.pos]) ∧
        (c.1.ret.agrees .void = true →
          own = if e.givesVoid c.1.scope then [] else [illegalReturn c.1.pos]) := by
  intro c hc
  have hp := Program.proper_ofSource? h
  have hcut := Program.cuts_from hp c hc
  obtain ⟨before, after, hwithout, hwith⟩ := hcut.inserts
  refine ⟨Check.program_faultless hp, Program.faultless_cut hp hc, before.diagnostics,
    c.1.journal.diagnostics, after.diagnostics, ?_, ?_, ReturnSite.diagnostics_bare, ?_⟩
  · rw [Check.diagnostics_program, hwith, Journal.diagnostics_append, Journal.diagnostics_append,
      List.append_assoc]
  · rw [Check.diagnostics_program, hwithout, Journal.diagnostics_append]
  · intro e he hblameless
    have happroved := Check.typeOf_approves hcut.scope_proper e (hcut.value_proper e he) hblameless
    have hown := ReturnSite.diagnostics_value hcut.scope_proper he happroved.typed
    refine ⟨hown, fun hvoid => ?_⟩
    rw [hown]
    refine if_congr ?_ rfl rfl
    exact (Ty.agrees_congr hvoid _).trans (happroved.typed.void_iff hcut.scope_proper)

/-- Two returns that pass, the one because only base names are compared, the other because its value
    is none, and two that do not. -/
def returning : String :=
  "void g() \x7b \x7d
void *h() \x7b return; \x7d
void f(int n) \x7b while (n < 3) \x7b return g(); return n; \x7d \x7d
int k() \x7b if (1 < 2) \x7b return; \x7d return 1; \x7d"

/-- Nothing is said of a bare return where a pointer is to be returned, nor of a return of a call
    without a value; of the return of a number from a function without a value there is. -/
theorem returns_policed_returning :
    ∃ p, Program.ofSource? returning.toList = some p ∧
      (∃ c ∈ p.cuts, c.1.value = none ∧ c.1.ret.agrees .void = false ∧
        (Check.program c.2).diagnostics = (Check.program p).diagnostics) ∧
      (∃ c ∈ p.cuts, c.1.value.isSome = true ∧ c.1.ret.agrees .void = true ∧
        (Check.program c.2).diagnostics = (Check.program p).diagnostics) ∧
      ∃ c ∈ p.cuts, c.1.value.isSome = true ∧ c.1.ret.agrees .void = true ∧
        illegalReturn c.1.pos ∈ (Check.program p).diagnostics := by
  have hread : ∃ p, Program.ofSource? returning.toList = some p ∧
      (∃ c ∈ p.cuts, c.1.value = none ∧ c.1.ret.name = "void" ∧ c.1.ret.agrees .void = false) ∧
      ∀ gives ∈ [true, false], ∃ c ∈ p.cuts, c.1.ret.agrees .void = true ∧
        c.1.value.any (fun e => e.givesVoid c.1.scope == gives &&
          Diagnostic.count (Check.typeOf c.1.scope e).journal.diagnostics .semanticError == 0) := by
    set_option maxRecDepth 2000 in
    exact Program.exists_of_text rfl (by decide +kernel)
  obtain ⟨p, hp, ⟨b, hb, hbare, hname, hpointer⟩, hvalues⟩ := hread
  have hvalue : ∀ gives ∈ [true, false], ∃ c ∈ p.cuts, c.1.ret.agrees .void = true ∧
      ∃ e, c.1.value = some e ∧ e.givesVoid c.1.scope = gives ∧
        (Check.typeOf c.1.scope e).journal.Blameless := by
    intro gives hgives
    obtain ⟨c, hc, hret, hany⟩ := hvalues gives hgives
    obtain ⟨e, he, hboth⟩ := (Option.any_eq_true _ _).mp hany
    rw [Bool.and_eq_true, beq_iff_eq, beq_iff_eq] at hboth
    exact ⟨c, hc, hret, e, he, hboth.1, Journal.blameless_iff.mpr hboth.2⟩
  refine ⟨p, hp, ⟨b, hb, hbare, hpointer, ?_⟩, ?_, ?_⟩
  · obtain ⟨-, -, front, own, back, hwith, hwithout, hown, -⟩ := returns_policed hp b hb
    rw [hwith, hwithout, hown hbare, if_pos hname, List.append_nil]
  · obtain ⟨c, hc, hret, e, he, hgives, hblameless⟩ := hvalue true (by decide)
    obtain ⟨-, -, front, own, back, hwith, hwithout, -, hown⟩ := returns_policed hp c hc
    refine ⟨c, hc, by rw [he]; rfl, hret, ?_⟩
    rw [hwith, hwithout, (hown e he hblameless).2 hret, if_pos hgives, List.append_nil]
  · obtain ⟨c, hc, hret, e, he, hgives, hblameless⟩ := hvalue false (by decide)
    obtain ⟨-, -, front, own, back, hwith, -, -, hown⟩ := returns_policed hp c hc
    refine ⟨c, hc, by rw [he]; rfl, hret, ?_⟩
    rw [hwith, (hown e he hblameless).2 hret, hgives]
    exact List.mem_append_left _ (List.mem_append_right _ List.mem_cons_self)

end CMinusMinus
