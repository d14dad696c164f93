/-
  File:      CMinusMinus/Proofs/CallForms.lean
  Subject:   Whether calls and returns agree on leaving a value.

  A call takes the form that leaves a value unless the return type of the overload that it is
  resolved to is built on void, whatever the pointers. A return takes the form of its own
  statement. The two are chosen apart, at different places and from different declarations, so they
  may differ: a function that returns a pointer to void returns a value, and its calls leave none;
  a function of type void may return the result of another one; and a prototype may promise a value
  that the definition which completes it does not return.

  * `Program.FormsAgree` -- what the source has to say for the two forms to agree;
  * `callForms_agree_iff` -- it is what the code shows.
-/
import CMinusMinus.Proofs.Marks
import Mathlib.Data.List.Basic

namespace CMinusMinus

/-! ## 1. Forms in the source -/

/-- The functions that a program calls, as its calls are resolved. -/
def Program.calls (p : Program) : List Overload := p.sites.flatMap fun f => f.body.calls f.scope

/-- **Every function returns as the calls of its label expect**: with a value if the overload that a
    call is resolved to gives one, else without. -/
def Program.FormsAgree (p : Program) : Prop :=
  ∀ o ∈ p.calls, ∀ f ∈ p.sites, f.label = o.label → ∀ r ∈ f.body.returns, r = o.sig.gives

instance (p : Program) : Decidable p.FormsAgree :=
  inferInstanceAs (Decidable (∀ o ∈ p.calls, ∀ f ∈ p.sites, f.label = o.label →
    ∀ r ∈ f.body.returns, r = o.sig.gives))

mutual

/-- A well-typed statement returns a value, unless the return type is built on void. -/
theorem Stmt.WellTyped.returns {ret : Ty} (hret : ret.name ≠ "void") {Γ : Scope} : ∀ {st : Stmt},
    st.WellTyped ret Γ → ∀ r ∈ st.returns, r = true
  | _, .assign _ _ _ => by simp [Stmt.returns]
  | _, .ifThen _ hbody => hbody.returns hret
  | _, .ifElse _ hthen helse => by
      intro r hr
      rcases List.mem_append.mp hr with hr | hr
      · exact hthen.returns hret r hr
      · exact helse.returns hret r hr
  | _, .whileLoop _ hbody => hbody.returns hret
  | _, .forLoop hinit _ hstep hbody => by
      intro r hr
      rcases List.mem_append.mp hr with hr | hr
      · rcases List.mem_append.mp hr with hr | hr
        · exact hinit.returns hret r hr
        · exact hbody.returns hret r hr
      · exact hstep.returns hret r hr
  | _, .call _ => by simp [Stmt.returns]
  | _, .retNone hvoid => absurd hvoid hret
  | _, .retSome _ _ => by simp [Stmt.returns]

theorem Block.WellTyped.returns {ret : Ty} (hret : ret.name ≠ "void") {Γ : Scope} {frame : Frame} :
    ∀ {b : Block}, b.WellTyped ret Γ frame → ∀ r ∈ b.returns, r = true
  | _, .mk _ hstmts => hstmts.returns hret

theorem Stmt.AllWellTyped.returns {ret : Ty} (hret : ret.name ≠ "void") {Γ : Scope} :
    ∀ {sts : List Stmt}, Stmt.AllWellTyped ret Γ sts → ∀ r ∈ Stmt.returnsOf sts, r = true
  | _, .nil => fun _ h => absurd h List.not_mem_nil
  | _, .cons hst hsts => by
      intro r hr
      rcases List.mem_append.mp hr with hr | hr
      · exact hst.returns hret r hr
      · exact hsts.returns hret r hr

end

/-! ## 2. Forms in the code -/

/-- **Calls and returns agree in code**: in the segments with the label of a call every return has a
    value if the call leaves one, and none has if it does not. -/
def FormsMatch (code : List Instr) (gs : List Segment) : Prop :=
  ∀ c ∈ callsOf code, ∀ g ∈ gs, g.label = c.label → ∀ r ∈ returnsOf g.body, r = c.valued

theorem Segment.callsOf_code (g : Segment) : callsOf g.code = callsOf g.body := by
  simp [Segment.code, Segment.inside, callsOf, List.filterMap_cons, Instr.called?]

/-- The calls of a program's code are those of its segments. -/
theorem Program.Layout.callsOf_code {p : Program} {code : List Instr} {fs : List (FnSite × Segment)}
    (h : p.Layout code fs) : callsOf code = fs.flatMap fun f => callsOf f.2.body := by
  obtain ⟨globals, hcode⟩ := h.code_eq
  have hheader : callsOf (p.header globals) = [] := by
    simp [Program.header, callsOf, List.filterMap_map, Instr.called?, Function.comp_def]
  rw [hcode]
  unfold callsOf at hheader ⊢
  rw [List.filterMap_append, hheader, List.nil_append, List.filterMap_flatMap]
  exact congrArg (List.flatMap · fs) (funext fun f => Segment.callsOf_code f.2)

/-- The calls of a program's code are its own, given what the segment of each function shows. -/
theorem Program.Layout.callsOf_eq {p : Program} {code : List Instr} {fs : List (FnSite × Segment)}
    (h : p.Layout code fs)
    (hcalls : ∀ f ∈ fs, callsOf f.2.body = (f.1.body.calls f.1.scope).map Overload.called) :
    callsOf code = p.calls.map Overload.called := by
  rw [h.callsOf_code, Program.calls, ← h.sites, List.flatMap_map, List.map_flatMap]
  exact List.flatMap_congr hcalls

/-- Calls and returns agree in the code exactly if they do in the source, given what the segment of
    each function shows. -/
theorem Program.Layout.formsMatch_iff {p : Program} {code : List Instr}
    {fs : List (FnSite × Segment)} (hlayout : p.Layout code fs)
    (hcalls : ∀ f ∈ fs, callsOf f.2.body = (f.1.body.calls f.1.scope).map Overload.called)
    (hreturns : ∀ f ∈ fs, returnsOf f.2.body = f.1.body.returns) :
    FormsMatch code (fs.map Prod.snd) ↔ p.FormsAgree := by
  have hcode := hlayout.callsOf_eq hcalls
  constructor
  · intro h o ho f hf hlabel r hr
    rw [← hlayout.sites] at hf
    obtain ⟨g, hg, rfl⟩ := List.mem_map.mp hf
    refine h o.called ?_ g.2 (List.mem_map_of_mem hg) ?_ r ?_
    · rw [hcode]
      exact List.mem_map_of_mem ho
    · rw [hlayout.labels g hg]
      exact hlabel
    · rw [hreturns g hg]
      exact hr
  · intro h c hc g hg hlabel r hr
    rw [hcode] at hc
    obtain ⟨o, ho, rfl⟩ := List.mem_map.mp hc
    obtain ⟨f, hf, rfl⟩ := List.mem_map.mp hg
    rw [hlayout.labels f hf] at hlabel
    rw [hreturns f hf] at hr
    refine h o ho f.1 ?_ hlabel r hr
    rw [← hlayout.sites]
    exact List.mem_map_of_mem hf

/-- **Whether calls and returns of an accepted program agree on leaving a value** can be read off
    its source. A function whose return type is not built on void always returns one. -/
theorem callForms_agree_iff {source : List Char} {p : Program}
    (h : Program.ofSource? source = some p) (haccepted : p.Accepted) :
    ∃ code after fs, Lower.result p {} = .ok (code, after) ∧ p.Layout code fs ∧
      (FormsMatch code (fs.map Prod.snd) ↔ p.FormsAgree) ∧
      ∀ f ∈ p.sites, f.head.ret.name ≠ "void" → ∀ r ∈ f.body.returns, r = true := by
  obtain ⟨code, after, fs, hresult, hlayout, hfs⟩ :=
    Program.exists_layout (P := fun f g =>
      callsOf g.body = (f.body.calls f.scope).map Overload.called ∧
        returnsOf g.body = f.body.returns ∧
        (f.head.ret.name ≠ "void" → ∀ r ∈ f.body.returns, r = true))
      (fun c => ⟨c.callsOf_body, c.returnsOf_body, fun hret => c.typed.returns hret⟩) h haccepted
  refine ⟨code, after, fs, hresult, hlayout, ?_, ?_⟩
  · exact hlayout.formsMatch_iff (fun f hf => (hfs f hf).1) (fun f hf => (hfs f hf).2.1)
  · rw [← hlayout.sites, List.forall_mem_map]
    exact fun f hf => (hfs f hf).2.2

/-- A function that returns a pointer to void, and a call of it. -/
def voidPointer : String :=
  "void *f(void *p) \x7b return p; \x7d void g(void *p) \x7b f(p); \x7d"

/-- The call leaves no value, and the function returns one. -/
theorem callForms_agree_iff_voidPointer :
    ∃ p, Program.ofSource? voidPointer.toList = some p ∧ p.Accepted ∧ ¬ p.FormsAgree ∧
      ∃ code after fs, Lower.result p {} = .ok (code, after) ∧ p.Layout code fs ∧
        ¬ FormsMatch code (fs.map Prod.snd) := by
  obtain ⟨p, hp, hdecide⟩ := (Option.any_eq_true _ _).mp (show
    (Program.ofSource? voidPointer.toList).any
      (fun p => decide (p.Accepted ∧ ¬ p.FormsAgree)) = true by decide +kernel)
  obtain ⟨haccepted, hagree⟩ := of_decide_eq_true hdecide
  obtain ⟨code, after, fs, hresult, hlayout, hiff, -⟩ := callForms_agree_iff hp haccepted
  exact ⟨p, hp, haccepted, hagree, code, after, fs, hresult, hlayout, mt hiff.mp hagree⟩

end CMinusMinus
