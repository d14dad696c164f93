/-
  File:      CMinusMinus/Proofs/Agreement.lean
  Subject:   Checking and lowering agree on every program that was read.

  The two passes build their scopes independently: the checker without addresses, lowering with
  them, a function's parameters before or after the function itself, a `for`'s step before or after
  its body, and lowering passes over variables of the error type. Even so, whatever the checker lets
  pass is lowered without a fault, and nobody has to be spared a complaint about argument types.

  * `State.Calm` -- nothing has gone wrong yet;
  * `OnlyTraces` -- nothing but traces is written down;
  * `decls_traces` -- this holds of lowering well-typed declarations;
  * `lowering_follows_checking` -- the agreement.
-/
import CMinusMinus.Proofs.Passage

namespace CMinusMinus

namespace Lower

/-! ## 1. Calm states -/

/-- Nothing has gone wrong: no fault, and no complaint about argument types. -/
structure State.Calm (s : State) : Prop where
  faultless : s.journal.Faultless
  unreported : s.unreported = []

/-- Across some code only traces are written down, and nobody complains about argument types. -/
def OnlyTraces (_ : Nat) (s s' : State) : Prop :=
  (∃ ts : List Trace, s'.journal = s.journal ++ ts.map .trace) ∧ s'.unreported = s.unreported

theorem onlyTraces_alloc (s : State) (a : Allocator) : OnlyTraces 0 s { s with alloc := a } :=
  ⟨⟨[], (List.append_nil _).symm⟩, rfl⟩

theorem onlyTraces_note (s : State) (t : Trace) : OnlyTraces 0 s (s.note (.trace t)) :=
  ⟨⟨[t], rfl⟩, rfl⟩

theorem onlyTraces_trans {m n : Nat} {s₁ s₂ s₃ : State} (h₁ : OnlyTraces m s₁ s₂)
    (h₂ : OnlyTraces n s₂ s₃) : OnlyTraces (m + n) s₁ s₃ := by
  obtain ⟨⟨ts, hts⟩, hunreported⟩ := h₁
  obtain ⟨⟨us, hus⟩, hunreported'⟩ := h₂
  refine ⟨⟨ts ++ us, ?_⟩, hunreported'.trans hunreported⟩
  rw [hus, hts, List.map_append, List.append_assoc]

theorem onlyTraces_placed (space : Space) (s : State) (t : Trace) :
    OnlyTraces 1 s (s.placed space t) := ⟨⟨[t], rfl⟩, rfl⟩

theorem passage_onlyTraces : Passage OnlyTraces where
  refl s := onlyTraces_alloc s s.alloc
  trans := onlyTraces_trans
  label s := onlyTraces_alloc s _
  temporary s := onlyTraces_alloc s _
  constant s _ := onlyTraces_alloc s _
  placed := onlyTraces_placed .local

/-- Traces leave calm states calm. -/
theorem State.Calm.traced {n : Nat} {s s' : State} (h : s.Calm) (hs : OnlyTraces n s s') :
    s'.Calm := by
  obtain ⟨⟨ts, hts⟩, hunreported⟩ := hs
  refine ⟨?_, hunreported.trans h.unreported⟩
  rw [hts, Journal.faultless_append]
  exact ⟨h.faultless, fun f hf => by simp at hf⟩

/-! ## 2. Declarations at the top -/

/-- The code of a well-typed function is lowered with traces only. -/
theorem function_traces {globals globals' formals : Frame} {head : FnHead} {params : List Decl}
    {tys : List Ty} {body : Block} (s : State) (hparams : Declares [] params formals)
    (hadd : (Frame.bare globals).add head.name (.function ⟨head.ret, tys, false⟩) = .ok globals')
    (hglobals' : Frame.Proper globals') (hformals : Frame.Proper formals)
    (hbody : body.WellTyped head.ret { globals := globals' } formals) (hproper : body.Proper) :
    Frame.bare (function globals head params tys body s).1 = globals' ∧
      ∃ n, OnlyTraces n s (function globals head params tys body s).2.after := by
  obtain ⟨declared, t, heq, hbare, -, hΓ, hframe, hwell⟩ :=
    function_eq s hparams hadd hglobals' hformals hbody
  let s₁ := s.entered t (codeLabel head.name tys)
  have hs₁ : OnlyTraces 0 s s₁ :=
    onlyTraces_trans (onlyTraces_trans (onlyTraces_alloc s _) (onlyTraces_note _ t))
      (onlyTraces_note _ _)
  obtain ⟨-, hplaced⟩ : Frame.bare (placeDecls .param [] params s₁).1 = formals ∧ _ :=
    placeDecls_along passage_onlyTraces.refl onlyTraces_trans (onlyTraces_placed .param)
      hparams rfl s₁
  rw [heq]
  exact ⟨hbare, _, onlyTraces_trans (onlyTraces_trans hs₁ hplaced)
    (block_along passage_onlyTraces _ hΓ _ hframe body hproper hwell _)⟩

/-- **A well-typed declaration is lowered with traces only**, and the globals after it are the
    checker's, apart from addresses. -/
theorem decl_traces {globals globals' : Frame} {d : Decl} (s : State) (hd : d.Proper)
    (hglobals : Frame.Proper (Frame.bare globals)) (h : d.WellTyped (Frame.bare globals) globals') :
    Frame.bare (decl globals d s).1 = globals' ∧
      ∃ n, OnlyTraces n s (decl globals d s).2.after := by
  have hglobals' := h.proper hd hglobals
  cases h with
  | var hadd =>
    obtain ⟨-, hbare, t, hplace⟩ := place_eq .global s hadd
    rw [decl, hplace]
    exact ⟨hbare, _, onlyTraces_placed .global s t⟩
  | prototype htys _ hadd =>
    obtain ⟨frame, t, hbare, hdeclare⟩ := declare_function_bare s hadd
    rw [decl, htys]
    dsimp only
    rw [hdeclare]
    exact ⟨hbare, _, onlyTraces_note s t⟩
  | function htys hparams hadd hbody =>
    rw [decl, htys]
    cases hd with
    | var hvar => cases hvar
    | function hhead hps hproper =>
      have hformals := hparams.proper (binding_of_params hps) Frame.proper_nil
      exact function_traces s hparams hadd hglobals' hformals hbody hproper

/-- A well-typed declaration is lowered calmly. -/
theorem decl_calm {globals globals' : Frame} {d : Decl} {s : State} (hd : d.Proper)
    (hglobals : Frame.Proper (Frame.bare globals)) (h : d.WellTyped (Frame.bare globals) globals')
    (hs : s.Calm) :
    Frame.bare (decl globals d s).1 = globals' ∧ (decl globals d s).2.after.Calm := by
  obtain ⟨hbare, n, htraces⟩ := decl_traces s hd hglobals h
  exact ⟨hbare, hs.traced htraces⟩

theorem decls_traces : ∀ {ds : List Decl} {globals globals' : Frame} (s : State),
    (∀ d ∈ ds, d.Proper) → Frame.Proper (Frame.bare globals) →
    Decl.AllWellTyped (Frame.bare globals) ds globals' →
      ∃ n, OnlyTraces n s (decls globals ds s).after
  | [], _, _, s, _, _, _ => ⟨0, passage_onlyTraces.refl s⟩
  | d :: ds, globals, globals', s, hproper, hglobals, h => by
      obtain ⟨hd, hds⟩ := List.forall_mem_cons.mp hproper
      rw [decls]
      cases h with
      | cons hfirst hrest =>
        obtain ⟨hbare, m, htraces⟩ := decl_traces s hd hglobals hfirst
        have hmiddle := hfirst.proper hd hglobals
        rw [← hbare] at hrest hmiddle
        obtain ⟨n, hothers⟩ := decls_traces _ hds hmiddle hrest
        exact ⟨m + n, onlyTraces_trans htraces hothers⟩

/-- **A well-typed program is lowered with traces only.** -/
theorem program_traces {p : Program} (s : State) (hp : p.Proper) (h : p.WellTyped) :
    ∃ n, OnlyTraces n s (program p s).after := by
  obtain ⟨globals, hdecls⟩ := h
  exact decls_traces s hp Frame.proper_nil hdecls

/-- A well-typed program is lowered without a fault. -/
theorem result_of_wellTyped {p : Program} {s : State} (hp : p.Proper) (h : p.WellTyped)
    (hs : s.Calm) : result p s = .ok ((program p s).code, (program p s).after) ∧
      (program p s).after.unreported = [] := by
  obtain ⟨n, htraces⟩ := program_traces s hp h
  have hcalm : (program p s).after.Calm := hs.traced htraces
  unfold result
  dsimp only
  rw [Journal.faultless_iff.mp hcalm.faultless]
  exact ⟨rfl, hcalm.unreported⟩

end Lower

/-! ## 3. The agreement -/

/-- **Checking and lowering agree.** On every program that was read from a source text the checker
    comes to an end. If it has found no semantic error, lowering comes to an end too, with code and
    without any complaint about argument types. -/
theorem lowering_follows_checking {source : List Char} {p : Program}
    (h : Program.ofSource? source = some p) :
    (Check.program p).fault? = none ∧
      (p.Accepted → ∃ code after, Lower.result p {} = .ok (code, after) ∧
        after.unreported = []) := by
  have hp := Program.proper_ofSource? h
  refine ⟨Journal.faultless_iff.mp (Check.program_faultless hp), fun haccepted => ?_⟩
  have hcalm : Lower.State.Calm {} := ⟨Journal.faultless_nil, rfl⟩
  obtain ⟨hresult, hunreported⟩ :=
    Lower.result_of_wellTyped hp (hp.wellTyped haccepted) hcalm
  exact ⟨_, _, hresult, hunreported⟩

/-- An overloaded function, a prototype, a loop and a shadowed parameter. -/
def overloads : String :=
  "int f(int x); int f() \x7b return f(2); \x7d " ++
  "int f(int x) \x7b int i; for (i = 0; i < x; i = i + 1) \x7b int x; x = i; printf(x); \x7d " ++
  "return -x; \x7d"

theorem lowering_follows_checking_overloads :
    ∃ p, Program.ofSource? overloads.toList = some p ∧ p.Accepted ∧
      ∃ code after, Lower.result p {} = .ok (code, after) ∧ after.unreported = [] := by
  obtain ⟨p, hp, haccepted⟩ := Program.exists_accepted overloads.toList (by decide +kernel)
  exact ⟨p, hp, haccepted, (lowering_follows_checking hp).2 haccepted⟩

end CMinusMinus
