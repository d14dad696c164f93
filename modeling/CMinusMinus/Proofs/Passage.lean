/-
  File:      CMinusMinus/Proofs/Passage.lean
  Subject:   What lowering does to the state that it carries along.

  The code of a well-typed tree only draws labels, temporaries and constants, and places the
  variables of its blocks. A PASSAGE is a relation between the states before and after some code
  that holds of each of these steps and of steps one after the other; it counts the variables that
  were placed. Whatever is a passage therefore holds across all code of a well-typed statement.

  * `Passage` -- the relations in question;
  * `modes_along`, `stmt_along`, `block_along` -- they hold across expressions, statements, blocks;
  * `placeDecls_along` -- the scope that lowering builds is the checker's, apart from addresses;
  * `function_eq` -- what the code of a well-typed function is.
-/
import CMinusMinus.Lower.Program
import CMinusMinus.Proofs.BareScopes
import CMinusMinus.Proofs.WellTyped

namespace CMinusMinus

/-! ## 1. Counting variables -/

mutual

/-- How many variables a statement declares, in all its blocks. -/
def Stmt.slots : Stmt → Nat
  | .ifThen _ _ body => body.slots
  | .ifElse _ _ thenBody elseBody => thenBody.slots + elseBody.slots
  | .whileLoop _ _ body => body.slots
  | .forLoop _ init _ step body => init.slots + body.slots + step.slots
  | .assign _ _ _ | .call _ _ | .ret _ _ | .misplaced _ | .missing _ _ => 0

/-- How many variables a block declares, with all blocks inside. -/
def Block.slots : Block → Nat
  | .mk _ decls stmts => decls.length + Stmt.slotsOf stmts

/-- How many variables statements declare. -/
def Stmt.slotsOf : List Stmt → Nat
  | [] => 0
  | st :: sts => st.slots + Stmt.slotsOf sts

end

theorem Stmt.IsClause.slots_eq {st : Stmt} (h : st.IsClause) : st.slots = 0 := by
  cases h <;> rfl

namespace Lower

/-! ## 2. Passages -/

/-- A variable has been placed in a space and told of. -/
def State.placed (s : State) (space : Space) (t : Trace) : State :=
  { s with alloc := s.alloc.bump space }.note (.trace t)

/-- **A relation that holds of each step of lowering**, counting the variables that are placed. -/
structure Passage (R : Nat → State → State → Prop) : Prop where
  refl : ∀ s, R 0 s s
  trans : ∀ {m n s₁ s₂ s₃}, R m s₁ s₂ → R n s₂ s₃ → R (m + n) s₁ s₃
  label : ∀ s, R 0 s s.afterLabel
  temporary : ∀ s, R 0 s s.afterTemporary
  constant : ∀ s text, R 0 s { s with alloc := (s.alloc.addConstant text).2 }
  placed : ∀ s t, R 1 s (s.placed .local t)

/-- Both modes of an expression go along a relation. -/
structure Modes.Along (R : Nat → State → State → Prop) (m : Modes) : Prop where
  value : ∀ s, R 0 s (m.value s).after
  branch : ∀ t s, R 0 s (m.branch t s).after

section Expressions

variable {R : Nat → State → State → Prop} (hR : Passage R)

include hR

theorem Passage.labels₂ (s : State) : R 0 s s.afterLabel.afterLabel :=
  hR.trans (hR.label s) (hR.label _)

namespace Modes

omit hR in
theorem along_ofValue {value : State → Emitted} (h : ∀ s, R 0 s (value s).after) :
    (ofValue value).Along R := ⟨h, fun _ s => h s⟩

theorem along_ofBranch {branch : Targets Target → State → Lowered}
    (h : ∀ t s, R 0 s (branch t s).after) : (ofBranch branch).Along R := by
  refine ⟨fun s => ?_, h⟩
  have hlabels := hR.trans (hR.temporary s) (hR.trans (hR.label _) (hR.labels₂ _))
  exact hR.trans hlabels (h _ _)

theorem along_ofOperand (operand : Operand) : (ofOperand operand).Along R :=
  along_ofValue hR.refl

variable {left right operand : Modes}

theorem along_compute (hl : left.Along R) (hr : right.Along R)
    (instr : Operand → Operand → Operand → Instr) : (compute left right instr).Along R := by
  refine along_ofValue fun s => ?_
  have hoperands := hR.trans (hl.value s) (hr.value _)
  exact hR.trans hoperands (hR.temporary _)

theorem along_negative (h : operand.Along R) : (negative operand).Along R :=
  along_ofValue fun s => hR.trans (h.value s) (hR.temporary _)

theorem along_compare (op : RelOp) (hl : left.Along R) (hr : right.Along R) :
    (compare op left right).Along R :=
  along_ofBranch hR fun _ s => hR.trans (hl.value s) (hr.value _)

theorem along_conjunction (hl : left.Along R) (hr : right.Along R) :
    (conjunction left right).Along R := by
  refine along_ofBranch hR fun t s => ?_
  have hleft := hR.trans (hR.label s) (hl.branch ⟨some s.label, t.onFalse, none⟩ _)
  exact hR.trans hleft (hr.branch _ _)

theorem along_disjunction (hl : left.Along R) (hr : right.Along R) :
    (disjunction left right).Along R := by
  refine along_ofBranch hR fun t s => ?_
  have hleft := hR.trans (hR.label s) (hl.branch ⟨t.onTrue, some s.label, none⟩ _)
  exact hR.trans hleft (hr.branch _ _)

theorem along_negation (h : operand.Along R) : (negation operand).Along R :=
  along_ofBranch hR fun _ _ => h.branch _ _

theorem sequence_along : ∀ {ms : List Modes}, (∀ m ∈ ms, Along R m) → ∀ s,
    R 0 s (sequence ms s).2.2
  | [], _, s => hR.refl s
  | m :: ms, h, s => by
      obtain ⟨hm, hms⟩ := List.forall_mem_cons.mp h
      exact hR.trans (hm.value s) (sequence_along hms _)

theorem handOver_along : ∀ {ms : List Modes} (place : Nat), (∀ m ∈ ms, Along R m) → ∀ s,
    R 0 s (handOver place ms s).after
  | [], _, _, s => hR.refl s
  | m :: ms, place, h, s => by
      obtain ⟨hm, hms⟩ := List.forall_mem_cons.mp h
      exact hR.trans (hm.value s) (handOver_along (place + 1) hms _)

/-- A call whose function is found and whose arguments nobody complains about. -/
theorem along_functionCall {Γ : Scope} {name : String} {tys : List Ty} {args : List Modes}
    {f : Signature} (hf : Γ.function? name tys = some f) (hargs : ∀ m ∈ args, Along R m) :
    (functionCall Γ name ⟨tys, []⟩ args).Along R := by
  refine along_ofValue fun s => ?_
  -- nothing is overheard
  have hs : s.overhear [] = s := by simp [State.overhear, Journal.silenced]
  have hgiven := handOver_along hR 0 hargs s
  simp only [hf, hs]
  split
  · exact hgiven
  · exact hR.trans hgiven (hR.temporary _)

end Modes

end Expressions

mutual

/-- **A passage holds across the code of every expression that has a type.** -/
theorem modes_along {R : Nat → State → State → Prop} (hR : Passage R) {Γ : Scope}
    (hΓ : Γ.Proper) : ∀ {e : Expr} {τ : Ty}, HasType Γ e τ →
    (modes Γ e).Along R
  | _, _, .int => Modes.along_ofOperand hR _
  | _, _, .str => Modes.along_ofValue fun s => hR.constant s _
  | _, _, .var hv => by
      rw [modes, Modes.ofVar, hΓ.soundVar?, hv]
      exact Modes.along_ofOperand hR _
  | _, _, .index ha hi _ =>
      Modes.along_compute hR (modes_along hR hΓ ha) (modes_along hR hΓ hi) _
  | _, _, .system hname hargs _ => by
      rw [modes, Modes.call, if_pos hname]
      exact Modes.along_ofValue fun s => Modes.sequence_along hR (modesOf_along hR hΓ hargs) s
  | _, _, .call hname hargs hf => by
      rw [modes, Modes.call, if_neg (Bool.eq_false_iff.mp hname), Check.typesOf_eq hΓ hargs]
      exact Modes.along_functionCall hR hf (modesOf_along hR hΓ hargs)
  | _, _, .neg he _ => Modes.along_negative hR (modes_along hR hΓ he)
  | _, _, .not he _ => Modes.along_negation hR (modes_along hR hΓ he)
  | _, _, .address he _ => Modes.along_ofValue (modes_along hR hΓ he).value
  | _, _, .deref he _ => Modes.along_ofValue (modes_along hR hΓ he).value
  | _, _, .arith hl hr _ _ =>
      Modes.along_compute hR (modes_along hR hΓ hl) (modes_along hR hΓ hr) _
  | _, _, .rel hl hr _ _ =>
      Modes.along_compare hR _ (modes_along hR hΓ hl) (modes_along hR hΓ hr)
  | _, _, .and hl hr _ _ =>
      Modes.along_conjunction hR (modes_along hR hΓ hl) (modes_along hR hΓ hr)
  | _, _, .or hl hr _ _ =>
      Modes.along_disjunction hR (modes_along hR hΓ hl) (modes_along hR hΓ hr)

theorem modesOf_along {R : Nat → State → State → Prop} (hR : Passage R) {Γ : Scope}
    (hΓ : Γ.Proper) : ∀ {es : List Expr} {τs : List Ty},
    HaveTypes Γ es τs → ∀ m ∈ modesOf Γ es, Modes.Along R m
  | _, _, .nil => fun _ h => absurd h List.not_mem_nil
  | _, _, .cons he hes => List.forall_mem_cons.mpr ⟨modes_along hR hΓ he, modesOf_along hR hΓ hes⟩

end

/-! ## 3. Declarations -/

theorem declare_alloc (frame : Frame) (name : String) (entry : Entry) (s : State) :
    (declare frame name entry s).2.alloc = s.alloc := by
  unfold declare
  split <;> rfl

theorem place_alloc (space : Space) (frame : Frame) (name : String) (ty : Ty) (s : State) :
    (place space frame name ty s).2.alloc = s.alloc.bump space := declare_alloc ..

/-- Declarations keep all of the allocator that does not depend on the count of their space. -/
theorem placeDecls_keeps {α : Type} {π : Allocator → α} {space : Space}
    (hπ : ∀ a : Allocator, π (a.bump space) = π a) : ∀ (ds : List Decl) (frame : Frame) (s : State),
    π (placeDecls space frame ds s).2.alloc = π s.alloc
  | [], _, _ => rfl
  | d :: ds, frame, s => by
      rw [placeDecls, placeDecls_keeps hπ ds]
      unfold placeDecl
      split
      · rw [place_alloc, hπ]
      · rw [place_alloc, hπ]
      · rfl

/-- A function that a frame takes in without addresses is taken in with them. -/
theorem declare_function_bare {frame middle : Frame} {name : String} {f : Signature} (s : State)
    (h : (Frame.bare frame).add name (.function f) = .ok middle) :
    ∃ frame' t, Frame.bare frame' = middle ∧
      declare frame name (.function f) s = (frame', s.note (.trace t)) := by
  rw [show Entry.function f = (Entry.function f).bare from rfl, Frame.bare_add] at h
  unfold declare
  cases hfull : frame.add name (.function f) with
  | error d => rw [hfull] at h; cases h
  | ok frame' =>
    rw [hfull] at h
    cases h
    exact ⟨frame', _, rfl, rfl⟩

theorem declare_function_var? (frame : Frame) (name : String) (f : Signature) (s : State)
    (x : String) : (declare frame name (.function f) s).1.var? x = frame.var? x := by
  unfold declare
  split
  · rename_i hadd
    exact Frame.var?_addFunction hadd x
  · rfl

/-- A variable that the frame takes in without addresses gets the next one of its space. -/
theorem place_eq (space : Space) {frame middle : Frame} {name : String} {ty : Ty} (s : State)
    (h : (Frame.bare frame).add name (.variable { ty := ty }) = .ok middle) :
    let v : Variable := ⟨ty, some (s.alloc.nextAddress space)⟩
    frame.binds name = false ∧ Frame.bare (frame ++ [(name, .variable v)]) = middle ∧
      ∃ t, place space frame name ty s = (frame ++ [(name, .variable v)], s.placed space t) := by
  intro v
  have hbinds : frame.binds name = false := by
    cases hb : frame.binds name with
    | false => rfl
    | true =>
      rw [Frame.add, Frame.addVariable, Frame.bare_binds, hb] at h
      cases h
  have hadd : frame.add name (.variable v) = .ok (frame ++ [(name, .variable v)]) := by
    rw [Frame.add, Frame.addVariable, hbinds]
    rfl
  refine ⟨hbinds, ?_, ?_⟩
  · have hbare := Frame.bare_add frame name (.variable v)
    rw [hadd] at hbare
    exact Except.ok.inj (hbare.symm.trans h)
  · unfold place declare
    dsimp only
    rw [hadd]
    exact ⟨_, rfl⟩

/-- **A frame that takes in declarations without addresses takes them in with addresses**, and the
    two frames are the same apart from these. -/
theorem placeDecls_along {R : Nat → State → State → Prop} {space : Space}
    (hrefl : ∀ s, R 0 s s) (htrans : ∀ {m n s₁ s₂ s₃}, R m s₁ s₂ → R n s₂ s₃ → R (m + n) s₁ s₃)
    (hplaced : ∀ s t, R 1 s (s.placed space t)) {bare bare' : Frame} {ds : List Decl}
    (h : Declares bare ds bare') : ∀ {frame : Frame}, Frame.bare frame = bare → ∀ s,
      Frame.bare (placeDecls space frame ds s).1 = bare' ∧
        R ds.length s (placeDecls space frame ds s).2 := by
  -- one variable, then the rest of them
  have hone : ∀ {middle frame after : Frame} {name : String} {ty : Ty} {ds : List Decl} (s : State),
      (Frame.bare frame).add name (.variable { ty := ty }) = .ok middle →
      (∀ {frame : Frame}, Frame.bare frame = middle → ∀ s,
        Frame.bare (placeDecls space frame ds s).1 = after ∧
          R ds.length s (placeDecls space frame ds s).2) →
      let placed := place space frame name ty s
      Frame.bare (placeDecls space placed.1 ds placed.2).1 = after ∧
        R (ds.length + 1) s (placeDecls space placed.1 ds placed.2).2 := by
    intro middle frame after name ty ds s hadd ih
    obtain ⟨-, hbare, t, hplace⟩ := place_eq space s hadd
    rw [hplace, Nat.add_comm]
    obtain ⟨hrest, hR⟩ := ih hbare (s.placed space t)
    exact ⟨hrest, htrans (hplaced s t) hR⟩
  induction h with
  | nil => exact fun hframe s => ⟨hframe, hrefl s⟩
  | var hadd _ ih =>
    intro frame hframe s
    exact hone s (hframe ▸ hadd) ih
  | param _ hadd _ ih =>
    intro frame hframe s
    exact hone s (hframe ▸ hadd) ih

/-- The frame that lowering builds is the checker's, apart from addresses. -/
theorem placeDecls_bare (space : Space) {frame bare' : Frame} {ds : List Decl}
    (h : Declares (Frame.bare frame) ds bare') (s : State) :
    Frame.bare (placeDecls space frame ds s).1 = bare' :=
  (placeDecls_along (R := fun _ _ _ => True) (fun _ => trivial) (fun _ _ => trivial)
    (fun _ _ => trivial) h rfl s).1

theorem placeDecls_proper (space : Space) {Γ : Scope} {frame bare' : Frame} {ds : List Decl}
    (hΓ : Γ.bare.Proper) (hframe : Frame.Proper (Frame.bare frame))
    (hds : ∀ d ∈ ds, d.IsBinding) (h : Declares (Frame.bare frame) ds bare') (s : State) :
    (Γ.push (placeDecls space frame ds s).1).bare.Proper := by
  rw [Scope.bare_push, placeDecls_bare space h s]
  exact hΓ.push (h.proper hds hframe)

/-! ## 4. Statements -/

section Statements

variable {R : Nat → State → State → Prop} (hR : Passage R) (label : String) {ret : Ty} {Γ : Scope}
  (hΓ : Γ.bare.Proper)

include hR hΓ

theorem value_along {e : Expr} {τ : Ty} (he : HasType Γ.bare e τ) (s : State) :
    R 0 s (value Γ e s).after :=
  (modes_along hR (Γ.proper_bare.mp hΓ) he.of_bare).value s

theorem branch_along {e : Expr} (he : IsTruth Γ.bare e) (t : Targets Target) (s : State) :
    R 0 s (branch Γ e t s).after := by
  obtain ⟨τ, hτ, -⟩ := he
  exact (modes_along hR (Γ.proper_bare.mp hΓ) hτ.of_bare).branch t s

theorem assignment_along {target exp : Expr} {α β : Ty} (htarget : HasType Γ.bare target α)
    (hexp : HasType Γ.bare exp β) (s : State) : R 0 s (assignment Γ target exp s).after := by
  unfold assignment
  split
  · cases htarget with
    | index harray hi _ =>
      have hparts := hR.trans (value_along hR hΓ harray s) (value_along hR hΓ hi _)
      exact hR.trans hparts (value_along hR hΓ hexp _)
  · exact hR.trans (value_along hR hΓ htarget s) (value_along hR hΓ hexp _)

theorem clause_along {st : Stmt} (hst : st.IsClause) (h : st.WellTyped ret Γ.bare) (next : Target)
    (s : State) : R 0 s (stmt label Γ st next s).after := by
  cases h with
  | assign htarget hvalue _ => exact assignment_along hR hΓ htarget hvalue s
  | call he =>
    cases hst with
    | call hcall _ =>
      rw [stmt, effect, if_pos hcall]
      exact value_along hR hΓ he s
  | _ => cases hst

end Statements

mutual

/-- **A passage holds across the code of every well-typed statement.** -/
theorem stmt_along {R : Nat → State → State → Prop} (hR : Passage R) (label : String) {ret : Ty}
    {Γ : Scope} (hΓ : Γ.bare.Proper) : ∀ st : Stmt, st.Proper → st.WellTyped ret Γ.bare →
    ∀ next s, R st.slots s (stmt label Γ st next s).after
  | .assign _ _ _, hst, h, next, s => clause_along hR label hΓ hst h next s
  | .ifThen _ cond body, hst, h, next, s => by
      cases h with
      | ifThen hcond hbody =>
        have hc := hR.trans (hR.label s) (branch_along hR hΓ hcond (targets s.label next) _)
        have hb := hR.trans hc (block_along hR label hΓ [] Frame.proper_nil body hst.2 hbody _)
        rw [Nat.zero_add] at hb
        exact hb
  | .ifElse _ cond thenBody elseBody, hst, h, next, s => by
      cases h with
      | ifElse hcond hthen helse =>
        have hc := hR.trans (hR.labels₂ s)
          (branch_along hR hΓ hcond (targets s.label (some s.afterLabel.label)) _)
        have ha := hR.trans hc (block_along hR label hΓ [] Frame.proper_nil thenBody hst.2.1 hthen _)
        have hb := hR.trans ha (block_along hR label hΓ [] Frame.proper_nil elseBody hst.2.2 helse _)
        rw [Nat.zero_add] at hb
        exact hb
  | .whileLoop _ cond body, hst, h, next, s => by
      cases h with
      | whileLoop hcond hbody =>
        have hc := hR.trans (hR.labels₂ s)
          (branch_along hR hΓ hcond (targets s.afterLabel.label next) _)
        have hb := hR.trans hc (block_along hR label hΓ [] Frame.proper_nil body hst.2 hbody _)
        rw [Nat.zero_add] at hb
        exact hb
  | .forLoop _ init cond step body, hst, h, next, s => by
      cases h with
      | forLoop hinit hcond hstep hbody =>
        have hi := hR.trans (hR.labels₂ s) (clause_along hR label hΓ hst.1 hinit none _)
        have hc := hR.trans hi (branch_along hR hΓ hcond (targets s.afterLabel.label next) _)
        have hb := hR.trans hc (block_along hR label hΓ [] Frame.proper_nil body hst.2.2.2 hbody _)
        have hn := hR.trans hb (clause_along hR label hΓ hst.2.2.1 hstep none _)
        rw [Stmt.slots, hst.1.slots_eq, hst.2.2.1.slots_eq]
        exact hn
  | .call _ _, hst, h, next, s => clause_along hR label hΓ hst h next s
  | .ret _ none, _, _, _, s => hR.refl s
  | .ret _ (some e), _, h, _, s => by
      cases h with
      | retSome he _ => exact value_along hR hΓ he s
  | .misplaced _, hst, _, _, _ => hst.elim
  | .missing _ _, hst, _, _, _ => hst.elim

theorem block_along {R : Nat → State → State → Prop} (hR : Passage R) (label : String) {ret : Ty}
    {Γ : Scope} (hΓ : Γ.bare.Proper) (frame : Frame) (hframe : Frame.Proper (Frame.bare frame)) :
    ∀ b : Block, b.Proper → b.WellTyped ret Γ.bare (Frame.bare frame) →
    ∀ s, R b.slots s (block label Γ frame b s).after
  | .mk _ ds sts, hb, h, s => by
      cases h with
      | mk hdecls hstmts =>
        obtain ⟨hbare, hplaced⟩ := placeDecls_along hR.refl hR.trans hR.placed hdecls rfl s
        have hframe' := hdecls.proper (binding_of_variables hb.1) hframe
        rw [← hbare, ← Scope.bare_push] at hstmts
        have hΓ' : (Γ.push (placeDecls .local frame ds s).1).bare.Proper := by
          rw [Scope.bare_push, hbare]
          exact hΓ.push hframe'
        exact hR.trans hplaced (stmts_along hR label hΓ' sts hb.2 hstmts _)

theorem stmts_along {R : Nat → State → State → Prop} (hR : Passage R) (label : String) {ret : Ty}
    {Γ : Scope} (hΓ : Γ.bare.Proper) : ∀ sts : List Stmt, Stmt.AllProper sts →
    Stmt.AllWellTyped ret Γ.bare sts → ∀ s, R (Stmt.slotsOf sts) s (stmts label Γ sts s).after
  | [], _, _, s => hR.refl s
  | st :: sts, hsts, h, s => by
      cases h with
      | cons hst hrest =>
        have hfirst := hR.trans (hR.label s) (stmt_along hR label hΓ st hsts.1 hst (some s.label) _)
        rw [Nat.zero_add] at hfirst
        exact hR.trans hfirst (stmts_along hR label hΓ sts hsts.2 hrest _)

end

/-! ## 5. Functions -/

/-- The state in which a function's parameters are placed. -/
def State.entered (s : State) (t : Trace) (label : String) : State :=
  ({ s with alloc := s.alloc.resetFunction }.note (.trace t)).note (.trace (.loweringFunction label))

/-- **What the code of a well-typed function is**: that of its body, in a scope that is the checker's
    apart from addresses. -/
theorem function_eq {globals globals' formals : Frame} {head : FnHead} {params : List Decl}
    {tys : List Ty} {body : Block} (s : State) (hparams : Declares [] params formals)
    (hadd : (Frame.bare globals).add head.name (.function ⟨head.ret, tys, false⟩) = .ok globals')
    (hglobals' : Frame.Proper globals') (hformals : Frame.Proper formals)
    (hbody : body.WellTyped head.ret { globals := globals' } formals) :
    ∃ declared t,
      let label := codeLabel head.name tys
      let placed := placeDecls .param [] params (s.entered t label)
      let Γ : Scope := { globals := declared }
      let b := block label Γ placed.1 body placed.2
      function globals head params tys body s = (declared,
        ⟨[.func label, .frame b.after.alloc.locals b.after.alloc.temporaries] ++ b.code ++
          [.endFunc label], b.after⟩) ∧
      Frame.bare declared = globals' ∧ (∀ x, declared.var? x = globals.var? x) ∧
      Γ.bare.Proper ∧ Frame.Proper (Frame.bare placed.1) ∧
      body.WellTyped head.ret Γ.bare (Frame.bare placed.1) := by
  obtain ⟨declared, t, hbare, hdeclare⟩ :=
    declare_function_bare { s with alloc := s.alloc.resetFunction } hadd
  have hvar := declare_function_var? globals head.name ⟨head.ret, tys, false⟩
    { s with alloc := s.alloc.resetFunction }
  rw [hdeclare] at hvar
  refine ⟨declared, t, ?_, hbare, hvar, ?_⟩
  · rw [function, hdeclare]
    rfl
  · have hscope : Scope.bare { globals := declared } = { globals := globals' } := by
      rw [← hbare]
      rfl
    obtain ⟨hplaced, -⟩ : Frame.bare (placeDecls .param [] params
        (s.entered t (codeLabel head.name tys))).1 = formals ∧ True :=
      placeDecls_along (R := fun _ _ _ => True) (fun _ => trivial) (fun _ _ => trivial)
        (fun _ _ => trivial) hparams rfl _
    rw [hscope, hplaced]
    exact ⟨Scope.proper_globals hglobals', hformals, hbody⟩

end Lower

end CMinusMinus
