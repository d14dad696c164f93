/-
  File:      CMinusMinus/Proofs/WellTyped.lean
  Subject:   The typing rules of declarations, statements and programs, and the checker's verdict.

  A declaration is well typed when its frame takes it in; a statement when its parts have the types
  that it asks for. The rules follow the syntax and say nothing of errors. On a proper program the
  checker meets no fault and writes down its findings only, and a program that it does not blame is
  well typed.

  * `Declares` -- the declarations of a block or a parameter list, and the frame after them;
  * `Stmt.WellTyped`, `Block.WellTyped`, `Decl.WellTyped`, `Program.WellTyped` -- the rules;
  * `Check.program_findings` -- the checker ends on every proper program with findings only;
  * `Program.Proper.wellTyped` -- a proper program that the checker does not blame is well typed.
-/
import CMinusMinus.Check.Program
import CMinusMinus.Proofs.Typing

namespace CMinusMinus

/-! ## 1. The rules -/

/-- The declarations of a block or a parameter list, and the frame after them. -/
inductive Declares : Frame → List Decl → Frame → Prop where
  | nil {frame : Frame} : Declares frame [] frame
  | var {frame middle frame' : Frame} {pos : Position} {name : String} {ty : Ty}
      {ds : List Decl} (hadd : frame.add name (.variable { ty := ty }) = .ok middle)
      (hds : Declares middle ds frame') : Declares frame (.variable pos name ty :: ds) frame'
  /-- A parameter is not of bare void type. -/
  | param {frame middle frame' : Frame} {pos : Position} {name : String} {ty : Ty}
      {ds : List Decl} (hvoid : ¬ (ty.name = "void" ∧ ty.pointers = 0))
      (hadd : frame.add name (.variable { ty := ty }) = .ok middle)
      (hds : Declares middle ds frame') : Declares frame (.parameter pos name ty :: ds) frame'

/-- An expression of base type bool. -/
def IsTruth (Γ : Scope) (e : Expr) : Prop := ∃ τ, HasType Γ e τ ∧ τ.name = "bool"

mutual

/-- **A statement is well typed** in a function with the return type. -/
inductive Stmt.WellTyped (ret : Ty) : Scope → Stmt → Prop where
  | assign {Γ : Scope} {pos : Position} {target value : Expr} {α β : Ty}
      (htarget : HasType Γ target α) (hvalue : HasType Γ value β)
      (hagree : α.agrees β = true) : Stmt.WellTyped ret Γ (.assign pos target value)
  | ifThen {Γ : Scope} {pos : Position} {cond : Expr} {body : Block} (hcond : IsTruth Γ cond)
      (hbody : Block.WellTyped ret Γ [] body) : Stmt.WellTyped ret Γ (.ifThen pos cond body)
  | ifElse {Γ : Scope} {pos : Position} {cond : Expr} {thenBody elseBody : Block}
      (hcond : IsTruth Γ cond) (hthen : Block.WellTyped ret Γ [] thenBody)
      (helse : Block.WellTyped ret Γ [] elseBody) :
      Stmt.WellTyped ret Γ (.ifElse pos cond thenBody elseBody)
  | whileLoop {Γ : Scope} {pos : Position} {cond : Expr} {body : Block} (hcond : IsTruth Γ cond)
      (hbody : Block.WellTyped ret Γ [] body) : Stmt.WellTyped ret Γ (.whileLoop pos cond body)
  | forLoop {Γ : Scope} {pos : Position} {init step : Stmt} {cond : Expr} {body : Block}
      (hinit : Stmt.WellTyped ret Γ init) (hcond : IsTruth Γ cond)
      (hstep : Stmt.WellTyped ret Γ step) (hbody : Block.WellTyped ret Γ [] body) :
      Stmt.WellTyped ret Γ (.forLoop pos init cond step body)
  | call {Γ : Scope} {pos : Position} {e : Expr} {τ : Ty} (he : HasType Γ e τ) :
      Stmt.WellTyped ret Γ (.call pos e)
  | retNone {Γ : Scope} {pos : Position} (hvoid : ret.name = "void") :
      Stmt.WellTyped ret Γ (.ret pos none)
  | retSome {Γ : Scope} {pos : Position} {e : Expr} {τ : Ty} (he : HasType Γ e τ)
      (hagree : τ.agrees ret = true) : Stmt.WellTyped ret Γ (.ret pos (some e))

/-- A block whose own frame already holds `frame` is well typed inside a scope. -/
inductive Block.WellTyped (ret : Ty) : Scope → Frame → Block → Prop where
  | mk {Γ : Scope} {frame frame' : Frame} {pos : Position} {decls : List Decl} {stmts : List Stmt}
      (hdecls : Declares frame decls frame') (hstmts : Stmt.AllWellTyped ret (Γ.push frame') stmts) :
      Block.WellTyped ret Γ frame (.mk pos decls stmts)

/-- Statements are well typed. -/
inductive Stmt.AllWellTyped (ret : Ty) : Scope → List Stmt → Prop where
  | nil {Γ : Scope} : Stmt.AllWellTyped ret Γ []
  | cons {Γ : Scope} {st : Stmt} {sts : List Stmt} (hst : Stmt.WellTyped ret Γ st)
      (hsts : Stmt.AllWellTyped ret Γ sts) : Stmt.AllWellTyped ret Γ (st :: sts)

end

/-- **A declaration at the top of a program is well typed**, and the globals after it. -/
inductive Decl.WellTyped : Frame → Decl → Frame → Prop where
  | var {globals globals' : Frame} {pos : Position} {name : String} {ty : Ty}
      (hadd : globals.add name (.variable { ty := ty }) = .ok globals') :
      Decl.WellTyped globals (.variable pos name ty) globals'
  | prototype {globals globals' formals : Frame} {head : FnHead} {params : List Decl}
      {tys : List Ty} (htys : paramTypes params = .ok tys) (hparams : Declares [] params formals)
      (hadd : globals.add head.name (.function ⟨head.ret, tys, true⟩) = .ok globals') :
      Decl.WellTyped globals (.prototype head params) globals'
  /-- The body sees the function itself, and shares its frame with the parameters. -/
  | function {globals globals' formals : Frame} {head : FnHead} {params : List Decl}
      {tys : List Ty} {body : Block} (htys : paramTypes params = .ok tys)
      (hparams : Declares [] params formals)
      (hadd : globals.add head.name (.function ⟨head.ret, tys, false⟩) = .ok globals')
      (hbody : Block.WellTyped head.ret { globals := globals' } formals body) :
      Decl.WellTyped globals (.function head params body) globals'

/-- Declarations one after the other are well typed, and the globals after them. -/
inductive Decl.AllWellTyped : Frame → List Decl → Frame → Prop where
  | nil {globals : Frame} : Decl.AllWellTyped globals [] globals
  | cons {globals middle globals' : Frame} {d : Decl} {ds : List Decl}
      (hd : Decl.WellTyped globals d middle) (hds : Decl.AllWellTyped middle ds globals') :
      Decl.AllWellTyped globals (d :: ds) globals'

/-- **A program is well typed.** -/
def Program.WellTyped (p : Program) : Prop := ∃ globals, Decl.AllWellTyped [] p.decls globals

/-- The checker finds no semantic error in the program. -/
def Program.Accepted (p : Program) : Prop :=
  Diagnostic.count (Check.program p).diagnostics .semanticError = 0

instance (p : Program) : Decidable p.Accepted := inferInstanceAs (Decidable (_ = 0))

/-- The program of a source text that can be read and is accepted. -/
theorem Program.exists_accepted (source : List Char)
    (h : (Program.ofSource? source).any (fun p => decide p.Accepted) = true) :
    ∃ p, Program.ofSource? source = some p ∧ p.Accepted := by
  cases hp : Program.ofSource? source with
  | none => rw [hp] at h; cases h
  | some p =>
    rw [hp] at h
    exact ⟨p, rfl, of_decide_eq_true h⟩

/-! ## 2. Proper frames stay proper -/

/-- **How a frame takes in a function**: as a new one behind all others, or in the place of the
    prototype that it completes. -/
theorem Frame.addFunction_cases {name : String} {f : Signature} : ∀ {frame frame' : Frame},
    Frame.addFunction name f frame = .ok frame' →
      (frame' = frame ++ [(name, .function f)] ∧
        ∀ g, (name, .function g) ∈ frame → Ty.allAgree g.params f.params = false) ∨
      ∃ front g back, frame = front ++ (name, .function g) :: back ∧
        frame' = front ++ (name, .function f) :: back ∧
        Ty.allAgree g.params f.params = true ∧ g.forward = true ∧ f.forward = false
  | [], _, h => by
      cases h
      exact Or.inl ⟨rfl, fun _ hg => absurd hg List.not_mem_nil⟩
  | (n, e) :: rest, frame', h => by
      -- past an entry that does not decide, the function is added to the rest
      have hpast : (∀ g, (name, Entry.function g) = (n, e) → Ty.allAgree g.params f.params = false) →
          (Frame.addFunction name f rest).map ((n, e) :: ·) = .ok frame' →
          (frame' = (n, e) :: rest ++ [(name, .function f)] ∧
            ∀ g, (name, .function g) ∈ (n, e) :: rest → Ty.allAgree g.params f.params = false) ∨
          ∃ front g back, (n, e) :: rest = front ++ (name, .function g) :: back ∧
            frame' = front ++ (name, .function f) :: back ∧
            Ty.allAgree g.params f.params = true ∧ g.forward = true ∧ f.forward = false := by
        intro hhead hmap
        cases hrest : Frame.addFunction name f rest with
        | error d => rw [hrest] at hmap; cases hmap
        | ok rest' =>
          rw [hrest] at hmap
          cases hmap
          rcases Frame.addFunction_cases hrest with ⟨hnew, hall⟩ | ⟨front, g, back, hold, hnew, hg⟩
          · rw [hnew]
            exact Or.inl ⟨rfl, fun g hg => (List.mem_cons.mp hg).elim (hhead g) (hall g)⟩
          · exact Or.inr ⟨(n, e) :: front, g, back, by rw [hold]; rfl, by rw [hnew]; rfl, hg⟩
      unfold Frame.addFunction at h
      split at h
      · rename_i hname
        split at h
        · cases h
        · rename_i g
          split at h
          · rename_i hagree
            split at h
            · rename_i hforward
              cases h
              rw [Bool.and_eq_true, Bool.not_eq_true'] at hforward
              rw [hname]
              exact Or.inr ⟨[], g, rest, rfl, rfl, hagree, hforward.1, hforward.2⟩
            · cases h
          · rename_i hagree
            refine hpast (fun k hk => ?_) h
            cases hk
            exact Bool.eq_false_iff.mpr hagree
      · rename_i hname
        refine hpast (fun k hk => ?_) h
        exact absurd (Prod.mk.inj hk).1.symm hname

/-- A function that is taken in hides no variable. -/
theorem Frame.var?_addFunction {frame frame' : Frame} {name : String} {f : Signature}
    (h : Frame.addFunction name f frame = .ok frame') (x : String) :
    frame'.var? x = frame.var? x := by
  rcases Frame.addFunction_cases h with ⟨hnew, -⟩ | ⟨front, g, back, hold, hnew, -⟩
  · rw [hnew]
    unfold Frame.var?
    rw [List.findSome?_append]
    exact Option.or_none
  · rw [hold, hnew]
    unfold Frame.var?
    rw [List.findSome?_append, List.findSome?_append]
    rfl

/-- A frame after a declaration holds nothing but what it held and the declaration. -/
theorem Frame.mem_of_add {frame frame' : Frame} {name : String} {entry : Entry}
    (h : frame.add name entry = .ok frame') : ∀ b ∈ frame', b ∈ frame ∨ b = (name, entry) := by
  rcases entry with v | f
  · unfold Frame.add Frame.addVariable at h
    dsimp only at h
    split at h
    · cases h
    · cases h
      intro b hb
      exact (List.mem_append.mp hb).imp id List.mem_singleton.mp
  · intro b hb
    rcases Frame.addFunction_cases h with ⟨hnew, -⟩ | ⟨front, g, back, hold, hnew, -⟩
    · rw [hnew] at hb
      exact (List.mem_append.mp hb).imp id List.mem_singleton.mp
    · rw [hnew] at hb
      rw [hold]
      rcases List.mem_append.mp hb with hb | hb
      · exact Or.inl (List.mem_append_left _ hb)
      · rcases List.mem_cons.mp hb with hb | hb
        · exact Or.inr hb
        · exact Or.inl (List.mem_append_right _ (List.mem_cons_of_mem _ hb))

theorem Frame.proper_add {frame frame' : Frame} {name : String} {entry : Entry}
    (h : frame.add name entry = .ok frame') (hframe : Frame.Proper frame) (hentry : entry.Proper) :
    Frame.Proper frame' := by
  intro b hb
  rcases Frame.mem_of_add h b hb with hold | hnew
  · exact hframe b hold
  · rw [hnew]
    exact hentry

theorem Frame.proper_nil : Frame.Proper [] := fun _ h => absurd h List.not_mem_nil

/-- The declaration is a variable or a parameter with a type of the language. -/
def Decl.IsBinding (d : Decl) : Prop := d.IsVariable ∨ d.IsParameter

theorem binding_of_params {ds : List Decl} (h : ∀ d ∈ ds, d.IsParameter) :
    ∀ d ∈ ds, d.IsBinding := fun d hd => Or.inr (h d hd)

theorem binding_of_variables {ds : List Decl} (h : ∀ d ∈ ds, d.IsVariable) :
    ∀ d ∈ ds, d.IsBinding := fun d hd => Or.inl (h d hd)

/-- The name that a declaration gives a place to: that of a variable or a parameter. -/
def Decl.placed? : Decl → Option String
  | .variable _ name _ | .parameter _ name _ => some name
  | _ => none

/-- The names that declarations give places to, in order. -/
def placedIn (ds : List Decl) : List String := ds.filterMap Decl.placed?

theorem Decl.IsBinding.placed? {d : Decl} (h : d.IsBinding) : ∃ x, d.placed? = some x := by
  rcases h with h | h
  · cases h with
    | mk _ _ => exact ⟨_, rfl⟩
  · cases h with
    | mk _ => exact ⟨_, rfl⟩

theorem Declares.proper {frame frame' : Frame} {ds : List Decl} (h : Declares frame ds frame') :
    (∀ d ∈ ds, d.IsBinding) → Frame.Proper frame → Frame.Proper frame' := by
  induction h with
  | nil => exact fun _ hframe => hframe
  | var hadd _ ih =>
    intro hds hframe
    obtain ⟨hd, hds⟩ := List.forall_mem_cons.mp hds
    rcases hd with ⟨_, hty⟩ | hd
    · exact ih hds (Frame.proper_add hadd hframe hty)
    · cases hd
  | param _ hadd _ ih =>
    intro hds hframe
    obtain ⟨hd, hds⟩ := List.forall_mem_cons.mp hds
    rcases hd with hd | ⟨_, hty⟩
    · cases hd
    · exact ih hds (Frame.proper_add hadd hframe hty)

theorem Scope.proper_globals {globals : Frame} (h : Frame.Proper globals) :
    Scope.Proper { globals := globals } := by
  intro frame hframe
  rw [List.mem_singleton.mp hframe]
  exact h

theorem Scope.Proper.push {Γ : Scope} (hΓ : Γ.Proper) {frame : Frame} (hframe : Frame.Proper frame) :
    (Γ.push frame).Proper := by
  intro f hf
  rcases List.mem_cons.mp hf with hhead | htail
  · rw [hhead]
    exact hframe
  · exact hΓ f htail

/-- The types of proper parameters are taken without a fault. -/
theorem paramTypes_ok : ∀ {params : List Decl}, (∀ d ∈ params, d.IsParameter) →
    ∃ tys, paramTypes params = .ok tys ∧ ∀ ty ∈ tys, ty.Proper
  | [], _ => ⟨[], rfl, fun _ h => absurd h List.not_mem_nil⟩
  | d :: ds, h => by
      obtain ⟨hd, hds⟩ := List.forall_mem_cons.mp h
      obtain ⟨tys, htys, hproper⟩ := paramTypes_ok hds
      obtain ⟨-, hty⟩ := hd
      rename_i ty
      refine ⟨ty :: tys, ?_, List.forall_mem_cons.mpr ⟨hty, hproper⟩⟩
      simp only [paramTypes, Decl.ty?, htys]
      rfl

/-- Proper globals stay proper across a declaration at the top. -/
theorem Decl.WellTyped.proper {globals globals' : Frame} {d : Decl}
    (h : Decl.WellTyped globals d globals') (hd : d.Proper) (hglobals : Frame.Proper globals) :
    Frame.Proper globals' := by
  -- the signature of a function whose parameters have the types
  have hfunction : ∀ {head : FnHead} {params : List Decl} {tys : List Ty} {forward : Bool},
      head.Proper → (∀ d ∈ params, d.IsParameter) → paramTypes params = .ok tys →
        Entry.Proper (.function ⟨head.ret, tys, forward⟩) := by
    intro head params tys forward hhead hparams htys
    obtain ⟨tys', htys', hproper⟩ := paramTypes_ok hparams
    rw [htys] at htys'
    cases htys'
    exact ⟨hhead.ret, hproper⟩
  cases h with
  | var hadd =>
    cases hd with
    | var hvar =>
      obtain ⟨-, hty⟩ := hvar
      exact Frame.proper_add hadd hglobals hty
  | prototype htys _ hadd =>
    cases hd with
    | var hvar => cases hvar
    | prototype hhead hparams =>
      exact Frame.proper_add hadd hglobals (hfunction hhead hparams htys)
  | function htys _ hadd _ =>
    cases hd with
    | var hvar => cases hvar
    | function hhead hparams _ =>
      exact Frame.proper_add hadd hglobals (hfunction hhead hparams htys)

/-! ## 3. The innermost frame -/

namespace Scope

variable (Γ : Scope) (frame frame' : Frame)

@[simp] theorem top_push : (Γ.push frame).top = frame := rfl

@[simp] theorem withTop_push : (Γ.push frame).withTop frame' = Γ.push frame' := rfl

@[simp] theorem top_withTop : (Γ.withTop frame).top = frame := by
  obtain ⟨inner, globals⟩ := Γ
  cases inner <;> rfl

@[simp] theorem withTop_withTop : (Γ.withTop frame).withTop frame' = Γ.withTop frame' := by
  obtain ⟨inner, globals⟩ := Γ
  cases inner <;> rfl

@[simp] theorem withTop_top : Γ.withTop Γ.top = Γ := by
  obtain ⟨inner, globals⟩ := Γ
  cases inner <;> rfl

end Scope

theorem Frame.addFunction_error {name : String} {f : Signature} : ∀ {frame : Frame} {d : Defect},
    Frame.addFunction name f frame = .error d → d = .functionRedeclared name
  | [], _, h => by cases h
  | (n, e) :: rest, d, h => by
      have hpast : (Frame.addFunction name f rest).map ((n, e) :: ·) = .error d →
          d = .functionRedeclared name := by
        intro hmap
        cases hrest : Frame.addFunction name f rest with
        | error d' =>
          rw [hrest] at hmap
          cases hmap
          exact Frame.addFunction_error hrest
        | ok rest' => rw [hrest] at hmap; cases hmap
      unfold Frame.addFunction at h
      split at h
      · split at h
        · cases h
          rfl
        · split at h
          · split at h <;> cases h
            rfl
          · exact hpast h
      · exact hpast h

/-- A frame refuses a declaration only because of its name. -/
theorem Frame.add_error {frame : Frame} {name : String} {entry : Entry} {d : Defect}
    (h : frame.add name entry = .error d) :
    d = .variableRedeclared name ∨ d = .functionRedeclared name := by
  rcases entry with v | f
  · unfold Frame.add Frame.addVariable at h
    dsimp only at h
    split at h <;> cases h
    exact Or.inl rfl
  · exact Or.inr (Frame.addFunction_error h)

/-- What a frame refuses is an error. -/
theorem Frame.severity_of_add_error {frame : Frame} {name : String} {entry : Entry} {d : Defect}
    (h : frame.add name entry = .error d) : d.kind.severity = .semanticError := by
  rcases Frame.add_error h with rfl | rfl <;> rfl

theorem Frame.named_of_add_error {frame : Frame} {name : String} {entry : Entry} {d : Defect}
    (hname : IsName name) (h : frame.add name entry = .error d) : d.Named := by
  rcases Frame.add_error h with rfl | rfl <;> exact hname

/-! ## 4. The checker on declarations -/

namespace Check

open Journal

section Declare

variable {Γ : Scope} {pos : Position} {name : String} {entry : Entry} {ty : Ty}

theorem declare_findings (hname : IsName name) : (declare Γ pos name entry).2.Findings := by
  unfold declare
  split
  · exact findings_trace _
  · rename_i d hadd
    exact findings_report (Frame.named_of_add_error hname hadd)

/-- A declaration that is not blamed goes into the innermost frame. -/
theorem declare_added (h : (declare Γ pos name entry).2.Blameless) :
    ∃ frame, Γ.top.add name entry = .ok frame ∧ (declare Γ pos name entry).1 = Γ.withTop frame := by
  unfold declare at h ⊢
  split at h
  · rename_i frame hadd
    exact ⟨frame, hadd, rfl⟩
  · rename_i d hadd
    exact absurd h (not_blameless_report (Frame.severity_of_add_error hadd))

theorem variableDecl_findings (hname : IsName name) : (variableDecl Γ pos name ty).2.Findings := by
  unfold variableDecl
  refine findings_append.mpr ⟨?_, declare_findings hname⟩
  split
  · exact findings_report hname
  · exact findings_nil

theorem parameterDecl_findings (hname : IsName name) :
    (parameterDecl Γ pos name ty).2.Findings :=
  findings_append.mpr ⟨findings_complainIf hname, declare_findings hname⟩

theorem functionDecl_findings {head : FnHead} {params : List Decl} {forward : Bool}
    (hhead : head.Proper) (hparams : ∀ d ∈ params, d.IsParameter) :
    (functionDecl Γ head params forward).2.Findings := by
  obtain ⟨tys, htys, -⟩ := paramTypes_ok hparams
  unfold functionDecl
  rw [htys]
  exact declare_findings hhead.name

end Declare

/-- The checker ends on the declarations of a block or a parameter list. -/
theorem decls_binding_findings : ∀ {ds : List Decl} (Γ : Scope), (∀ d ∈ ds, d.IsBinding) →
    (decls Γ ds).2.Findings
  | [], _, _ => findings_nil
  | d :: ds, Γ, h => by
      obtain ⟨hd, hds⟩ := List.forall_mem_cons.mp h
      rw [decls]
      refine findings_append.mpr ⟨?_, decls_binding_findings _ hds⟩
      rcases hd with ⟨hname, -⟩ | ⟨hname, -⟩
      · rw [decl]
        exact variableDecl_findings hname
      · rw [decl]
        exact parameterDecl_findings hname

/-- **Declarations that are not blamed are taken in by the innermost frame.** -/
theorem decls_declares : ∀ {ds : List Decl} {Γ : Scope}, (∀ d ∈ ds, d.IsBinding) →
    (decls Γ ds).2.Blameless →
      ∃ frame, Declares Γ.top ds frame ∧ (decls Γ ds).1 = Γ.withTop frame
  | [], Γ, _, _ => ⟨Γ.top, .nil, by rw [decls, Scope.withTop_top]⟩
  | d :: ds, Γ, h, hblame => by
      obtain ⟨hd, hds⟩ := List.forall_mem_cons.mp h
      rw [decls] at hblame ⊢
      obtain ⟨hfirst, hothers⟩ := blameless_append.mp hblame
      obtain ⟨frame', hrest, hscope⟩ := decls_declares hds hothers
      rcases hd with ⟨-, -⟩ | ⟨-, -⟩
      · rw [decl] at hfirst hrest hscope ⊢
        obtain ⟨middle, hadd, hmiddle⟩ := declare_added (blameless_append.mp hfirst).2
        unfold variableDecl at hrest hscope ⊢
        dsimp only at hrest hscope ⊢
        rw [hmiddle] at hrest hscope ⊢
        rw [Scope.top_withTop] at hrest
        exact ⟨frame', .var hadd hrest, hscope.trans (Scope.withTop_withTop _ _ _)⟩
      · rw [decl] at hfirst hrest hscope ⊢
        obtain ⟨hvoid, hdeclared⟩ := blameless_append.mp hfirst
        obtain ⟨middle, hadd, hmiddle⟩ := declare_added hdeclared
        unfold parameterDecl at hrest hscope ⊢
        dsimp only at hrest hscope ⊢
        rw [hmiddle] at hrest hscope ⊢
        rw [Scope.top_withTop] at hrest
        refine ⟨frame', .param ?_ hadd hrest, hscope.trans (Scope.withTop_withTop _ _ _)⟩
        rw [blameless_complainIf rfl] at hvoid
        simpa using hvoid

/-! ## 5. The checker on statements -/

theorem condition_findings {Γ : Scope} {e : Expr} (he : e.Proper) :
    (condition Γ e).Findings :=
  findings_append.mpr ⟨typeOf_findings Γ e he, findings_complainIf trivial⟩

theorem assignment_findings {Γ : Scope} {target value : Expr} (ht : target.Proper)
    (hv : value.Proper) : (assignment Γ target value).Findings :=
  findings_append.mpr ⟨findings_append.mpr
    ⟨typeOf_findings Γ target ht, typeOf_findings Γ value hv⟩, findings_complainIf trivial⟩

/-- A clause of a `for` is an assignment or a call. -/
theorem clause_findings {ret : Ty} {Γ : Scope} {st : Stmt} (h : st.IsClause) :
    (stmt ret Γ st).Findings := by
  cases h with
  | assign _ ht hv => exact assignment_findings ht hv
  | call _ he => exact typeOf_findings Γ _ he

mutual

theorem stmt_findings (ret : Ty) (Γ : Scope) : ∀ st : Stmt, st.Proper →
    (stmt ret Γ st).Findings
  | .assign _ _ _, h => clause_findings h
  | .ifThen _ _ body, h =>
      findings_append.mpr ⟨condition_findings h.1, block_findings ret _ body h.2⟩
  | .ifElse _ _ thenBody elseBody, h =>
      findings_append.mpr ⟨findings_append.mpr ⟨condition_findings h.1,
        block_findings ret _ thenBody h.2.1⟩, block_findings ret _ elseBody h.2.2⟩
  | .whileLoop _ _ body, h =>
      findings_append.mpr ⟨condition_findings h.1, block_findings ret _ body h.2⟩
  | .forLoop _ _ _ _ body, h =>
      findings_append.mpr ⟨findings_append.mpr ⟨findings_append.mpr
        ⟨clause_findings h.1, condition_findings h.2.1⟩, clause_findings h.2.2.1⟩,
        block_findings ret _ body h.2.2.2⟩
  | .call _ _, h => clause_findings h
  | .ret _ none, _ => findings_complainIf trivial
  | .ret _ (some e), h =>
      findings_append.mpr ⟨typeOf_findings Γ e (h e rfl), findings_complainIf trivial⟩
  | .misplaced _, h => h.elim
  | .missing _ _, h => h.elim

theorem block_findings (ret : Ty) (Γ : Scope) : ∀ b : Block, b.Proper →
    (block ret Γ b).Findings
  | .mk _ _ ss, h =>
      findings_append.mpr ⟨decls_binding_findings Γ (binding_of_variables h.1),
        stmts_findings ret _ ss h.2⟩

theorem stmts_findings (ret : Ty) (Γ : Scope) : ∀ ss : List Stmt, Stmt.AllProper ss →
    (stmts ret Γ ss).Findings
  | [], _ => findings_nil
  | st :: sts, h => findings_append.mpr ⟨stmt_findings ret Γ st h.1, stmts_findings ret Γ sts h.2⟩

end

section Statements

variable {ret : Ty} {Γ : Scope} (hΓ : Γ.Proper)

include hΓ

/-- A condition that is not blamed has base type bool. -/
theorem condition_isTruth {e : Expr} (he : e.Proper) (h : (condition Γ e).Blameless) :
    IsTruth Γ e := by
  unfold condition at h
  rw [blameless_append, blameless_complainIf rfl] at h
  have hfound := typeOf_approves hΓ e he h.1
  exact ⟨_, hfound.typed, (offends_eq_false (hfound.typed.proper hΓ)).mp h.2⟩

/-- A clause of a `for` that is not blamed is well typed. -/
theorem clause_wellTyped {st : Stmt} (hst : st.IsClause) (h : (stmt ret Γ st).Blameless) :
    st.WellTyped ret Γ := by
  cases hst with
  | assign _ ht hv =>
    rw [stmt, assignment, blameless_append, blameless_append, blameless_complainIf rfl] at h
    have hleft := typeOf_approves hΓ _ ht h.1.1
    have hright := typeOf_approves hΓ _ hv h.1.2
    refine .assign hleft.typed hright.typed ?_
    simpa [(hleft.typed.proper hΓ).isError_eq, (hright.typed.proper hΓ).isError_eq] using h.2
  | call _ he =>
    rw [stmt] at h
    exact .call (typeOf_approves hΓ _ he h).typed

theorem returned_wellTyped {pos : Position} {value : Option Expr}
    (hvalue : ∀ e, value = some e → e.Proper) (h : (returned ret Γ pos value).Blameless) :
    Stmt.WellTyped ret Γ (.ret pos value) := by
  cases value with
  | none =>
    rw [returned, blameless_complainIf rfl] at h
    exact .retNone (by simpa using h)
  | some e =>
    rw [returned, blameless_append, blameless_complainIf rfl] at h
    have hfound := typeOf_approves hΓ e (hvalue e rfl) h.1
    exact .retSome hfound.typed (by simpa [(hfound.typed.proper hΓ).isError_eq] using h.2)

end Statements

mutual

/-- **A statement that the checker does not blame is well typed.** -/
theorem stmt_wellTyped {ret : Ty} {Γ : Scope} (hΓ : Γ.Proper) : ∀ st : Stmt, st.Proper →
    (stmt ret Γ st).Blameless → st.WellTyped ret Γ
  | .assign _ _ _, hst, h => clause_wellTyped hΓ hst h
  | .ifThen _ cond body, hst, h => by
      rw [stmt, blameless_append] at h
      exact .ifThen (condition_isTruth hΓ hst.1 h.1)
        (block_wellTyped hΓ Frame.proper_nil body hst.2 h.2)
  | .ifElse _ cond thenBody elseBody, hst, h => by
      rw [stmt, blameless_append, blameless_append] at h
      exact .ifElse (condition_isTruth hΓ hst.1 h.1.1)
        (block_wellTyped hΓ Frame.proper_nil thenBody hst.2.1 h.1.2)
        (block_wellTyped hΓ Frame.proper_nil elseBody hst.2.2 h.2)
  | .whileLoop _ cond body, hst, h => by
      rw [stmt, blameless_append] at h
      exact .whileLoop (condition_isTruth hΓ hst.1 h.1)
        (block_wellTyped hΓ Frame.proper_nil body hst.2 h.2)
  | .forLoop _ init cond step body, hst, h => by
      rw [stmt, blameless_append, blameless_append, blameless_append] at h
      exact .forLoop (clause_wellTyped hΓ hst.1 h.1.1.1)
        (condition_isTruth hΓ hst.2.1 h.1.1.2) (clause_wellTyped hΓ hst.2.2.1 h.1.2)
        (block_wellTyped hΓ Frame.proper_nil body hst.2.2.2 h.2)
  | .call _ _, hst, h => clause_wellTyped hΓ hst h
  | .ret _ _, hst, h => returned_wellTyped hΓ hst h
  | .misplaced _, hst, _ => hst.elim
  | .missing _ _, hst, _ => hst.elim

theorem block_wellTyped {ret : Ty} {Γ : Scope} (hΓ : Γ.Proper) {frame : Frame}
    (hframe : Frame.Proper frame) : ∀ b : Block, b.Proper →
    (block ret (Γ.push frame) b).Blameless → b.WellTyped ret Γ frame
  | .mk _ ds ss, hb, h => by
      have hds := binding_of_variables hb.1
      rw [block, blameless_append] at h
      obtain ⟨frame', hdeclares, hscope⟩ := decls_declares hds h.1
      rw [hscope] at h
      exact .mk hdeclares
        (stmts_wellTyped (hΓ.push (hdeclares.proper hds hframe)) ss hb.2 h.2)

theorem stmts_wellTyped {ret : Ty} {Γ : Scope} (hΓ : Γ.Proper) : ∀ ss : List Stmt,
    Stmt.AllProper ss → (stmts ret Γ ss).Blameless → Stmt.AllWellTyped ret Γ ss
  | [], _, _ => .nil
  | st :: sts, hss, h => by
      rw [stmts, blameless_append] at h
      exact .cons (stmt_wellTyped hΓ st hss.1 h.1) (stmts_wellTyped hΓ sts hss.2 h.2)

end

/-! ## 6. The checker on programs -/

theorem decl_findings {Γ : Scope} {d : Decl} (hd : d.Proper) : (decl Γ d).2.Findings := by
  cases hd with
  | var h =>
    obtain ⟨hname, -⟩ := h
    rw [decl]
    exact variableDecl_findings hname
  | prototype hhead hparams =>
    rw [decl]
    exact findings_append.mpr ⟨decls_binding_findings _ (binding_of_params hparams),
      functionDecl_findings hhead hparams⟩
  | function hhead hparams hbody =>
    rw [decl]
    exact findings_append.mpr ⟨findings_append.mpr
      ⟨decls_binding_findings _ (binding_of_params hparams),
        functionDecl_findings hhead hparams⟩, block_findings _ _ _ hbody⟩

theorem decls_findings : ∀ {ds : List Decl} (Γ : Scope), (∀ d ∈ ds, d.Proper) →
    (decls Γ ds).2.Findings
  | [], _, _ => findings_nil
  | d :: ds, Γ, h => by
      obtain ⟨hd, hds⟩ := List.forall_mem_cons.mp h
      rw [decls]
      exact findings_append.mpr ⟨decl_findings hd, decls_findings _ hds⟩

/-- **All that the checker writes down about a proper program are findings.** -/
theorem program_findings {p : Program} (hp : p.Proper) : (program p).Findings :=
  findings_append.mpr ⟨decls_findings _ hp, findings_trace _⟩

/-- **The checker ends on every proper program.** -/
theorem program_faultless {p : Program} (hp : p.Proper) : (program p).Faultless :=
  (program_findings hp).faultless

/-- A function that is not blamed is taken in by the globals. -/
theorem functionDecl_added {globals : Frame} {head : FnHead} {params : List Decl} {tys : List Ty}
    {forward : Bool} (htys : paramTypes params = .ok tys)
    (h : (functionDecl { globals := globals } head params forward).2.Blameless) :
    ∃ globals', globals.add head.name (.function ⟨head.ret, tys, forward⟩) = .ok globals' ∧
      (functionDecl { globals := globals } head params forward).1 = { globals := globals' } := by
  unfold functionDecl at h ⊢
  rw [htys] at h ⊢
  exact declare_added h

/-- A declaration at the top that is not blamed is well typed. -/
theorem decl_wellTyped {globals : Frame} {d : Decl} (hglobals : Frame.Proper globals)
    (hd : d.Proper) (h : (decl { globals := globals } d).2.Blameless) :
    ∃ globals', Decl.WellTyped globals d globals' ∧
      (decl { globals := globals } d).1 = { globals := globals' } := by
  cases hd with
  | var hvar =>
    obtain ⟨-, -⟩ := hvar
    rw [decl, variableDecl] at h ⊢
    obtain ⟨globals', hadd, hscope⟩ := declare_added (blameless_append.mp h).2
    exact ⟨globals', .var hadd, hscope⟩
  | prototype _ hparams =>
    obtain ⟨tys, htys, -⟩ := paramTypes_ok hparams
    rw [decl] at h ⊢
    obtain ⟨hformals, hdeclared⟩ := blameless_append.mp h
    obtain ⟨formals, hdeclares, -⟩ := decls_declares (binding_of_params hparams) hformals
    obtain ⟨globals', hadd, hscope⟩ := functionDecl_added htys hdeclared
    exact ⟨globals', .prototype htys hdeclares hadd, hscope⟩
  | function hhead hparams hbody =>
    obtain ⟨tys, htys, hproper⟩ := paramTypes_ok hparams
    have hbinding := binding_of_params hparams
    rw [decl] at h ⊢
    obtain ⟨hheader, hbodyBlame⟩ := blameless_append.mp h
    obtain ⟨hformals, hdeclared⟩ := blameless_append.mp hheader
    obtain ⟨formals, hdeclares, hformalsScope⟩ := decls_declares hbinding hformals
    obtain ⟨globals', hadd, hscope⟩ := functionDecl_added htys hdeclared
    have hglobals' : Frame.Proper globals' :=
      Frame.proper_add hadd hglobals ⟨hhead.ret, hproper⟩
    have hΓ := Scope.proper_globals hglobals'
    rw [hscope, hformalsScope, Scope.top_withTop] at hbodyBlame
    exact ⟨globals', .function htys hdeclares hadd (block_wellTyped hΓ
      (hdeclares.proper hbinding Frame.proper_nil) _ hbody hbodyBlame), hscope⟩

theorem decls_wellTyped : ∀ {ds : List Decl} {globals : Frame}, Frame.Proper globals →
    (∀ d ∈ ds, d.Proper) → (decls { globals := globals } ds).2.Blameless →
      ∃ globals', Decl.AllWellTyped globals ds globals'
  | [], globals, _, _, _ => ⟨globals, .nil⟩
  | d :: ds, globals, hglobals, h, hblame => by
      obtain ⟨hd, hds⟩ := List.forall_mem_cons.mp h
      rw [decls] at hblame
      obtain ⟨hfirst, hothers⟩ := blameless_append.mp hblame
      obtain ⟨middle, htyped, hscope⟩ := decl_wellTyped hglobals hd hfirst
      rw [hscope] at hothers
      obtain ⟨globals', hrest⟩ := decls_wellTyped (htyped.proper hd hglobals) hds hothers
      exact ⟨globals', .cons htyped hrest⟩

end Check

/-- **A proper program in which the checker finds no semantic error is well typed.** -/
theorem Program.Proper.wellTyped {p : Program} (hp : p.Proper) (h : p.Accepted) :
    p.WellTyped := by
  have hblame := Journal.blameless_iff.mpr h
  exact Check.decls_wellTyped Frame.proper_nil hp (Journal.blameless_append.mp hblame).1

end CMinusMinus
