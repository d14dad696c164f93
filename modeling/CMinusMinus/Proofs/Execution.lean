/-
  File:      CMinusMinus/Proofs/Execution.lean
  Subject:   The code of a statement runs as the statement does.

  A run of a statement that ends at the end of its text is matched by a run of its code to the place
  behind it. A run that ends by a return is matched by a run of the code to a return of the
  function, with the same value. In both cases the memory agrees with the cells before and after,
  and the same is read and written.

  A statement goes on at a label that is handed down to it. That label is defined right behind its
  code if the code jumps there at all, so jumping and falling through come to the same place.

  * `Scope.Follows.placeDecls` -- declarations mean in the code what they mean in the text;
  * `Arrives` -- the code matches an end of a run;
  * `Lower.stmt_matches`, `Lower.block_matches` -- code runs as statements and blocks do.
-/
import CMinusMinus.Proofs.Evaluation

namespace CMinusMinus

open Machine

/-! ## 1. Declarations -/

theorem Frame.var?_eq_none {frame : Frame} {name : String} (h : frame.binds name = false) :
    frame.var? name = none := by
  unfold Frame.var?
  rw [List.findSome?_eq_none_iff]
  intro b hb
  have hne : b.1 ≠ name := by
    intro heq
    rw [Frame.binds, List.any_eq_false] at h
    exact h b hb (beq_iff_eq.mpr heq)
  obtain ⟨n, e⟩ := b
  rcases e with v | f
  · exact if_neg hne
  · rfl

/-- A variable that is taken in is found under its name, all others as before. -/
theorem Frame.var?_snoc {frame : Frame} {name : String} (v : Variable)
    (h : frame.binds name = false) (x : String) :
    Frame.var? (frame ++ [(name, .variable v)]) x = if x = name then some v else frame.var? x := by
  have happend : Frame.var? (frame ++ [(name, .variable v)]) x =
      (frame.var? x).or (Frame.var? [(name, .variable v)] x) := List.findSome?_append
  rw [happend]
  by_cases hx : x = name
  · rw [if_pos hx, hx, Frame.var?_eq_none h]
    simp [Frame.var?]
  · have hnew : Frame.var? [(name, .variable v)] x = none := by
      simpa [Frame.var?] using fun heq : name = x => hx heq.symm
    rw [if_neg hx, hnew, Option.or_none]

theorem Scope.var?_push (Γ : Scope) (frame : Frame) (name : String) :
    (Γ.push frame).var? name = (frame.var? name).or (Γ.var? name) := by
  change (frame :: Γ.frames).findSome? (fun f => f.var? name) = _
  rw [List.findSome?_cons]
  cases frame.var? name <;> rfl

namespace Scope.Follows

variable {Γ Γ' : Scope} {ρ : Env}

/-- One more declaration on both sides. -/
theorem cons (h : Γ.Follows ρ) {name : String} {c : Cell} {v : Variable} {array : Bool}
    (hv : v.home = some c.address)
    (hΓ' : ∀ x, Γ'.var? x = if x = name then some v else Γ.var? x) :
    Γ'.Follows (⟨name, c, array⟩ :: ρ) := by
  intro x b hb
  rw [Env.lookup, List.find?_cons] at hb
  by_cases hx : x = name
  · rw [hx, beq_self_eq_true] at hb
    cases hb
    rw [hΓ', if_pos hx]
    exact ⟨v, rfl, hv⟩
  · rw [beq_eq_false_iff_ne.mpr fun heq => hx heq.symm] at hb
    rw [hΓ', if_neg hx]
    exact h x b hb

/-- An empty frame hides nothing. -/
theorem push_nil (h : Γ.Follows ρ) : (Γ.push []).Follows ρ := h

end Scope.Follows

namespace Lower

theorem count_placed (s : State) (space : Space) (t : Trace) :
    (s.placed space t).alloc.count space = s.alloc.count space + 1 := by
  cases space <;> rfl

end Lower

/-- **Declarations that are placed mean in the scope what they mean in the environment.** -/
theorem Scope.Follows.placeDecls {Γ : Scope} {space : Space} {cell : Nat → Cell}
    (hcell : ∀ k, (cell k).address = ⟨space, k⟩) {bare bare' : Frame} {ds : List Decl}
    (h : Declares bare ds bare') : ∀ {frame : Frame} {ρ : Env} {s : Lower.State},
      Frame.bare frame = bare → (Γ.push frame).Follows ρ →
      (Γ.push (Lower.placeDecls space frame ds s).1).Follows
        (Env.declare cell (s.alloc.count space) ρ ds) := by
  -- one variable, then the rest of them
  have hone : ∀ {middle frame : Frame} {name : String} {ty : Ty} {ds : List Decl} {ρ : Env}
      {s : Lower.State}, (Frame.bare frame).add name (.variable { ty := ty }) = .ok middle →
      (∀ {frame : Frame} {ρ : Env} {s : Lower.State}, Frame.bare frame = middle →
        (Γ.push frame).Follows ρ → (Γ.push (Lower.placeDecls space frame ds s).1).Follows
          (Env.declare cell (s.alloc.count space) ρ ds)) →
      (Γ.push frame).Follows ρ →
      let placed := Lower.place space frame name ty s
      (Γ.push (Lower.placeDecls space placed.1 ds placed.2).1).Follows
        (Env.declare cell (s.alloc.count space + 1)
          (⟨name, cell (s.alloc.count space), ty.extent.isSome⟩ :: ρ) ds) := by
    intro middle frame name ty ds ρ s hadd ih hρ
    obtain ⟨hbinds, hbare, t, hplace⟩ := Lower.place_eq space s hadd
    rw [hplace, ← Lower.count_placed s space t]
    have hhome : some (s.alloc.nextAddress space) = some (cell (s.alloc.count space)).address :=
      congrArg some (hcell _).symm
    refine ih hbare (hρ.cons (v := ⟨ty, some (s.alloc.nextAddress space)⟩) hhome ?_)
    intro x
    rw [Scope.var?_push, Scope.var?_push, Frame.var?_snoc _ hbinds]
    by_cases hx : x = name
    · rw [if_pos hx, if_pos hx]
      rfl
    · rw [if_neg hx, if_neg hx]
  induction h with
  | nil => exact fun _ hρ => hρ
  | var hadd _ ih =>
    intro frame ρ s hframe hρ
    exact hone (hframe ▸ hadd) ih hρ
  | param _ hadd _ ih =>
    intro frame ρ s hframe hρ
    exact hone (hframe ▸ hadd) ih hρ

/-! ## 2. Arriving -/

/-- The machine in a world. -/
def World.config (w : World) (pc : Nat) (m : Contents Address) : Config :=
  ⟨pc, m, w.input, w.output⟩

/-- **The machine matches an end of a run**: it comes to the place behind the code, or to a return
    of the function with the code label. -/
def Arrives (code : List Instr) (label : String) (c : Config) (behind : Nat) (w : World) :
    Exit → Prop
  | .falls => ∃ m, Reaches code c (w.config behind m) ∧ Agrees m w.store
  | .returns v => ∃ pc m, Reaches code c (w.config pc m) ∧
      exit? code (w.config pc m) = some (label, .returns v) ∧ Agrees m w.store

namespace Arrives

variable {code : List Instr} {label : String} {c c₁ : Config} {pc pc' : Nat} {w : World} {o : Exit}

/-- Steps before. -/
theorem before (h : Reaches code c c₁) (h₁ : Arrives code label c₁ pc w o) :
    Arrives code label c pc w o := by
  cases o with
  | falls =>
    obtain ⟨m, hreach, hm⟩ := h₁
    exact ⟨m, h.trans hreach, hm⟩
  | returns v =>
    obtain ⟨pc', m, hreach, hexit, hm⟩ := h₁
    exact ⟨pc', m, h.trans hreach, hexit, hm⟩

/-- Steps behind the code, if the machine comes there. -/
theorem behind (h : Arrives code label c pc w o)
    (h₁ : ∀ m, Reaches code (w.config pc m) (w.config pc' m)) : Arrives code label c pc' w o := by
  cases o with
  | falls =>
    obtain ⟨m, hreach, hm⟩ := h
    exact ⟨m, hreach.trans (h₁ m), hm⟩
  | returns v => exact h

theorem cast (h : Arrives code label c pc w o) (hpc : pc = pc') : Arrives code label c pc' w o :=
  hpc ▸ h

/-- A return is matched wherever the code ends. -/
theorem returned {v : Option Int} (h : Arrives code label c pc w (.returns v)) (pc' : Nat) :
    Arrives code label c pc' w (.returns v) := h

end Arrives

namespace Lower

section Clauses

variable {code : List Instr} (hcode : (labelsOf code).Nodup) (label : String) {ret : Ty} {Γ : Scope}
  {ρ : Env} (hΓ : Γ.bare.Proper) (hρ : Γ.Follows ρ)

/-! ## 3. Conditions and clauses -/

include hΓ hρ

theorem value_computes {e : Expr} {τ : Ty} {σ : Contents Cell} {a : Int} (he : HasType Γ.bare e τ)
    (ha : e.eval ρ σ = some a) : Computes σ (value Γ e) a :=
  (modes_denotes (Γ.proper_bare.mp hΓ) hρ he.of_bare ha).value

/-- A name that means a cell is its address. -/
theorem value_cell (pos : Position) {name : String} {c : Cell} (s : State)
    (hc : ρ.scalar? name = some c ∨ ρ.array? name = some c) :
    value Γ (.var pos name) s = ⟨[], .address c.address, s⟩ := by
  obtain ⟨v, hv, hhome⟩ : ∃ v, Γ.var? name = some v ∧ v.home = some c.address :=
    hc.elim hρ.scalar? hρ.array?
  rw [value, modes_var (Γ.proper_bare.mp hΓ) pos hv hhome]
  rfl

include hcode

/-- A condition goes to the target for its value. -/
theorem condition_reaches {cond : Expr} {v : Int} {w : World} (hcond : IsTruth Γ.bare cond)
    (hv : cond.eval ρ w.store = some v) {t : Targets Target} {s : State} {pc q : Nat} {l : Label}
    {m : Contents Address} (hplaced : Placed code pc (branch Γ cond t s).code)
    (ht : (if decide (v ≠ 0) then t.onTrue else t.onFalse) = some l)
    (hq : code[q]? = some (.label l)) (hm : Agrees m w.store) :
    ∃ m', Reaches code (w.config pc m) (w.config q m') ∧ Agrees m' w.store := by
  obtain ⟨τ, hτ, -⟩ := hcond
  have hdenotes := modes_denotes (Γ.proper_bare.mp hΓ) hρ hτ.of_bare hv
  obtain ⟨m', hreach, hsame⟩ := hdenotes.branch w.input w.output hcode hplaced ht hq hm
  exact ⟨m', hreach, hsame.agrees hm⟩

/-- **The code of an assignment or a call runs as the clause does**, whatever follows it. -/
theorem clause_arrives {st : Stmt} {k : Nat} {w w' : World} {o : Exit} (hst : st.IsClause)
    (hruns : st.Runs ρ k w o w') (h : st.WellTyped ret Γ.bare) {next : Target} {s : State}
    {pc : Nat} {m : Contents Address} (hplaced : Placed code pc (stmt label Γ st next s).code)
    (hm : Agrees m w.store) :
    Arrives code label (w.config pc m) (pc + (stmt label Γ st next s).code.length) w' o := by
  cases hruns with
  | assign hc hv =>
    rename_i pos pos' name e c v
    cases h with
    | assign _ hvalue _ =>
      have heq : (stmt label Γ (.assign pos (.var pos' name) e) next s).code =
          (value Γ e s).code ++ [.move (.address c.address) (value Γ e s).operand] := by
        simp only [stmt, assignment, value_cell hΓ hρ pos' s (Or.inl hc), List.nil_append]
      rw [heq] at hplaced ⊢
      obtain ⟨m', hreach, hsame, hkeeps⟩ :=
        value_computes hΓ hρ hvalue hv w.input w.output hcode hplaced.left hm
      rw [List.length_append, ← Nat.add_assoc]
      exact ⟨_, hreach.trans (.one (step_move hplaced.right.head hkeeps.read)),
        (hsame.agrees hm).set (.scalar c) v⟩
  | assignElement hc hi hv =>
    rename_i pos pos' pos'' name i e c j v
    cases h with
    | assign htarget hvalue _ =>
      cases htarget with
      | index _ hindex _ =>
        let x := value Γ i s
        let y := value Γ e x.after
        have heq : (stmt label Γ (.assign pos (.index pos' (.var pos'' name) i) e) next s).code =
            x.code ++ y.code ++ [.store (.address c.address) x.operand y.operand] := by
          simp only [stmt, assignment, value_cell hΓ hρ pos'' s (Or.inr hc), List.nil_append, x, y]
        rw [heq] at hplaced ⊢
        obtain ⟨m', hreach, hsame, hx, hy⟩ := Computes.both
          (value_computes hΓ hρ hindex hi) (value_computes hΓ hρ hvalue hv)
          (value_along passage_later hΓ hindex) (value_along passage_later hΓ hvalue)
          w.input w.output hcode hplaced.left hm
        rw [List.length_append, ← Nat.add_assoc]
        exact ⟨_, hreach.trans (.one (step_store hplaced.right.head hx.read hy.read)),
          (hsame.agrees hm).set (.element c j) v⟩
  | print hv =>
    rename_i pos pos' e v
    cases h with
    | call he =>
      have heq : (stmt label Γ (.call pos (.call pos' writeCall [e])) next s).code =
          (value Γ e s).code ++ [.write (value Γ e s).operand] := by
        simp [stmt, effect, Expr.isCall, value, modes, modesOf, Modes.call, isSystemCall,
          Modes.systemCall, Modes.ofValue, Modes.sequence, writeCall, readCall]
      rw [heq] at hplaced ⊢
      obtain ⟨τ, hτ⟩ : ∃ τ, HasType Γ.bare e τ := by
        cases he with
        | system _ hargs _ =>
          cases hargs with
          | cons hτ _ => exact ⟨_, hτ⟩
        | call hname _ _ => exact absurd hname (by decide)
      obtain ⟨m', hreach, hsame, hkeeps⟩ :=
        value_computes hΓ hρ hτ hv w.input w.output hcode hplaced.left hm
      rw [List.length_append, ← Nat.add_assoc]
      exact ⟨m', hreach.trans (.one (step_write hplaced.right.head hkeeps.read)), hsame.agrees hm⟩
  | scan hc =>
    rename_i pos pos' pos'' name c σ v input output
    have heq : (stmt label Γ (.call pos (.call pos' readCall [.var pos'' name])) next s).code =
        [.read (.address c.address)] := by
      have hvar : (Modes.ofVar Γ name).value s = ⟨[], .address c.address, s⟩ := by
        have hcell := value_cell hΓ hρ pos'' s (Or.inl hc)
        rw [value, modes] at hcell
        exact hcell
      simp [stmt, effect, Expr.isCall, value, modes, modesOf, Modes.call, isSystemCall,
        Modes.systemCall, Modes.ofValue, Modes.sequence, readCall, hvar]
    rw [heq] at hplaced ⊢
    exact ⟨_, .one (step_read hplaced.head), hm.set (.scalar c) v⟩
  | _ => cases hst

/-- A condition that holds leads behind the label of its first target. -/
theorem condition_enters {cond : Expr} {v : Int} {w : World} (hcond : IsTruth Γ.bare cond)
    (hv : cond.eval ρ w.store = some v) (hne : v ≠ 0) {yes : Label} {next : Target} {s : State}
    {pc : Nat} {m : Contents Address} {rest : List Instr}
    (hplaced : Placed code pc ((branch Γ cond (targets yes next) s).code ++ .label yes :: rest))
    (hm : Agrees m w.store) :
    ∃ m', Reaches code (w.config pc m)
        (w.config (pc + (branch Γ cond (targets yes next) s).code.length + 1) m') ∧
      Agrees m' w.store := by
  obtain ⟨m', hreach, hm'⟩ := condition_reaches hcode hΓ hρ hcond hv hplaced.left
    (if_pos (decide_eq_true hne)) hplaced.right.head hm
  exact ⟨m', hreach.trans (.one (step_label hplaced.right.head)), hm'⟩

end Clauses

/-! ## 4. Loops -/

/-- The code of a loop, from its top on. -/
def loopCode (label : String) (Γ : Scope) (top yes : Label) (next : Target) (cond : Expr)
    (body : Block) (step : Option Stmt) (s : State) : List Instr :=
  let c := branch Γ cond (targets yes next) s
  let b := block label Γ [] body c.after
  let n := step.elim [] fun st => (stmt label Γ st none b.after).code
  .label top :: (c.code ++ .label yes :: (b.code ++ n ++ [.jump (some top)]))

theorem whileLoop_code (label : String) (Γ : Scope) (pos : Position) (cond : Expr) (body : Block)
    (next : Target) (s : State) : (stmt label Γ (.whileLoop pos cond body) next s).code =
      loopCode label Γ s.label s.afterLabel.label next cond body none s.afterLabel.afterLabel := by
  simp [stmt, loopCode]

theorem forLoop_code (label : String) (Γ : Scope) (pos : Position) (init step : Stmt) (cond : Expr)
    (body : Block) (next : Target) (s : State) :
    (stmt label Γ (.forLoop pos init cond step body) next s).code =
      (stmt label Γ init none s.afterLabel.afterLabel).code ++
        loopCode label Γ s.label s.afterLabel.label next cond body (some step)
          (stmt label Γ init none s.afterLabel.afterLabel).after := by
  simp [stmt, loopCode]

theorem ifThen_code (label : String) (Γ : Scope) (pos : Position) (cond : Expr) (body : Block)
    (next : Target) (s : State) :
    let c := branch Γ cond (targets s.label next) s.afterLabel
    (stmt label Γ (.ifThen pos cond body) next s).code =
      c.code ++ .label s.label :: (block label Γ [] body c.after).code := by
  simp [stmt]

theorem ifElse_code (label : String) (Γ : Scope) (pos : Position) (cond : Expr)
    (thenBody elseBody : Block) (next : Target) (s : State) :
    let no := s.afterLabel.label
    let c := branch Γ cond (targets s.label (some no)) s.afterLabel.afterLabel
    let a := block label Γ [] thenBody c.after
    let b := block label Γ [] elseBody a.after
    (stmt label Γ (.ifElse pos cond thenBody elseBody) next s).code =
      c.code ++ .label s.label :: (a.code ++ .jump next :: .label no :: b.code) := by
  simp [stmt]

/-! ## 5. Statements -/

section Matching

variable (code : List Instr) (label : String) (ret : Ty)

/-- The code of a statement matches a run of it. -/
def StmtMatches (ρ : Env) (k : Nat) (st : Stmt) (w : World) (o : Exit) (w' : World) : Prop :=
  ∀ ⦃Γ : Scope⦄ ⦃next : Label⦄ ⦃s : State⦄ ⦃pc : Nat⦄ ⦃m : Contents Address⦄,
    Γ.bare.Proper → Γ.Follows ρ → st.Proper → st.WellTyped ret Γ.bare → s.alloc.locals = k →
    let piece := (stmt label Γ st (some next) s).code
    Placed code pc piece →
    (some next ∈ targetsOf piece → code[pc + piece.length]? = some (.label next)) →
    Agrees m w.store → Arrives code label (w.config pc m) (pc + piece.length) w' o

/-- The code of a block matches a run of it. -/
def BlockMatches (ρ : Env) (k : Nat) (b : Block) (w : World) (o : Exit) (w' : World) : Prop :=
  ∀ ⦃Γ : Scope⦄ ⦃frame : Frame⦄ ⦃s : State⦄ ⦃pc : Nat⦄ ⦃m : Contents Address⦄,
    Γ.bare.Proper → Frame.Proper (Frame.bare frame) → (Γ.push frame).Follows ρ → b.Proper →
    b.WellTyped ret Γ.bare (Frame.bare frame) → s.alloc.locals = k →
    let piece := (block label Γ frame b s).code
    Placed code pc piece → Agrees m w.store →
    Arrives code label (w.config pc m) (pc + piece.length) w' o

/-- The code of statements matches a run of them. -/
def StmtsMatch (ρ : Env) (k : Nat) (sts : List Stmt) (w : World) (o : Exit) (w' : World) : Prop :=
  ∀ ⦃Γ : Scope⦄ ⦃s : State⦄ ⦃pc : Nat⦄ ⦃m : Contents Address⦄,
    Γ.bare.Proper → Γ.Follows ρ → Stmt.AllProper sts → Stmt.AllWellTyped ret Γ.bare sts →
    s.alloc.locals = k →
    let piece := (stmts label Γ sts s).code
    Placed code pc piece → Agrees m w.store →
    Arrives code label (w.config pc m) (pc + piece.length) w' o

/-- What a loop asks of its parts. -/
structure LoopParts (Γ : Scope) (cond : Expr) (body : Block) (step : Option Stmt) : Prop where
  truth : IsTruth Γ.bare cond
  proper : body.Proper
  wellTyped : body.WellTyped ret Γ.bare []
  clause : ∀ st, step = some st → st.IsClause ∧ st.WellTyped ret Γ.bare

/-- The code of a loop matches a run of it, from its top on. -/
def LoopMatches (ρ : Env) (k : Nat) (cond : Expr) (body : Block) (step : Option Stmt) (w : World)
    (o : Exit) (w' : World) : Prop :=
  ∀ ⦃Γ : Scope⦄ ⦃top yes next : Label⦄ ⦃s : State⦄ ⦃pc : Nat⦄ ⦃m : Contents Address⦄,
    Γ.bare.Proper → Γ.Follows ρ → LoopParts ret Γ cond body step → s.alloc.locals = k →
    let piece := loopCode label Γ top yes (some next) cond body step s
    Placed code pc piece → code[pc + piece.length]? = some (.label next) →
    Agrees m w.store → Arrives code label (w.config pc m) (pc + piece.length) w' o

end Matching

section Statements

variable {code : List Instr} (hcode : (labelsOf code).Nodup) {label : String} {ret : Ty} {ρ : Env}
  {k : Nat} {pos : Position} {cond : Expr} {body thenBody elseBody : Block} {w w₁ w₂ w' : World}
  {v : Int} {o : Exit}

/-- A block of its own frame. -/
theorem BlockMatches.inner (h : BlockMatches code label ret ρ k body w o w') {Γ : Scope} {s : State}
    {pc : Nat} {m : Contents Address} (hΓ : Γ.bare.Proper) (hρ : Γ.Follows ρ)
    (hproper : body.Proper) (hwell : body.WellTyped ret Γ.bare []) (hs : s.alloc.locals = k)
    (hplaced : Placed code pc (block label Γ [] body s).code) (hm : Agrees m w.store) :
    Arrives code label (w.config pc m) (pc + (block label Γ [] body s).code.length) w' o :=
  h hΓ (show Frame.Proper (Frame.bare []) from Frame.proper_nil) hρ.push_nil hproper hwell hs
    hplaced hm

include hcode

theorem matches_clause {st : Stmt} (hclause : st.Proper → st.IsClause)
    (hruns : st.Runs ρ k w o w') : StmtMatches code label ret ρ k st w o w' := by
  intro Γ next s pc m hΓ hρ hst h _ piece hplaced _ hm
  exact clause_arrives hcode label hΓ hρ (hclause hst) hruns h hplaced hm

omit hcode in
theorem matches_retNone : StmtMatches code label ret ρ k (.ret pos none) w (.returns none) w := by
  intro Γ next s pc m _ _ _ _ _ piece hplaced _ hm
  have hret : code[pc]? = some (.ret label) := hplaced.head
  refine ⟨pc, m, .refl _, ?_, hm⟩
  simp [exit?, World.config, hret]

theorem matches_retSome {e : Expr} (hv : e.eval ρ w.store = some v) :
    StmtMatches code label ret ρ k (.ret pos (some e)) w (.returns (some v)) w := by
  intro Γ next s pc m hΓ hρ _ h _ piece hplaced _ hm
  cases h with
  | retSome he _ =>
    have hplaced : Placed code pc ((value Γ e s).code ++ [.retValue label (value Γ e s).operand]) :=
      hplaced
    obtain ⟨m', hreach, hsame, hkeeps⟩ :=
      value_computes hΓ hρ he hv w.input w.output hcode hplaced.left hm
    refine ⟨_, m', hreach, ?_, hsame.agrees hm⟩
    simp [exit?, World.config, hplaced.right.head, hkeeps.read]

theorem matches_ifTrue (hcond : cond.eval ρ w.store = some v) (hv : v ≠ 0)
    (hbody : BlockMatches code label ret ρ k body w o w') :
    StmtMatches code label ret ρ k (.ifThen pos cond body) w o w' := by
  intro Γ next s pc m hΓ hρ hst h hs piece hplaced _ hm
  cases h with
  | ifThen htruth hwell =>
    have hlater := passage_later.trans (passage_later.label s)
      (branch_along passage_later hΓ htruth (targets s.label (some next)) _)
    rw [show piece = _ from ifThen_code label Γ pos cond body (some next) s] at hplaced ⊢
    obtain ⟨m', hreach, hm'⟩ := condition_enters hcode hΓ hρ htruth hcond hv hplaced hm
    have hblock := hbody.inner hΓ hρ hst.2 hwell (hlater.locals.trans hs) hplaced.right.tail hm'
    refine (hblock.before hreach).cast ?_
    rw [List.length_append, List.length_cons]
    omega

theorem matches_ifFalse (hcond : cond.eval ρ w.store = some 0) :
    StmtMatches code label ret ρ k (.ifThen pos cond body) w .falls w := by
  intro Γ next s pc m hΓ hρ hst h hs piece hplaced hnext hm
  cases h with
  | ifThen htruth _ =>
    have hcode' : piece = _ := ifThen_code label Γ pos cond body (some next) s
    -- the condition jumps to what follows, so it is marked
    have hused : some next ∈ targetsOf piece := by
      rw [hcode', targetsOf_append]
      exact List.mem_append_left _
        ((modes_tidy Γ cond hst.1).onFalse (targets s.label (some next)) s.afterLabel)
    have hq := hnext hused
    rw [hcode'] at hplaced
    exact condition_reaches hcode hΓ hρ htruth hcond hplaced.left rfl hq hm

theorem matches_elseTrue (hcond : cond.eval ρ w.store = some v) (hv : v ≠ 0)
    (hbody : BlockMatches code label ret ρ k thenBody w o w') :
    StmtMatches code label ret ρ k (.ifElse pos cond thenBody elseBody) w o w' := by
  intro Γ next s pc m hΓ hρ hst h hs piece hplaced hnext hm
  cases h with
  | ifElse htruth hthen _ =>
    have hlater := passage_later.trans (passage_later.labels₂ s)
      (branch_along passage_later hΓ htruth (targets s.label (some s.afterLabel.label)) _)
    have hcode' : piece = _ := ifElse_code label Γ pos cond thenBody elseBody (some next) s
    -- the first block jumps over the second one
    have hused : some next ∈ targetsOf piece := by
      rw [hcode']
      simp [Instr.target?]
    have hq := hnext hused
    rw [hcode'] at hplaced
    obtain ⟨m', hreach, hm'⟩ := condition_enters hcode hΓ hρ htruth hcond hv hplaced hm
    have hbehind := hplaced.right.tail
    have hblock := hbody.inner hΓ hρ hst.2.1 hthen (hlater.locals.trans hs) hbehind.left hm'
    exact (hblock.before hreach).behind fun _ => .one (step_jump hcode hbehind.right.head hq)

theorem matches_elseFalse (hcond : cond.eval ρ w.store = some 0)
    (hbody : BlockMatches code label ret ρ (k + thenBody.slots) elseBody w o w') :
    StmtMatches code label ret ρ k (.ifElse pos cond thenBody elseBody) w o w' := by
  intro Γ next s pc m hΓ hρ hst h hs piece hplaced _ hm
  cases h with
  | ifElse htruth hthen helse =>
    have hcondition := passage_later.trans (passage_later.labels₂ s)
      (branch_along passage_later hΓ htruth (targets s.label (some s.afterLabel.label)) _)
    have hlater := passage_later.trans hcondition
      (block_along passage_later label hΓ [] Frame.proper_nil thenBody hst.2.1 hthen _)
    have hs' := hlater.locals
    rw [hs, Nat.zero_add] at hs'
    rw [show piece = _ from ifElse_code label Γ pos cond thenBody elseBody (some next) s]
      at hplaced ⊢
    have hbehind := hplaced.right.tail.right.tail
    obtain ⟨m', hreach, hm'⟩ :=
      condition_reaches hcode hΓ hρ htruth hcond hplaced.left rfl hbehind.head hm
    have hblock := hbody.inner hΓ hρ hst.2.2 helse hs' hbehind.tail hm'
    refine ((hblock.before (.one (step_label hbehind.head))).before hreach).cast ?_
    simp only [List.length_append, List.length_cons]
    omega

/-! ## 6. Turns of a loop -/

theorem loop_stop {step : Option Stmt} (hcond : cond.eval ρ w.store = some 0) :
    LoopMatches code label ret ρ k cond body step w .falls w := by
  intro Γ top yes next s pc m hΓ hρ hparts _ piece hplaced hq hm
  obtain ⟨m', hreach, hm'⟩ :=
    condition_reaches hcode hΓ hρ hparts.truth hcond hplaced.tail.left rfl hq hm
  exact ⟨m', .step (step_label hplaced.head) hreach, hm'⟩

/-- From the top of a loop whose condition holds through its body. -/
theorem loop_body {step : Option Stmt} (hcond : cond.eval ρ w.store = some v) (hv : v ≠ 0)
    (hbody : BlockMatches code label ret ρ k body w o w') {Γ : Scope} {top yes next : Label}
    {s : State} {pc : Nat} {m : Contents Address} (hΓ : Γ.bare.Proper) (hρ : Γ.Follows ρ)
    (hparts : LoopParts ret Γ cond body step) (hs : s.alloc.locals = k)
    (hplaced : Placed code pc (loopCode label Γ top yes (some next) cond body step s))
    (hm : Agrees m w.store) :
    let c := branch Γ cond (targets yes (some next)) s
    Arrives code label (w.config pc m)
      (pc + 1 + c.code.length + 1 + (block label Γ [] body c.after).code.length) w' o := by
  intro c
  have hlater := branch_along passage_later hΓ hparts.truth (targets yes (some next)) s
  obtain ⟨m', hreach, hm'⟩ :=
    condition_enters hcode hΓ hρ hparts.truth hcond hv hplaced.tail hm
  have hblock := hbody.inner hΓ hρ hparts.proper hparts.wellTyped (hlater.locals.trans hs)
    hplaced.tail.right.tail.left.left hm'
  exact hblock.before (.step (step_label hplaced.head) hreach)

theorem loop_leave {step : Option Stmt} {r : Option Int} (hcond : cond.eval ρ w.store = some v)
    (hv : v ≠ 0) (hbody : BlockMatches code label ret ρ k body w (.returns r) w') :
    LoopMatches code label ret ρ k cond body step w (.returns r) w' := by
  intro Γ top yes next s pc m hΓ hρ hparts hs piece hplaced _ hm
  exact (loop_body hcode hcond hv hbody hΓ hρ hparts hs hplaced hm).returned _

theorem loop_again (hcond : cond.eval ρ w.store = some v) (hv : v ≠ 0)
    (hbody : BlockMatches code label ret ρ k body w .falls w₁)
    (hloop : LoopMatches code label ret ρ k cond body none w₁ o w') :
    LoopMatches code label ret ρ k cond body none w o w' := by
  intro Γ top yes next s pc m hΓ hρ hparts hs piece hplaced hq hm
  obtain ⟨m₁, hreach, hm₁⟩ := loop_body hcode hcond hv hbody hΓ hρ hparts hs hplaced hm
  have hjump := hplaced.tail.right.tail.right.head
  rw [Option.elim_none, List.append_nil] at hjump
  have hback := hreach.trans (.one (step_jump hcode hjump hplaced.head))
  exact (hloop hΓ hρ hparts hs hplaced hq hm₁).before hback

theorem loop_step {step : Stmt} (hcond : cond.eval ρ w.store = some v) (hv : v ≠ 0)
    (hbody : BlockMatches code label ret ρ k body w .falls w₁)
    (hstep : step.Runs ρ (k + body.slots) w₁ .falls w₂)
    (hloop : LoopMatches code label ret ρ k cond body (some step) w₂ o w') :
    LoopMatches code label ret ρ k cond body (some step) w o w' := by
  intro Γ top yes next s pc m hΓ hρ hparts hs piece hplaced hq hm
  obtain ⟨m₁, hreach₁, hm₁⟩ := loop_body hcode hcond hv hbody hΓ hρ hparts hs hplaced hm
  have hbehind := hplaced.tail.right.tail
  obtain ⟨hclause, hwell⟩ := hparts.clause step rfl
  obtain ⟨m₂, hreach₂, hm₂⟩ :=
    clause_arrives hcode label hΓ hρ hclause hstep hwell hbehind.left.right hm₁
  have hjump := hbehind.right.head
  rw [List.length_append, ← Nat.add_assoc] at hjump
  have hback := (hreach₁.trans hreach₂).trans (.one (step_jump hcode hjump hplaced.head))
  exact (hloop hΓ hρ hparts hs hplaced hq hm₂).before hback

omit hcode in
/-- The condition of a loop jumps to what follows the loop. -/
theorem next_mem_loopCode (label : String) (Γ : Scope) (hcond : cond.Proper) (top yes : Label)
    (next : Target) (body : Block) (step : Option Stmt) (s : State) :
    next ∈ targetsOf (loopCode label Γ top yes next cond body step s) := by
  have hused := (modes_tidy Γ cond hcond).onFalse (targets yes next) s
  rw [loopCode, targetsOf_cons, targetsOf_append]
  exact List.mem_append_right _ (List.mem_append_left _ hused)

omit hcode in
theorem matches_whileLoop (hloop : LoopMatches code label ret ρ k cond body none w o w') :
    StmtMatches code label ret ρ k (.whileLoop pos cond body) w o w' := by
  intro Γ next s pc m hΓ hρ hst h hs piece hplaced hnext hm
  cases h with
  | whileLoop htruth hwell =>
    have hcode' : piece = _ := whileLoop_code label Γ pos cond body (some next) s
    rw [hcode'] at hplaced hnext ⊢
    exact hloop hΓ hρ ⟨htruth, hst.2, hwell, fun _ h => by cases h⟩ hs hplaced
      (hnext (next_mem_loopCode label Γ hst.1 _ _ _ _ _ _)) hm

theorem matches_forLoop {init step : Stmt} (hinit : init.Runs ρ k w .falls w₁)
    (hloop : LoopMatches code label ret ρ (k + init.slots) cond body (some step) w₁ o w') :
    StmtMatches code label ret ρ k (.forLoop pos init cond step body) w o w' := by
  intro Γ next s pc m hΓ hρ hst h hs piece hplaced hnext hm
  cases h with
  | forLoop hwell₁ htruth hwell₂ hwell =>
    have hcode' : piece = _ := forLoop_code label Γ pos init step cond body (some next) s
    rw [hcode'] at hplaced hnext ⊢
    have hlater := passage_later.trans (passage_later.labels₂ s)
      (clause_along passage_later label hΓ hst.1 hwell₁ none _)
    have hs' : (stmt label Γ init none s.afterLabel.afterLabel).after.alloc.locals =
        k + init.slots := by
      rw [hlater.locals, hs, hst.1.slots_eq]
    obtain ⟨m₁, hreach, hm₁⟩ := clause_arrives hcode label hΓ hρ hst.1 hinit hwell₁ hplaced.left hm
    have hused := next_mem_loopCode label Γ hst.2.1 s.label s.afterLabel.label (some next) body
      (some step) (stmt label Γ init none s.afterLabel.afterLabel).after
    have hq := hnext (by rw [targetsOf_append]; exact List.mem_append_right _ hused)
    rw [List.length_append, ← Nat.add_assoc] at hq ⊢
    have hparts : LoopParts ret Γ cond body (some step) :=
      ⟨htruth, hst.2.2.2, hwell, fun st heq => by cases heq; exact ⟨hst.2.2.1, hwell₂⟩⟩
    exact (hloop hΓ hρ hparts hs' hplaced.right hq hm₁).before hreach

/-! ## 7. Blocks -/

omit hcode in
/-- A statement of a list, with the label for what follows it. -/
theorem first_arrives (hlabel : IsCodeLabel label) {st : Stmt} {sts : List Stmt}
    (hst : StmtMatches code label ret ρ k st w o w₁) {Γ : Scope} {s : State} {pc : Nat}
    {m : Contents Address} (hΓ : Γ.bare.Proper) (hρ : Γ.Follows ρ) (hproper : st.Proper)
    (hwell : st.WellTyped ret Γ.bare) (hs : s.alloc.locals = k)
    (hplaced : Placed code pc (stmts label Γ (st :: sts) s).code) (hm : Agrees m w.store) :
    let first := stmt label Γ st (some s.label) s.afterLabel
    ∃ behind, Arrives code label (w.config pc m) behind w₁ o ∧
      Placed code behind (stmts label Γ sts first.after).code ∧
      behind + (stmts label Γ sts first.after).code.length =
        pc + (stmts label Γ (st :: sts) s).code.length := by
  intro first
  have huses : first.code.any (·.uses s.label) = true ↔ some s.label ∈ targetsOf first.code :=
    any_uses_iff (stmt_tidy hlabel Γ st hproper (some s.label) s.afterLabel).inner s.label
  rw [stmts] at hplaced ⊢
  dsimp only at hplaced ⊢
  by_cases hmark : first.code.any (·.uses s.label) = true
  · rw [if_pos hmark] at hplaced ⊢
    have hq := hplaced.left.right.head
    have harrives :=
      hst (s := s.afterLabel) hΓ hρ hproper hwell hs hplaced.left.left (fun _ => hq) hm
    refine ⟨_, harrives.behind fun _ => .one (step_label hq), ?_, ?_⟩
    · have hothers := hplaced.right
      rw [List.length_append, ← Nat.add_assoc] at hothers
      exact hothers
    · show pc + first.code.length + 1 + (stmts label Γ sts first.after).code.length =
        pc + (first.code ++ [Instr.label s.label] ++ (stmts label Γ sts first.after).code).length
      rw [List.length_append, List.length_append, List.length_singleton]
      omega
  · rw [if_neg hmark, List.append_nil] at hplaced ⊢
    -- nothing jumps to the label, so nothing has to be marked
    have hunused : some s.label ∉ targetsOf first.code := fun hmem => hmark (huses.mpr hmem)
    have harrives := hst (s := s.afterLabel) hΓ hρ hproper hwell hs hplaced.left
      (fun h => absurd h hunused) hm
    refine ⟨_, harrives, hplaced.right, ?_⟩
    show pc + first.code.length + (stmts label Γ sts first.after).code.length =
      pc + (first.code ++ (stmts label Γ sts first.after).code).length
    rw [List.length_append, Nat.add_assoc]

omit hcode in
theorem matches_cons (hlabel : IsCodeLabel label) {st : Stmt} {sts : List Stmt}
    (hst : StmtMatches code label ret ρ k st w .falls w₁)
    (hsts : StmtsMatch code label ret ρ (k + st.slots) sts w₁ o w') :
    StmtsMatch code label ret ρ k (st :: sts) w o w' := by
  intro Γ s pc m hΓ hρ hproper h hs piece hplaced hm
  cases h with
  | cons hwell hwells =>
    obtain ⟨behind, ⟨m₁, hreach, hm₁⟩, hothers, hlen⟩ :=
      first_arrives hlabel hst hΓ hρ hproper.1 hwell hs hplaced hm
    have hlater := passage_later.trans (passage_later.label s)
      (stmt_along passage_later label hΓ st hproper.1 hwell (some s.label) _)
    have hs' := hlater.locals
    rw [hs, Nat.zero_add] at hs'
    have harrives := hsts hΓ hρ hproper.2 hwells hs' hothers hm₁
    exact (harrives.before hreach).cast hlen

omit hcode in
theorem matches_leave (hlabel : IsCodeLabel label) {st : Stmt} {sts : List Stmt}
    {r : Option Int} (hst : StmtMatches code label ret ρ k st w (.returns r) w') :
    StmtsMatch code label ret ρ k (st :: sts) w (.returns r) w' := by
  intro Γ s pc m hΓ hρ hproper h hs piece hplaced hm
  cases h with
  | cons hwell _ =>
    obtain ⟨behind, harrives, -, -⟩ :=
      first_arrives hlabel hst hΓ hρ hproper.1 hwell hs hplaced hm
    exact harrives.returned _

omit hcode in
theorem matches_block {ds : List Decl} {sts : List Stmt}
    (hsts : StmtsMatch code label ret (Env.declare .local k ρ ds) (k + ds.length) sts w o w') :
    BlockMatches code label ret ρ k (.mk pos ds sts) w o w' := by
  intro Γ frame s pc m hΓ hframe hρ hproper h hs piece hplaced hm
  cases h with
  | mk hdecls hwells =>
    obtain ⟨hbare, hlater⟩ := placeDecls_along passage_later.refl passage_later.trans
      passage_later.placed hdecls rfl s
    have hcell : ∀ k, (Cell.local k).address = ⟨.local, k⟩ := fun _ => rfl
    have hρ' := Scope.Follows.placeDecls hcell hdecls (s := s) rfl hρ
    rw [show s.alloc.count .local = k from hs] at hρ'
    have hframe' := hdecls.proper (binding_of_variables hproper.1) hframe
    rw [← hbare, ← Scope.bare_push] at hwells
    have hΓ' : (Γ.push (placeDecls .local frame ds s).1).bare.Proper := by
      rw [Scope.bare_push, hbare]
      exact hΓ.push hframe'
    have hs' := hlater.locals
    rw [hs] at hs'
    exact hsts hΓ' hρ' hproper.2 hwells hs' hplaced hm

end Statements

/-! ## 8. All runs -/

section Runs

variable {code : List Instr} {label : String} {ret : Ty}

mutual

/-- **The code of a statement runs as the statement does.** -/
theorem stmt_matches (hcode : (labelsOf code).Nodup) (hlabel : IsCodeLabel label) :
    ∀ {ρ : Env} {k : Nat} {st : Stmt} {w : World} {o : Exit} {w' : World}, st.Runs ρ k w o w' →
    StmtMatches code label ret ρ k st w o w'
  | _, _, _, _, _, _, .assign hc hv => matches_clause hcode id (.assign hc hv)
  | _, _, _, _, _, _, .assignElement hc hi hv => matches_clause hcode id (.assignElement hc hi hv)
  | _, _, _, _, _, _, .print hv => matches_clause hcode id (.print hv)
  | _, _, _, _, _, _, .scan hc => matches_clause hcode id (.scan hc)
  | _, _, _, _, _, _, .ifTrue hcond hv hbody =>
      matches_ifTrue hcode hcond hv (block_matches hcode hlabel hbody)
  | _, _, _, _, _, _, .ifFalse hcond => matches_ifFalse hcode hcond
  | _, _, _, _, _, _, .elseTrue hcond hv hbody =>
      matches_elseTrue hcode hcond hv (block_matches hcode hlabel hbody)
  | _, _, _, _, _, _, .elseFalse hcond hbody =>
      matches_elseFalse hcode hcond (block_matches hcode hlabel hbody)
  | _, _, _, _, _, _, .whileLoop hloop => matches_whileLoop (loop_matches hcode hlabel hloop)
  | _, _, _, _, _, _, .forLoop hinit hloop =>
      matches_forLoop hcode hinit (loop_matches hcode hlabel hloop)
  | _, _, _, _, _, _, .retNone => matches_retNone
  | _, _, _, _, _, _, .retSome hv => matches_retSome hcode hv

theorem loop_matches (hcode : (labelsOf code).Nodup) (hlabel : IsCodeLabel label) :
    ∀ {ρ : Env} {k : Nat} {cond : Expr} {body : Block} {step : Option Stmt} {w : World} {o : Exit}
    {w' : World}, Stmt.Loops ρ k cond body step w o w' →
    LoopMatches code label ret ρ k cond body step w o w'
  | _, _, _, _, _, _, _, _, .stop hcond => loop_stop hcode hcond
  | _, _, _, _, _, _, _, _, .again hcond hv hbody hloop =>
      loop_again hcode hcond hv (block_matches hcode hlabel hbody) (loop_matches hcode hlabel hloop)
  | _, _, _, _, _, _, _, _, .step hcond hv hbody hstep hloop =>
      loop_step hcode hcond hv (block_matches hcode hlabel hbody) hstep
        (loop_matches hcode hlabel hloop)
  | _, _, _, _, _, _, _, _, .leave hcond hv hbody =>
      loop_leave hcode hcond hv (block_matches hcode hlabel hbody)

/-- **The code of a block runs as the block does.** -/
theorem block_matches (hcode : (labelsOf code).Nodup) (hlabel : IsCodeLabel label) :
    ∀ {ρ : Env} {k : Nat} {b : Block} {w : World} {o : Exit} {w' : World}, b.Runs ρ k w o w' →
    BlockMatches code label ret ρ k b w o w'
  | _, _, _, _, _, _, .mk hstmts => matches_block (stmts_match hcode hlabel hstmts)

theorem stmts_match (hcode : (labelsOf code).Nodup) (hlabel : IsCodeLabel label) :
    ∀ {ρ : Env} {k : Nat} {sts : List Stmt} {w : World} {o : Exit} {w' : World},
    Stmt.AllRun ρ k sts w o w' → StmtsMatch code label ret ρ k sts w o w'
  | _, _, _, _, _, _, .nil => fun _ _ _ m _ _ _ _ _ _ hm => ⟨m, .refl _, hm⟩
  | _, _, _, _, _, _, .cons hst hsts =>
      matches_cons hlabel (stmt_matches hcode hlabel hst) (stmts_match hcode hlabel hsts)
  | _, _, _, _, _, _, .leave hst => matches_leave hlabel (stmt_matches hcode hlabel hst)

end

end Runs

end Lower

end CMinusMinus
