/-
  File:      CMinusMinus/Proofs/Inputs.lean
  Subject:   The calls that read, and the `read`s of code.

  A call of `scanf` takes one argument, of any form. Its code is the code of the argument as a
  VALUE, and then a `read` into the operand of that value. Nothing else in a program reads: the
  `read`s of its code belong to its calls of `scanf`, one for each and in the order of the code,
  provided that lowering ran to its end. The calls are found in the text; for each there is a point
  that lowering came to, with a scope in which names mean what they mean in the text.

  * `Expr.inputs`, `Program.inputs` -- the arguments of such calls, in the order of the code;
  * `InputPoint` -- where lowering comes to such a call;
  * `Reads`, `Lower.Brings` -- code whose `read`s belong to calls;
  * `Lower.modes_brings`, `Lower.block_brings` -- the code of expressions and of bodies;
  * `Lower.reads_of_met` -- the code of functions.
-/
import CMinusMinus.Proofs.Arrivals

namespace CMinusMinus

/-! ## 1. Arguments that are read into -/

/-- The argument of a call that reads, and what names mean there. -/
structure Input where
  env : Env
  arg : Expr

/-- What a call with one argument reads into. -/
def Input.ofCall (ρ : Env) (name : String) : List Expr → List Input
  | [e] => if name = readCall then [⟨ρ, e⟩] else []
  | _ => []

mutual

/-- **The arguments that calls in an expression read into**, in the order of the code: a call comes
    behind the calls inside its argument. -/
def Expr.inputs (ρ : Env) : Expr → List Input
  | .index _ array i => array.inputs ρ ++ i.inputs ρ
  | .call _ name args => Expr.inputsOf ρ args ++ Input.ofCall ρ name args
  | .unary _ _ e => e.inputs ρ
  | .binary _ _ l r => l.inputs ρ ++ r.inputs ρ
  | .int _ _ | .str _ _ | .var _ _ | .nameless _ _ | .misplaced _ => []

/-- The same of expressions one after the other. -/
def Expr.inputsOf (ρ : Env) : List Expr → List Input
  | [] => []
  | e :: es => e.inputs ρ ++ Expr.inputsOf ρ es

end

/-- What acts read into. -/
def inputsOf (cs : List Scene) : List Input := cs.flatMap fun c => Expr.inputsOf c.env c.act.exprs

@[simp] theorem inputsOf_nil : inputsOf [] = [] := rfl

@[simp] theorem inputsOf_cons (c : Scene) (cs : List Scene) :
    inputsOf (c :: cs) = Expr.inputsOf c.env c.act.exprs ++ inputsOf cs := rfl

@[simp] theorem inputsOf_append (cs₁ cs₂ : List Scene) :
    inputsOf (cs₁ ++ cs₂) = inputsOf cs₁ ++ inputsOf cs₂ := List.flatMap_append

theorem inputsOf_ask (ρ : Env) (e : Expr) : inputsOf [⟨ρ, .ask e⟩] = e.inputs ρ := by
  simp [Act.exprs, Expr.inputsOf]

theorem inputsOf_run (ρ : Env) (e : Expr) : inputsOf [⟨ρ, .run e⟩] = e.inputs ρ := by
  simp [Act.exprs, Expr.inputsOf]

theorem inputsOf_assign (ρ : Env) (target exp : Expr) :
    inputsOf [⟨ρ, .assign target exp⟩] = target.inputs ρ ++ exp.inputs ρ := by
  simp [Act.exprs, Expr.inputsOf]

/-- What the body of a function reads into. -/
def Definition.inputs (f : Definition) : List Input := inputsOf (f.body.scenes f.env 0)

/-- **What a program reads into**: the argument of every call of `scanf` with one argument. -/
def Program.inputs (p : Program) : List Input := p.definitions.flatMap Definition.inputs

/-! ## 2. Points of code -/

/-- The operand that a value from outside is read into. -/
def Instr.input? : Instr → Option Operand
  | .read v => some v
  | _ => none

/-- The operands that code reads into, in order. -/
def readsOf (code : List Instr) : List Operand := code.filterMap Instr.input?

@[simp] theorem readsOf_append (c₁ c₂ : List Instr) :
    readsOf (c₁ ++ c₂) = readsOf c₁ ++ readsOf c₂ := List.filterMap_append

/-- **Where lowering comes to a call that reads**: its scope, the argument, and the state before. -/
structure InputPoint where
  scope : Scope
  arg : Expr
  start : Lower.State

namespace InputPoint

variable (x : InputPoint)

/-- The argument as a value. -/
def given : Lower.Emitted := Lower.value x.scope x.arg x.start

/-- The operand that is read into. -/
def operand : Operand := x.given.operand

/-- The code of the call. -/
def code : List Instr := (Lower.value x.scope (.call {} readCall [x.arg]) x.start).code

/-- The code of the call: the argument as a value, and a `read` into its operand. -/
theorem code_eq : x.code = x.given.code ++ [.read x.operand] := by
  simp [code, given, operand, Lower.value, Lower.modes, Lower.modesOf, Lower.Modes.call,
    Lower.Modes.systemCall, Lower.Modes.sequence, Lower.Modes.ofValue, isSystemCall]

end InputPoint

/-! ## 3. Calls and their `read`s -/

/-- **A call that reads, and where lowering came to it** on the way to this code. -/
structure InputPoint.At (code : List Instr) (x : InputPoint) (c : Input) : Prop where
  arg : x.arg = c.arg
  names : x.scope.Names c.env
  proper : c.arg.Proper
  typed : ∃ Γ τ, HasType Γ c.arg τ
  faultless : x.given.after.journal.Faultless
  inside : x.code <:+: code

/-- **The `read`s of code belong to calls**, one for each and in their order. -/
def Reads (cs : List Input) (code : List Instr) : Prop :=
  ∃ points : List InputPoint, readsOf code = points.map InputPoint.operand ∧
    List.Forall₂ (InputPoint.At code) points cs

namespace Reads

variable {cs ds : List Input} {code c₁ c₂ : List Instr}

/-- Code that reads nothing. -/
theorem quiet (h : readsOf code = []) : Reads [] code := ⟨[], h, .nil⟩

theorem append (h₁ : Reads cs c₁) (h₂ : Reads ds c₂) : Reads (cs ++ ds) (c₁ ++ c₂) := by
  obtain ⟨xs, hreads₁, hat₁⟩ := h₁
  obtain ⟨ys, hreads₂, hat₂⟩ := h₂
  refine ⟨xs ++ ys, ?_, List.rel_append (hat₁.imp fun x c h => ?_) (hat₂.imp fun x c h => ?_)⟩
  · rw [readsOf_append, hreads₁, hreads₂, List.map_append]
  · exact { h with inside := h.inside.trans (List.prefix_append c₁ c₂).isInfix }
  · exact { h with inside := h.inside.trans (List.suffix_append c₁ c₂).isInfix }

theorem behind (h : Reads cs code) {more : List Instr} (hmore : readsOf more = []) :
    Reads cs (code ++ more) := by
  have hall := h.append (quiet hmore)
  rwa [List.append_nil] at hall

/-- The call itself, behind what its argument reads. -/
theorem call {x : InputPoint} {c : Input} (h : Reads cs x.given.code)
    (hx : x.At x.code c) : Reads (cs ++ [c]) x.code := by
  obtain ⟨xs, hreads, hat⟩ := h
  refine ⟨xs ++ [x], ?_, List.rel_append (hat.imp fun y d hy => ?_) (.cons hx .nil)⟩
  · rw [x.code_eq, readsOf_append, hreads, List.map_append]
    rfl
  · refine { hy with inside := hy.inside.trans ?_ }
    rw [x.code_eq]
    exact (List.prefix_append _ _).isInfix

end Reads

namespace Lower

/-- Code is written while the journal grows; if lowering has run to its end and the scope is `ok`,
    its `read`s belong to the calls. -/
structure Brings (ok : Prop) (cs : List Input) (j j' : Journal) (code : List Instr) : Prop where
  before : j'.Faultless → j.Faultless
  reads : j'.Faultless → ok → Reads cs code

namespace Brings

variable {ok : Prop} {cs ds : List Input} {j j₁ j₂ : Journal} {code c₁ c₂ more : List Instr}

theorem nil (ok : Prop) (j : Journal) : Brings ok [] j j [] := ⟨id, fun _ _ => .quiet rfl⟩

/-- **One after the other.** -/
theorem append (h₁ : Brings ok cs j j₁ c₁) (h₂ : Brings ok ds j₁ j₂ c₂) :
    Brings ok (cs ++ ds) j j₂ (c₁ ++ c₂) where
  before hj := h₁.before (h₂.before hj)
  reads hj hok := (h₁.reads (h₂.before hj) hok).append (h₂.reads hj hok)

/-- Instructions behind the code that read nothing. -/
theorem behind (h : Brings ok cs j j₁ code) (hmore : readsOf more = []) :
    Brings ok cs j j₁ (code ++ more) :=
  ⟨h.before, fun hj hok => (h.reads hj hok).behind hmore⟩

/-- Instructions before the code that read nothing. -/
theorem ahead (h : Brings ok cs j j₁ code) (hmore : readsOf more = []) :
    Brings ok cs j j₁ (more ++ code) :=
  ⟨h.before, fun hj hok => (Reads.quiet hmore).append (h.reads hj hok)⟩

/-- After a fault nothing has to be shown. -/
theorem fault (j : Journal) (f : Fault) : Brings ok cs j (j ++ [.fault f]) code := by
  have hfault : ¬ Journal.Faultless (j ++ [.fault f]) := fun hj =>
    Journal.not_faultless_fault f (Journal.faultless_append.mp hj).2
  exact ⟨fun hj => absurd hj hfault, fun hj => absurd hj hfault⟩

/-- More events before the code. -/
theorem since {events : Journal} (h : Brings ok cs (j ++ events) j₁ code) :
    Brings ok cs j j₁ code :=
  ⟨fun hj => (Journal.faultless_append.mp (h.before hj)).1, h.reads⟩

end Brings

/-! ## 4. Expressions -/

namespace Modes

/-- **The `read`s of an expression belong to its calls**, in both modes. -/
structure Brings (ok : Prop) (cs : List Input) (m : Modes) : Prop where
  value : ∀ s, Lower.Brings ok cs s.journal (m.value s).after.journal (m.value s).code
  branch : ∀ t s, Lower.Brings ok cs s.journal (m.branch t s).after.journal (m.branch t s).code

variable {ok : Prop} {left right operand : Modes} {cs ds : List Input}

theorem brings_ofValue {value : State → Emitted}
    (h : ∀ s, Lower.Brings ok cs s.journal (value s).after.journal (value s).code) :
    (ofValue value).Brings ok cs :=
  ⟨h, fun _ s => (h s).behind rfl⟩

theorem brings_ofBranch {branch : Targets Target → State → Lowered}
    (h : ∀ t s, Lower.Brings ok cs s.journal (branch t s).after.journal (branch t s).code) :
    (ofBranch branch).Brings ok cs :=
  ⟨fun s => (h _ s.afterTemporary.afterLabel.afterLabel.afterLabel).behind rfl, h⟩

theorem brings_ofOperand (v : Operand) : (ofOperand v).Brings ok [] :=
  brings_ofValue fun s => .nil ok s.journal

theorem brings_ofFault (f : Fault) : (ofFault f).Brings ok cs :=
  brings_ofValue fun s => .fault s.journal f

theorem brings_constant (text : String) : (constant text).Brings ok [] :=
  brings_ofValue fun s => .nil ok s.journal

theorem brings_ofVar (Γ : Scope) (x : String) : (ofVar Γ x).Brings ok [] := by
  unfold ofVar
  split
  · exact brings_ofOperand _
  · exact brings_ofFault _

section Operators

variable (hl : left.Brings ok cs) (hr : right.Brings ok ds)

include hl hr

theorem brings_compute {instr : Operand → Operand → Operand → Instr}
    (hinstr : ∀ d l r, (instr d l r).input? = none) :
    (compute left right instr).Brings ok (cs ++ ds) := by
  refine brings_ofValue fun s => ((hl.value s).append (hr.value _)).behind ?_
  exact List.filterMap_cons_none (hinstr _ _ _)

theorem brings_compare (op : RelOp) : (compare op left right).Brings ok (cs ++ ds) := by
  refine brings_ofBranch fun t s => ((hl.value s).append (hr.value _)).behind ?_
  cases (comparison op).2 <;> rfl

/-- Two conditions, with a label between them. -/
theorem brings_branches (t₁ t₂ : Targets Target) (mid : Label) (s : State) :
    Lower.Brings ok (cs ++ ds) s.journal
      (right.branch t₂ (left.branch t₁ s.afterLabel).after).after.journal
      ((left.branch t₁ s.afterLabel).code ++ [.label mid] ++
        (right.branch t₂ (left.branch t₁ s.afterLabel).after).code) :=
  ((hl.branch t₁ s.afterLabel).behind rfl).append (hr.branch t₂ _)

end Operators

theorem brings_negative (h : operand.Brings ok cs) : (negative operand).Brings ok cs :=
  brings_ofValue fun s => (h.value s).behind rfl

theorem brings_negation (h : operand.Brings ok cs) : (negation operand).Brings ok cs :=
  brings_ofBranch fun t s => h.branch t.swap s

section Calls

variable {ρ : Env} {ms : List Modes} {es : List Expr}

/-- Arguments of a function. -/
theorem handOver_brings (h : List.Forall₂ (fun m e => Brings ok (Expr.inputs ρ e) m) ms es)
    (place : Nat) (s : State) : Lower.Brings ok (Expr.inputsOf ρ es) s.journal
      (handOver place ms s).after.journal (handOver place ms s).code := by
  induction h generalizing place s with
  | nil => exact .nil ok s.journal
  | @cons m e ms es hm _ ih => exact ((hm.value s).behind rfl).append (ih (place + 1) _)

theorem brings_functionCall (Γ : Scope) (name : String) (types : Check.Verdicts)
    (h : List.Forall₂ (fun m e => Brings ok (Expr.inputs ρ e) m) ms es) :
    (functionCall Γ name types ms).Brings ok (Expr.inputsOf ρ es) := by
  refine brings_ofValue fun s => ?_
  have hgiven := (handOver_brings h 0 (s.overhear types.journal)).since
  cases Γ.function? name types.tys with
  | none => exact (Brings.fault _ _).since
  | some f =>
    by_cases hvoid : f.ret.name = "void"
    · simp only [hvoid, if_true]
      exact hgiven.behind rfl
    · simp only [hvoid, if_false]
      exact hgiven.behind rfl

end Calls

end Modes

theorem Modes.systemCall_code (name : String) (m : Modes) (s : State) :
    ((systemCall name [m]).value s).code = (m.value s).code ++
      [if name = readCall then .read (m.value s).operand else .write (m.value s).operand] := by
  simp [systemCall, ofValue, sequence]

/-- A call that the system answers: `scanf` reads into its argument, `printf` reads nothing. -/
theorem systemCall_brings {Γ : Scope} {ρ : Env} {e : Expr} (name : String) (hproper : e.Proper)
    (htyped : ∃ Γ' τ, HasType Γ' e τ)
    (h : (modes Γ e).Brings (Γ.Names ρ) (e.inputs ρ)) :
    (Modes.systemCall name [modes Γ e]).Brings (Γ.Names ρ)
      (e.inputs ρ ++ Input.ofCall ρ name [e]) := by
  refine Modes.brings_ofValue fun s => ?_
  have hgiven := h.value s
  show Brings _ _ _ _ ((Modes.systemCall name [modes Γ e]).value s).code
  rw [Modes.systemCall_code, Input.ofCall]
  split
  · -- lowering comes to the call here
    refine ⟨hgiven.before, fun hj hok => ?_⟩
    have hpoint : (InputPoint.mk Γ e s).At (InputPoint.mk Γ e s).code ⟨ρ, e⟩ :=
      ⟨rfl, hok, hproper, htyped, hj, List.infix_rfl⟩
    have hreads := Reads.call (x := ⟨Γ, e, s⟩) (hgiven.reads hj hok) hpoint
    rw [InputPoint.code_eq] at hreads
    exact hreads
  · rw [List.append_nil]
    exact hgiven.behind rfl

section

variable (Γ : Scope) (ρ : Env) {Γ' : Scope}

mutual

/-- **The `read`s of a well-typed expression belong to its calls of `scanf`.** -/
theorem modes_brings : ∀ {e : Expr} {τ : Ty}, HasType Γ' e τ → e.Proper →
    (modes Γ e).Brings (Γ.Names ρ) (e.inputs ρ)
  | _, _, .int, _ => Modes.brings_ofOperand _
  | _, _, .str, _ => Modes.brings_constant _
  | _, _, .var _, _ => Modes.brings_ofVar Γ _
  | _, _, .index ha hi _, h =>
      Modes.brings_compute (modes_brings ha h.1) (modes_brings hi h.2) fun _ _ _ => rfl
  | .call _ name args, _, .system hname hargs hone, h => by
      rw [modes, Modes.call, if_pos hname, Expr.inputs]
      cases hargs with
      | nil => exact Modes.brings_ofValue fun s => .nil _ s.journal
      | @cons e τ es τs he hes =>
        cases hes with
        | nil =>
          have harg := modes_brings he h.2.1
          rw [Expr.inputsOf, Expr.inputsOf, List.append_nil]
          exact systemCall_brings name h.2.1 ⟨_, _, he⟩ harg
        | cons _ _ => simp at hone
  | .call _ name args, _, .call hname hargs _, h => by
      have hnot : name ≠ readCall := by
        rintro rfl
        exact Bool.noConfusion hname
      have hnone : Input.ofCall ρ name args = [] := by
        unfold Input.ofCall
        split
        · exact if_neg hnot
        · rfl
      rw [modes, Modes.call, hname, Expr.inputs, hnone, List.append_nil]
      exact Modes.brings_functionCall Γ name _ (modesOf_brings hargs h.2)
  | _, _, .neg he _, h => Modes.brings_negative (modes_brings he h.2)
  | _, _, .not he _, h => Modes.brings_negation (modes_brings he h.2)
  | _, _, .address he _, h => Modes.brings_ofValue (modes_brings he h.2).value
  | _, _, .deref he _, h => Modes.brings_ofValue (modes_brings he h.2).value
  | _, _, .arith hl hr _ _, h =>
      Modes.brings_compute (modes_brings hl h.2.1) (modes_brings hr h.2.2) fun _ _ _ => rfl
  | _, _, .rel hl hr _ _, h =>
      Modes.brings_compare (modes_brings hl h.2.1) (modes_brings hr h.2.2) _
  | _, _, .and hl hr _ _, h => Modes.brings_ofBranch fun _ s =>
      Modes.brings_branches (modes_brings hl h.2.1) (modes_brings hr h.2.2) _ _ _ s
  | _, _, .or hl hr _ _, h => Modes.brings_ofBranch fun _ s =>
      Modes.brings_branches (modes_brings hl h.2.1) (modes_brings hr h.2.2) _ _ _ s

theorem modesOf_brings : ∀ {es : List Expr} {τs : List Ty}, HaveTypes Γ' es τs →
    Expr.AllProper es →
      List.Forall₂ (fun m e => Modes.Brings (Γ.Names ρ) (Expr.inputs ρ e) m) (modesOf Γ es) es
  | _, _, .nil, _ => .nil
  | _, _, .cons he hes, h => .cons (modes_brings he h.1) (modesOf_brings hes h.2)

end

end

/-! ## 5. Statements -/

section Statements

variable (Γ : Scope) (ρ : Env) {Γ' : Scope} {ret : Ty}

theorem condition_brings {e : Expr} (h : IsTruth Γ' e) (he : e.Proper) (t : Targets Target)
    (s : State) : Brings (Γ.Names ρ) (inputsOf [⟨ρ, .ask e⟩]) s.journal
      (branch Γ e t s).after.journal (branch Γ e t s).code := by
  obtain ⟨τ, hτ, -⟩ := h
  rw [inputsOf_ask]
  exact (modes_brings Γ ρ hτ he).branch t s

theorem assignment_brings {target exp : Expr} {α β : Ty} (htarget : HasType Γ' target α)
    (hexp : HasType Γ' exp β) (ht : target.Proper) (he : exp.Proper) (s : State) :
    Brings (Γ.Names ρ) (inputsOf [⟨ρ, .assign target exp⟩]) s.journal
      (assignment Γ target exp s).after.journal (assignment Γ target exp s).code := by
  have hdest := modes_brings Γ ρ htarget ht
  have hvalue := modes_brings Γ ρ hexp he
  rw [inputsOf_assign]
  cases target with
  | index _ array i =>
    -- the parts of an element that is assigned to are computed, not the element
    cases htarget with
    | index harray hi _ =>
      have hbase := modes_brings Γ ρ harray ht.1
      have hindex := modes_brings Γ ρ hi ht.2
      exact (((hbase.value s).append (hindex.value _)).append (hvalue.value _)).behind rfl
  | _ => exact ((hdest.value s).append (hvalue.value _)).behind rfl

theorem clause_brings (label : String) {st : Stmt} (h : st.WellTyped ret Γ') (hst : st.IsClause)
    (next : Target) (k : Nat) (s : State) :
    Brings (Γ.Names ρ) (inputsOf (st.scenes ρ k)) s.journal
      (stmt label Γ st next s).after.journal (stmt label Γ st next s).code := by
  cases hst with
  | assign _ ht he =>
    cases h with
    | assign htarget hvalue _ => exact assignment_brings Γ ρ htarget hvalue ht he s
  | @call _ e hcall he =>
    cases h with
    | call htyped =>
      rw [stmt, effect, if_pos hcall, Stmt.scenes, inputsOf_run]
      exact (modes_brings Γ ρ htyped he).value s

theorem returned_brings (label : String) {e : Option Expr} {pos : Position}
    (h : (Stmt.ret pos e).WellTyped ret Γ') (he : ∀ v, e = some v → v.Proper) (s : State) :
    Brings (Γ.Names ρ) (inputsOf (e.toList.map fun v => ⟨ρ, .ask v⟩)) s.journal
      (returned label Γ e s).after.journal (returned label Γ e s).code := by
  cases h with
  | retNone _ => exact (Brings.nil _ s.journal).behind rfl
  | @retSome _ _ v _ htyped _ =>
    rw [Option.toList_some, List.map_singleton, inputsOf_ask]
    exact ((modes_brings Γ ρ htyped (he v rfl)).value s).behind rfl

end Statements

mutual

/-- **The `read`s of a well-typed statement belong to its calls of `scanf`.** -/
theorem stmt_brings (label : String) (Γ : Scope) (ρ : Env) {Γ' : Scope} {ret : Ty} : ∀ st : Stmt,
    st.Proper → st.WellTyped ret Γ' → ∀ {k : Nat} (next : Target) (s : State),
    s.alloc.locals = k → Brings (Γ.Names ρ) (inputsOf (st.scenes ρ k)) s.journal
      (stmt label Γ st next s).after.journal (stmt label Γ st next s).code
  | .assign _ _ _, hst, h, _, next, s, _ | .call _ _, hst, h, _, next, s, _ =>
      clause_brings Γ ρ label h hst next _ s
  | .ifThen _ cond body, hst, .ifThen hcond hbody, k, next, s, hk => by
      have hlocals := (condition_plays Γ ρ hst.1 (targets s.label next) s.afterLabel).grows.locals
      have hc := condition_brings Γ ρ hcond hst.1 (targets s.label next) s.afterLabel
      have hb := block_brings label Γ ρ [] body hst.2 hbody _ (hlocals.trans hk)
      rw [Stmt.scenes, ← List.singleton_append, inputsOf_append]
      exact (hc.behind rfl).append hb
  | .ifElse _ cond thenBody elseBody, hst, .ifElse hcond hthen helse, k, next, s, hk => by
      have hlocals := (condition_plays Γ ρ hst.1 (targets s.label (some s.afterLabel.label))
        s.afterLabel.afterLabel).grows.locals.trans hk
      have hc := condition_brings Γ ρ hcond hst.1 (targets s.label (some s.afterLabel.label))
        s.afterLabel.afterLabel
      have ha := block_brings label Γ ρ [] thenBody hst.2.1 hthen _ hlocals
      have hslots := (block_plays label Γ ρ [] thenBody hst.2.1 _ hlocals).grows.locals
      have hb := block_brings label Γ ρ [] elseBody hst.2.2 helse _
        (hslots.trans (congrArg (· + thenBody.slots) hlocals))
      rw [Stmt.scenes, ← List.singleton_append, inputsOf_append, inputsOf_append,
        ← List.append_assoc]
      exact (((hc.behind rfl).append ha).behind rfl).append hb
  | .whileLoop _ cond body, hst, .whileLoop hcond hbody, k, next, s, hk => by
      have hlocals := (condition_plays Γ ρ hst.1 (targets s.afterLabel.label next)
        s.afterLabel.afterLabel).grows.locals
      have hc := condition_brings Γ ρ hcond hst.1 (targets s.afterLabel.label next)
        s.afterLabel.afterLabel
      have hb := block_brings label Γ ρ [] body hst.2 hbody _ (hlocals.trans hk)
      rw [Stmt.scenes, ← List.singleton_append, inputsOf_append]
      exact (((hc.ahead rfl).behind rfl).append hb).behind rfl
  | .forLoop _ init cond step body, hst, .forLoop hinit hcond hstep hbody, k, next, s, hk => by
      have hi := clause_brings Γ ρ label hinit hst.1 none k s.afterLabel.afterLabel
      have hc := condition_brings Γ ρ hcond hst.2.1 (targets s.afterLabel.label next)
        (stmt label Γ init none s.afterLabel.afterLabel).after
      -- clauses and conditions place nothing
      have hlocals := (condition_plays Γ ρ hst.2.1 (targets s.afterLabel.label next)
        (stmt label Γ init none s.afterLabel.afterLabel).after).grows.locals.trans
        ((clause_plays Γ ρ label hst.1 none k s.afterLabel.afterLabel).grows.locals.trans hk)
      have hb := block_brings label Γ ρ [] body hst.2.2.2 hbody _ hlocals
      have hn := clause_brings Γ ρ label hstep hst.2.2.1 none (k + body.slots)
        (block label Γ [] body (branch Γ cond (targets s.afterLabel.label next)
          (stmt label Γ init none s.afterLabel.afterLabel).after).after).after
      rw [Stmt.scenes, hst.1.slots_eq, Nat.add_zero, inputsOf_append, ← List.singleton_append,
        inputsOf_append, inputsOf_append, ← List.append_assoc, ← List.append_assoc]
      exact (((((hi.behind rfl).append hc).behind rfl).append hb).append hn).behind rfl
  | .ret _ _, hst, h, _, _, s, _ => returned_brings Γ ρ label h hst s
  | .misplaced _, hst, _, _, _, _, _ | .missing _ _, hst, _, _, _, _, _ => hst.elim

theorem block_brings (label : String) (Γ : Scope) (ρ : Env) (frame : Frame) {Γ' : Scope}
    {frame' : Frame} {ret : Ty} : ∀ b : Block, b.Proper → b.WellTyped ret Γ' frame' →
    ∀ {k : Nat} (s : State), s.alloc.locals = k →
      Brings ((Γ.push frame).Names ρ) (inputsOf (b.scenes ρ k)) s.journal
        (block label Γ frame b s).after.journal (block label Γ frame b s).code
  | .mk _ ds sts, hb, .mk _ hsts, k, s, hk => by
      have hds := binding_of_variables hb.1
      have hgrows := placeDecls_grows hds frame s
      have hstmts := stmts_brings label (Γ.push (placeDecls .local frame ds s).1)
        (Env.declare .local k ρ ds) sts hb.2 hsts (placeDecls .local frame ds s).2
        (hgrows.locals.trans (congrArg (· + ds.length) hk))
      refine ⟨fun hj => hgrows.before (hstmts.before hj), fun hj hok => hstmts.reads hj ?_⟩
      -- without a fault the declarations are found in the new frame
      rw [← hk]
      exact hok.placeDecls (fun _ => rfl) hds (hstmts.before hj)

theorem stmts_brings (label : String) (Γ : Scope) (ρ : Env) {Γ' : Scope} {ret : Ty} :
    ∀ sts : List Stmt, Stmt.AllProper sts → Stmt.AllWellTyped ret Γ' sts →
    ∀ {k : Nat} (s : State), s.alloc.locals = k →
      Brings (Γ.Names ρ) (inputsOf (Stmt.scenesOf ρ k sts)) s.journal
        (stmts label Γ sts s).after.journal (stmts label Γ sts s).code
  | [], _, _, _, s, _ => .nil _ s.journal
  | st :: sts, hsts, .cons h hs, k, s, hk => by
      have hslots := (stmt_plays label Γ ρ st hsts.1 (some s.label) s.afterLabel hk).grows.locals
      have hfirst := stmt_brings label Γ ρ st hsts.1 h (some s.label) s.afterLabel hk
      have hrest := stmts_brings label Γ ρ sts hsts.2 hs _
        (hslots.trans (congrArg (· + st.slots) hk))
      rw [Stmt.scenesOf, inputsOf_append]
      refine (hfirst.behind ?_).append hrest
      split <;> rfl

end

/-! ## 6. Functions -/

/-- The `read`s of a function belong to its calls of `scanf`. -/
theorem Met.reads {f : Definition} {a : Arrival} (h : Met f a) {ret : Ty} {Γ : Scope}
    {frame : Frame} (hbody : f.body.WellTyped ret Γ frame) : Reads f.inputs a.segment.code := by
  have hbrings := block_brings a.label a.scope f.env a.frame a.body (h.body ▸ h.body_proper)
    (h.body ▸ hbody) a.start h.locals
  have hfront : Reads [] [.func a.label, .frame a.segment.locals a.segment.temporaries] :=
    .quiet rfl
  have hend : Reads [] [.endFunc a.label] := .quiet rfl
  have hall := (hfront.append (hbrings.reads h.faultless h.names)).append hend
  rw [List.append_nil] at hall
  rw [Definition.inputs, ← h.body]
  exact hall

/-- The `read`s of functions one after the other. -/
theorem reads_of_met {fs : List Definition} {as : List Arrival} (h : List.Forall₂ Met fs as)
    (hbodies : ∀ f ∈ fs, ∃ ret Γ frame, f.body.WellTyped ret Γ frame) :
    Reads (fs.flatMap Definition.inputs) (as.flatMap fun a => a.segment.code) := by
  induction h with
  | nil => exact .quiet rfl
  | @cons f a fs as hmet _ ih =>
    obtain ⟨hf, hfs⟩ := List.forall_mem_cons.mp hbodies
    obtain ⟨ret, Γ, frame, hbody⟩ := hf
    exact (hmet.reads hbody).append (ih hfs)

end Lower

end CMinusMinus
