/-
  File:      CMinusMinus/Proofs/Placeless.lean
  Subject:   Neither checking nor lowering looks at positions.

  The checker copies the position of a node into what it says about the node. Taking the positions
  away before the check is therefore the same as taking them away after it: the types, the scopes
  and the defects are the same. Lowering does not even copy them: its code depends on the tree
  without positions and on what the allocator has given out.

  * `Journal.placeless` -- a journal without positions;
  * `Check.program_placeless` -- checking a program without positions;
  * `Lower.Modes.Alike`, `Lower.Lowered.Alike` -- the same code, from allocators that are alike;
  * `Lower.program_code_placeless` -- lowering a program without positions.
-/
import CMinusMinus.Proofs.Passage
import CMinusMinus.Proofs.Printing
import Mathlib.Data.List.Forall2

namespace CMinusMinus

/-! ## 1. Journals -/

/-- A trace without its position. -/
def Trace.placeless : Trace → Trace
  | .reported kind _ text => .reported kind {} text
  | t => t

/-- A diagnostic without its position. -/
def Diagnostic.placeless (d : Diagnostic) : Diagnostic := { d with pos := {} }

/-- An event without its position. -/
def Event.placeless : Event → Event
  | .trace t => .trace t.placeless
  | .diagnostic d => .diagnostic d.placeless
  | e => e

namespace Journal

/-- A journal without positions. -/
def placeless (j : Journal) : Journal := j.map Event.placeless

@[simp] theorem placeless_nil : placeless [] = [] := rfl

@[simp] theorem placeless_append (i j : Journal) :
    (i ++ j).placeless = i.placeless ++ j.placeless := List.map_append

@[simp] theorem placeless_report (pos : Position) (d : Defect) :
    (report pos d).placeless = report {} d := rfl

@[simp] theorem placeless_complainIf (c : Bool) (pos : Position) (d : Defect) :
    (complainIf c pos d).placeless = complainIf c {} d := by
  cases c <;> rfl

@[simp] theorem placeless_fault (f : Fault) : placeless [.fault f] = [.fault f] := rfl

theorem diagnostics_placeless (j : Journal) :
    j.placeless.diagnostics = j.diagnostics.map Diagnostic.placeless := by
  induction j with
  | nil => rfl
  | cons e j ih =>
    cases e with
    | diagnostic d => exact congrArg (d.placeless :: ·) ih
    | _ => exact ih

end Journal

theorem Diagnostic.count_placeless (ds : List Diagnostic) (severity : Severity) :
    count (ds.map placeless) severity = count ds severity := by
  unfold count
  rw [List.countP_map]
  rfl

/-! ## 2. Checking -/

namespace Check

/-- A verdict without positions. -/
def Verdict.placeless (v : Verdict) : Verdict := { v with journal := v.journal.placeless }

/-- Verdicts without positions. -/
def Verdicts.placeless (v : Verdicts) : Verdicts := { v with journal := v.journal.placeless }

/-- A scope and a journal, without the positions of the journal. -/
def found (r : Scope × Journal) : Scope × Journal := (r.1, r.2.placeless)

section Rules

variable (Γ : Scope) (pos : Position)

theorem call_placeless (name : String) (args : Verdicts) :
    call Γ {} name args.placeless = (call Γ pos name args).placeless := by
  unfold call Verdicts.placeless
  dsimp only
  split
  · simp [Verdict.placeless]
  · split
    · rfl
    · split <;> simp [Verdict.placeless]

theorem unary_placeless (op : UnaryOp) (isVar : Bool) (operand : Verdict) :
    unary {} op isVar operand.placeless = (unary pos op isVar operand).placeless := by
  cases op <;> simp [unary, Verdict.placeless]

theorem binary_placeless (op : BinaryOp) (left right : Verdict) :
    binary {} op left.placeless right.placeless = (binary pos op left right).placeless := by
  unfold binary
  split <;> simp [Verdict.placeless]

end Rules

mutual

/-- **The type of an expression does not depend on positions**, and what is found differs in
    positions only. -/
theorem typeOf_placeless (Γ : Scope) : ∀ e : Expr, typeOf Γ e.placeless = (typeOf Γ e).placeless
  | .int _ _ | .str _ _ | .misplaced _ => rfl
  | .var pos name => by
      simp only [Expr.placeless, typeOf, varUse]
      split <;> rfl
  | .index pos array i => by
      simp [Expr.placeless, typeOf, element, typeOf_placeless Γ array, typeOf_placeless Γ i,
        Verdict.placeless]
  | .call pos name args => by
      simp only [Expr.placeless, typeOf]
      rw [typesOf_placeless Γ args, call_placeless Γ pos]
  | .unary pos op e => by
      simp only [Expr.placeless, typeOf]
      rw [typeOf_placeless Γ e, e.isVar_placeless, unary_placeless pos]
  | .binary pos op l r => by
      simp only [Expr.placeless, typeOf]
      rw [typeOf_placeless Γ l, typeOf_placeless Γ r, binary_placeless pos]
  | .nameless kind args => by
      simp [Expr.placeless, typeOf, typesOf_placeless Γ args, Verdict.placeless, Verdicts.placeless]

theorem typesOf_placeless (Γ : Scope) : ∀ es : List Expr,
    typesOf Γ (Expr.allPlaceless es) = (typesOf Γ es).placeless
  | [] => rfl
  | e :: es => by
      simp [Expr.allPlaceless, typesOf, typeOf_placeless Γ e, typesOf_placeless Γ es,
        Verdict.placeless, Verdicts.placeless]

end

theorem paramTypes_placeless (ds : List Decl) :
    paramTypes (Decl.allPlaceless ds) = paramTypes ds := by
  induction ds with
  | nil => rfl
  | cons d ds ih => cases d <;> simp [Decl.allPlaceless, Decl.placeless, paramTypes, Decl.ty?,
      Decl.kind, ih]

section Rules

variable (Γ : Scope) (pos : Position)

theorem declare_placeless (name : String) (entry : Entry) :
    declare Γ {} name entry = found (declare Γ pos name entry) := by
  have htrace : (declarationTrace Γ.top name entry).placeless =
      declarationTrace Γ.top name entry := by
    cases entry with
    | «variable» v => rfl
    | function f =>
      unfold declarationTrace
      dsimp only
      split <;> rfl
  unfold declare
  split
  · simp [found, Journal.placeless, Event.placeless, htrace]
  · rfl

theorem variableDecl_placeless (name : String) (ty : Ty) :
    variableDecl Γ {} name ty = found (variableDecl Γ pos name ty) := by
  unfold variableDecl
  rw [declare_placeless Γ pos]
  split <;> simp [found]

theorem parameterDecl_placeless (name : String) (ty : Ty) :
    parameterDecl Γ {} name ty = found (parameterDecl Γ pos name ty) := by
  unfold parameterDecl
  rw [declare_placeless Γ pos]
  simp [found]

theorem functionDecl_placeless (head : FnHead) (params : List Decl) (forward : Bool) :
    functionDecl Γ head.placeless (Decl.allPlaceless params) forward =
      found (functionDecl Γ head params forward) := by
  unfold functionDecl
  rw [paramTypes_placeless]
  split
  · exact declare_placeless Γ head.pos _ _
  · rfl

theorem condition_placeless (e : Expr) :
    condition Γ e.placeless = (condition Γ e).placeless := by
  have hpos : e.placeless.pos = {} := by cases e <;> rfl
  simp [condition, typeOf_placeless, Verdict.placeless, hpos]

theorem assignment_placeless (target value : Expr) :
    assignment Γ target.placeless value.placeless = (assignment Γ target value).placeless := by
  have hpos : target.placeless.pos = {} := by cases target <;> rfl
  simp [assignment, typeOf_placeless, Verdict.placeless, hpos]

theorem returned_placeless (ret : Ty) (value : Option Expr) :
    returned ret Γ {} (value.map Expr.placeless) = (returned ret Γ pos value).placeless := by
  cases value with
  | none => simp [returned]
  | some e => simp [returned, typeOf_placeless, Verdict.placeless]

end Rules

mutual

/-- A declaration gives the same scope, and what is found differs in positions only. -/
theorem decl_placeless (Γ : Scope) : ∀ d : Decl, decl Γ d.placeless = found (decl Γ d)
  | .variable pos name ty => variableDecl_placeless Γ pos name ty
  | .parameter pos name ty => parameterDecl_placeless Γ pos name ty
  | .prototype head params => by
      simp only [Decl.placeless, decl, decls_placeless {} params, functionDecl_placeless]
      simp [found]
  | .function head params body => by
      have hret : head.placeless.ret = head.ret := rfl
      simp only [Decl.placeless, decl, decls_placeless _ params, functionDecl_placeless, hret]
      simp [found, block_placeless head.ret _ body]
  | .misplaced _ => rfl

theorem decls_placeless (Γ : Scope) : ∀ ds : List Decl,
    decls Γ (Decl.allPlaceless ds) = found (decls Γ ds)
  | [] => rfl
  | d :: ds => by
      simp only [Decl.allPlaceless, decls, decl_placeless Γ d]
      simp [found, decls_placeless _ ds]

/-- **What is found in a statement differs in positions only.** -/
theorem stmt_placeless (ret : Ty) (Γ : Scope) : ∀ st : Stmt,
    stmt ret Γ st.placeless = (stmt ret Γ st).placeless
  | .assign _ target value => assignment_placeless Γ target value
  | .ifThen _ cond body | .whileLoop _ cond body => by
      simp [Stmt.placeless, stmt, condition_placeless, block_placeless ret _ body]
  | .ifElse _ cond yes no => by
      simp [Stmt.placeless, stmt, condition_placeless, block_placeless ret _ yes,
        block_placeless ret _ no]
  | .forLoop _ init cond step body => by
      simp [Stmt.placeless, stmt, condition_placeless, stmt_placeless ret Γ init,
        stmt_placeless ret Γ step, block_placeless ret _ body]
  | .call _ e => congrArg Verdict.journal (typeOf_placeless Γ e)
  | .ret pos value => returned_placeless Γ pos ret value
  | .misplaced _ | .missing _ _ => rfl

theorem block_placeless (ret : Ty) (Γ : Scope) : ∀ b : Block,
    block ret Γ b.placeless = (block ret Γ b).placeless
  | .mk _ ds sts => by
      simp only [Block.placeless, block, decls_placeless Γ ds]
      simp [found, stmts_placeless ret _ sts]

theorem stmts_placeless (ret : Ty) (Γ : Scope) : ∀ sts : List Stmt,
    stmts ret Γ (Stmt.allPlaceless sts) = (stmts ret Γ sts).placeless
  | [] => rfl
  | st :: sts => by
      simp [Stmt.allPlaceless, stmts, stmt_placeless ret Γ st, stmts_placeless ret Γ sts]

end

/-- **Checking a program without positions** finds the same, without positions. -/
theorem program_placeless (p : Program) : program p.placeless = (program p).placeless := by
  have hdecls := congrArg Prod.snd (decls_placeless {} p.decls)
  rw [Decl.allPlaceless_eq] at hdecls
  have hfound : (decls {} p.placeless.decls).2 = (decls {} p.decls).2.placeless := hdecls
  unfold program
  dsimp only
  rw [hfound, Journal.diagnostics_placeless, Diagnostic.count_placeless,
    Diagnostic.count_placeless, Journal.placeless_append]
  rfl

end Check

/-! ## 3. Lowering -/

namespace Lower

/-- The same code and the same operand, and the allocators after them are the same. -/
structure Emitted.Alike (a b : Emitted) : Prop where
  code : a.code = b.code
  operand : a.operand = b.operand
  alloc : a.after.alloc = b.after.alloc

/-- The same code, and the allocators after it are the same. -/
structure Lowered.Alike (a b : Lowered) : Prop where
  code : a.code = b.code
  alloc : a.after.alloc = b.after.alloc

namespace Modes

/-- **Both modes give the same code** whenever the allocators before it are the same. -/
structure Alike (m m' : Modes) : Prop where
  value : ∀ s s' : State, s.alloc = s'.alloc → (m.value s).Alike (m'.value s')
  branch : ∀ (t : Targets Target) (s s' : State), s.alloc = s'.alloc →
    (m.branch t s).Alike (m'.branch t s')

variable {s s' : State}

theorem label_eq (h : s.alloc = s'.alloc) : s.label = s'.label := congrArg Allocator.nextLabel h

theorem temporary_eq (h : s.alloc = s'.alloc) : s.temporary = s'.temporary :=
  congrArg (fun a : Allocator => Operand.address a.newTemporary.1) h

theorem afterLabel_eq (h : s.alloc = s'.alloc) : s.afterLabel.alloc = s'.afterLabel.alloc :=
  congrArg (fun a : Allocator => a.newLabel.2) h

theorem afterTemporary_eq (h : s.alloc = s'.alloc) :
    s.afterTemporary.alloc = s'.afterTemporary.alloc :=
  congrArg (fun a : Allocator => a.newTemporary.2) h

theorem alike_ofValue {value value' : State → Emitted}
    (h : ∀ s s' : State, s.alloc = s'.alloc → (value s).Alike (value' s')) :
    (ofValue value).Alike (ofValue value') where
  value := h
  branch t s s' hs := by
    have hv := h s s' hs
    exact ⟨by simp only [ofValue, test, hv.code, hv.operand], hv.alloc⟩

theorem alike_ofBranch {branch branch' : Targets Target → State → Lowered}
    (h : ∀ (t : Targets Target) (s s' : State), s.alloc = s'.alloc →
      (branch t s).Alike (branch' t s')) : (ofBranch branch).Alike (ofBranch branch') where
  value s s' hs := by
    have hs₀ := afterTemporary_eq hs
    have hs₁ := afterLabel_eq hs₀
    have hs₂ := afterLabel_eq hs₁
    have hb := h ⟨some s'.afterTemporary.label, some s'.afterTemporary.afterLabel.label, none⟩ _ _
      (afterLabel_eq hs₂)
    unfold ofBranch materialise
    dsimp only
    rw [temporary_eq hs, label_eq hs₀, label_eq hs₁, label_eq hs₂, hb.code]
    exact ⟨rfl, rfl, hb.alloc⟩
  branch := h

theorem alike_ofOperand (v : Operand) : (ofOperand v).Alike (ofOperand v) :=
  alike_ofValue fun _ _ hs => ⟨rfl, rfl, hs⟩

theorem alike_ofFault (f : Fault) : (ofFault f).Alike (ofFault f) :=
  alike_ofValue fun _ _ hs => ⟨rfl, rfl, hs⟩

theorem alike_constant (text : String) : (constant text).Alike (constant text) := by
  refine alike_ofValue fun s s' hs => ?_
  dsimp only
  rw [hs]
  exact ⟨rfl, rfl, rfl⟩

theorem alike_ofVar (Γ : Scope) (name : String) : (ofVar Γ name).Alike (ofVar Γ name) := by
  unfold ofVar
  split
  · exact alike_ofOperand _
  · exact alike_ofFault _

section Operators

variable {left left' right right' operand operand' : Modes}

theorem Alike.compute (hl : left.Alike left') (hr : right.Alike right')
    (instr : Operand → Operand → Operand → Instr) :
    (compute left right instr).Alike (compute left' right' instr) := by
  refine alike_ofValue fun s s' hs => ?_
  have l := hl.value s s' hs
  have r := hr.value _ _ l.alloc
  dsimp only
  rw [l.code, l.operand, r.code, r.operand, temporary_eq r.alloc]
  exact ⟨rfl, rfl, afterTemporary_eq r.alloc⟩

theorem Alike.negative (h : operand.Alike operand') :
    (negative operand).Alike (negative operand') := by
  refine alike_ofValue fun s s' hs => ?_
  have v := h.value s s' hs
  dsimp only
  rw [v.code, v.operand, temporary_eq v.alloc]
  exact ⟨rfl, rfl, afterTemporary_eq v.alloc⟩

theorem Alike.unknown (hl : left.Alike left') (hr : right.Alike right') (text : String) :
    (unknown left right text).Alike (unknown left' right' text) := by
  refine alike_ofValue fun s s' hs => ?_
  exact ⟨rfl, rfl, (hr.value _ _ (hl.value s s' hs).alloc).alloc⟩

theorem Alike.compare (op : RelOp) (hl : left.Alike left') (hr : right.Alike right') :
    (compare op left right).Alike (compare op left' right') := by
  refine alike_ofBranch fun t s s' hs => ?_
  have l := hl.value s s' hs
  have r := hr.value _ _ l.alloc
  dsimp only
  rw [l.code, l.operand, r.code, r.operand]
  exact ⟨rfl, r.alloc⟩

theorem Alike.conjunction (hl : left.Alike left') (hr : right.Alike right') :
    (conjunction left right).Alike (conjunction left' right') := by
  refine alike_ofBranch fun t s s' hs => ?_
  have l := hl.branch ⟨some s'.label, t.onFalse, none⟩ _ _ (afterLabel_eq hs)
  have r := hr.branch ⟨t.onTrue, t.onFalse, none⟩ _ _ l.alloc
  dsimp only
  rw [label_eq hs, l.code, r.code]
  exact ⟨rfl, r.alloc⟩

theorem Alike.disjunction (hl : left.Alike left') (hr : right.Alike right') :
    (disjunction left right).Alike (disjunction left' right') := by
  refine alike_ofBranch fun t s s' hs => ?_
  have l := hl.branch ⟨t.onTrue, some s'.label, none⟩ _ _ (afterLabel_eq hs)
  have r := hr.branch ⟨t.onTrue, t.onFalse, none⟩ _ _ l.alloc
  dsimp only
  rw [label_eq hs, l.code, r.code]
  exact ⟨rfl, r.alloc⟩

theorem Alike.negation (h : operand.Alike operand') :
    (negation operand).Alike (negation operand') :=
  alike_ofBranch fun t s s' hs => h.branch t.swap s s' hs

theorem Alike.unary (op : UnaryOp) (h : operand.Alike operand') :
    (unary op operand).Alike (unary op operand') := by
  cases op with
  | neg => exact h.negative
  | not => exact h.negation
  | _ => exact alike_ofValue h.value

theorem Alike.binary (op : BinaryOp) (hl : left.Alike left') (hr : right.Alike right') :
    (binary op left right).Alike (binary op left' right') := by
  cases op with
  | arith op => exact hl.compute hr _
  | rel op => exact hl.compare op hr
  | and => exact hl.conjunction hr
  | or => exact hl.disjunction hr
  | other text => exact hl.unknown hr text

end Operators

section Calls

variable {args args' : List Modes} (hargs : List.Forall₂ Alike args args')

include hargs

theorem alike_sequence {s s' : State} (hs : s.alloc = s'.alloc) :
    (sequence args s).1 = (sequence args' s').1 ∧
      (sequence args s).2.1 = (sequence args' s').2.1 ∧
      (sequence args s).2.2.alloc = (sequence args' s').2.2.alloc := by
  induction hargs generalizing s s' with
  | nil => exact ⟨rfl, rfl, hs⟩
  | cons h _ ih =>
    have v := h.value s s' hs
    obtain ⟨hcode, hlast, halloc⟩ := ih v.alloc
    simp only [sequence, v.code, v.operand, hcode, hlast]
    exact ⟨trivial, trivial, halloc⟩

theorem alike_systemCall (name : String) :
    (systemCall name args).Alike (systemCall name args') := by
  refine alike_ofValue fun s s' hs => ?_
  obtain ⟨hcode, hlast, halloc⟩ := alike_sequence hargs hs
  dsimp only
  rw [hcode, hlast]
  exact ⟨rfl, rfl, halloc⟩

theorem alike_handOver (place : Nat) {s s' : State} (hs : s.alloc = s'.alloc) :
    (handOver place args s).Alike (handOver place args' s') := by
  induction hargs generalizing place s s' with
  | nil => exact ⟨rfl, hs⟩
  | cons h _ ih =>
    have v := h.value s s' hs
    have others := ih (place + 1) v.alloc
    simp only [handOver, v.code, v.operand, others.code]
    exact ⟨rfl, others.alloc⟩

/-- Only the types of the arguments choose the function. -/
theorem alike_functionCall (Γ : Scope) (name : String) {types types' : Check.Verdicts}
    (htypes : types.tys = types'.tys) :
    (functionCall Γ name types args).Alike (functionCall Γ name types' args') := by
  refine alike_ofValue fun s s' hs => ?_
  dsimp only
  rw [htypes]
  split
  · exact ⟨rfl, rfl, hs⟩
  · have heard : (s.overhear types.journal).alloc = (s'.overhear types'.journal).alloc := hs
    have given := alike_handOver hargs 0 heard
    rw [given.code, hargs.length_eq, temporary_eq given.alloc]
    split
    · exact ⟨rfl, rfl, given.alloc⟩
    · exact ⟨rfl, rfl, afterTemporary_eq given.alloc⟩

theorem alike_call (Γ : Scope) (name : String) {types types' : Check.Verdicts}
    (htypes : types.tys = types'.tys) :
    (call Γ name types args).Alike (call Γ name types' args') := by
  unfold call
  split
  · exact alike_systemCall hargs name
  · exact alike_functionCall hargs Γ name htypes

end Calls

end Modes

mutual

/-- **The code of an expression does not depend on positions.** -/
theorem modes_placeless (Γ : Scope) : ∀ e : Expr, (modes Γ e).Alike (modes Γ e.placeless)
  | .int _ n => Modes.alike_ofOperand (.literal n)
  | .str _ text => Modes.alike_constant text
  | .var _ name => Modes.alike_ofVar Γ name
  | .index _ array i => (modes_placeless Γ array).compute (modes_placeless Γ i) .load
  | .call _ name args =>
      Modes.alike_call (modesOf_placeless Γ args) Γ name
        (congrArg Check.Verdicts.tys (Check.typesOf_placeless Γ args)).symm
  | .unary _ op e => (modes_placeless Γ e).unary op
  | .binary _ op l r => (modes_placeless Γ l).binary op (modes_placeless Γ r)
  | .nameless _ _ | .misplaced _ => Modes.alike_ofFault _

theorem modesOf_placeless (Γ : Scope) : ∀ es : List Expr,
    List.Forall₂ Modes.Alike (modesOf Γ es) (modesOf Γ (Expr.allPlaceless es))
  | [] => .nil
  | e :: es => .cons (modes_placeless Γ e) (modesOf_placeless Γ es)

end

theorem value_placeless (Γ : Scope) (e : Expr) {s s' : State} (hs : s.alloc = s'.alloc) :
    (value Γ e s).Alike (value Γ e.placeless s') := (modes_placeless Γ e).value s s' hs

theorem branch_placeless (Γ : Scope) (e : Expr) (t : Targets Target) {s s' : State}
    (hs : s.alloc = s'.alloc) : (branch Γ e t s).Alike (branch Γ e.placeless t s') :=
  (modes_placeless Γ e).branch t s s' hs

/-- The same frame, and the allocators after it are the same. -/
structure PlacedAlike (a b : Frame × State) : Prop where
  frame : a.1 = b.1
  alloc : a.2.alloc = b.2.alloc

theorem declare_alike (frame : Frame) (name : String) (entry : Entry) {s s' : State}
    (hs : s.alloc = s'.alloc) :
    PlacedAlike (declare frame name entry s) (declare frame name entry s') := by
  refine ⟨?_, ?_⟩
  · unfold declare
    split <;> rfl
  · rw [declare_alloc, declare_alloc, hs]

theorem place_alike (space : Space) (frame : Frame) (name : String) (ty : Ty) {s s' : State}
    (hs : s.alloc = s'.alloc) :
    PlacedAlike (place space frame name ty s) (place space frame name ty s') := by
  unfold place
  dsimp only
  rw [hs]
  exact declare_alike frame name _ rfl

theorem placeDecl_placeless (space : Space) (frame : Frame) (d : Decl) {s s' : State}
    (hs : s.alloc = s'.alloc) :
    PlacedAlike (placeDecl space frame d s) (placeDecl space frame d.placeless s') := by
  cases d with
  | «variable» _ name ty => exact place_alike space frame name ty hs
  | parameter _ name ty => exact place_alike space frame name ty hs
  | _ => exact ⟨rfl, hs⟩

theorem placeDecls_placeless (space : Space) : ∀ (ds : List Decl) (frame : Frame) {s s' : State},
    s.alloc = s'.alloc → PlacedAlike (placeDecls space frame ds s)
      (placeDecls space frame (Decl.allPlaceless ds) s')
  | [], _, _, _, hs => ⟨rfl, hs⟩
  | d :: ds, frame, s, s', hs => by
      have hfirst := placeDecl_placeless space frame d hs
      have hrest := placeDecls_placeless space ds (placeDecl space frame d s).1 hfirst.alloc
      rw [Decl.allPlaceless, placeDecls, placeDecls, ← hfirst.frame]
      exact hrest

theorem assignment_placeless (Γ : Scope) (target exp : Expr) {s s' : State}
    (hs : s.alloc = s'.alloc) :
    (assignment Γ target exp s).Alike (assignment Γ target.placeless exp.placeless s') := by
  -- an element is stored to, all other targets are moved to
  have hmove : ∀ e : Expr, Lowered.Alike
      ⟨(value Γ e s).code ++ (value Γ exp (value Γ e s).after).code ++
        [.move (value Γ e s).operand (value Γ exp (value Γ e s).after).operand],
        (value Γ exp (value Γ e s).after).after⟩
      ⟨(value Γ e.placeless s').code ++ (value Γ exp.placeless (value Γ e.placeless s').after).code ++
        [.move (value Γ e.placeless s').operand
          (value Γ exp.placeless (value Γ e.placeless s').after).operand],
        (value Γ exp.placeless (value Γ e.placeless s').after).after⟩ := by
    intro e
    have d := value_placeless Γ e hs
    have v := value_placeless Γ exp d.alloc
    rw [d.code, d.operand, v.code, v.operand]
    exact ⟨rfl, v.alloc⟩
  cases target with
  | index _ array i =>
    have a := value_placeless Γ array hs
    have j := value_placeless Γ i a.alloc
    have v := value_placeless Γ exp j.alloc
    simp only [assignment, Expr.placeless]
    rw [a.code, a.operand, j.code, j.operand, v.code, v.operand]
    exact ⟨rfl, v.alloc⟩
  | _ => exact hmove _

theorem returned_placeless (label : String) (Γ : Scope) (exp : Option Expr) {s s' : State}
    (hs : s.alloc = s'.alloc) :
    (returned label Γ exp s).Alike (returned label Γ (exp.map Expr.placeless) s') := by
  cases exp with
  | none => exact ⟨rfl, hs⟩
  | some e =>
    have v := value_placeless Γ e hs
    simp only [returned, Option.map_some]
    rw [v.code, v.operand]
    exact ⟨rfl, v.alloc⟩

theorem effect_placeless (Γ : Scope) (e : Expr) {s s' : State} (hs : s.alloc = s'.alloc) :
    (effect Γ e s).Alike (effect Γ e.placeless s') := by
  unfold effect
  rw [e.isCall_placeless]
  split
  · have v := value_placeless Γ e hs
    exact ⟨v.code, v.alloc⟩
  · exact ⟨rfl, hs⟩

mutual

/-- **The code of a statement does not depend on positions.** -/
theorem stmt_placeless (label : String) (Γ : Scope) : ∀ (st : Stmt) (next : Target)
    {s s' : State}, s.alloc = s'.alloc →
      (stmt label Γ st next s).Alike (stmt label Γ st.placeless next s')
  | .assign _ target exp, _, _, _, hs => assignment_placeless Γ target exp hs
  | .ifThen _ cond body, next, s, s', hs => by
      have c := branch_placeless Γ cond (targets s'.label next) (Modes.afterLabel_eq hs)
      have b := block_placeless label Γ [] body c.alloc
      simp only [stmt, Stmt.placeless]
      rw [Modes.label_eq hs, c.code, b.code]
      exact ⟨rfl, b.alloc⟩
  | .ifElse _ cond yes no, next, s, s', hs => by
      have hs₁ := Modes.afterLabel_eq hs
      have c := branch_placeless Γ cond (targets s'.label (some s'.afterLabel.label))
        (Modes.afterLabel_eq hs₁)
      have a := block_placeless label Γ [] yes c.alloc
      have b := block_placeless label Γ [] no a.alloc
      simp only [stmt, Stmt.placeless]
      rw [Modes.label_eq hs, Modes.label_eq hs₁, c.code, a.code, b.code]
      exact ⟨rfl, b.alloc⟩
  | .whileLoop _ cond body, next, s, s', hs => by
      have hs₁ := Modes.afterLabel_eq hs
      have c := branch_placeless Γ cond (targets s'.afterLabel.label next)
        (Modes.afterLabel_eq hs₁)
      have b := block_placeless label Γ [] body c.alloc
      simp only [stmt, Stmt.placeless]
      rw [Modes.label_eq hs, Modes.label_eq hs₁, c.code, b.code]
      exact ⟨rfl, b.alloc⟩
  | .forLoop _ init cond step body, next, s, s', hs => by
      have hs₁ := Modes.afterLabel_eq hs
      have i := stmt_placeless label Γ init none (Modes.afterLabel_eq hs₁)
      have c := branch_placeless Γ cond (targets s'.afterLabel.label next) i.alloc
      have b := block_placeless label Γ [] body c.alloc
      have n := stmt_placeless label Γ step none b.alloc
      simp only [stmt, Stmt.placeless]
      rw [Modes.label_eq hs, Modes.label_eq hs₁, i.code, c.code, b.code, n.code]
      exact ⟨rfl, n.alloc⟩
  | .call _ e, _, _, _, hs => effect_placeless Γ e hs
  | .ret _ exp, _, _, _, hs => returned_placeless label Γ exp hs
  | .misplaced _, _, _, _, hs | .missing _ _, _, _, _, hs => ⟨rfl, hs⟩

theorem block_placeless (label : String) (Γ : Scope) (frame : Frame) : ∀ (b : Block)
    {s s' : State}, s.alloc = s'.alloc →
      (block label Γ frame b s).Alike (block label Γ frame b.placeless s')
  | .mk _ ds sts, s, s', hs => by
      have hplaced := placeDecls_placeless .local ds frame hs
      simp only [block, Block.placeless]
      rw [← hplaced.frame]
      exact stmts_placeless label _ sts hplaced.alloc

theorem stmts_placeless (label : String) (Γ : Scope) : ∀ (sts : List Stmt) {s s' : State},
    s.alloc = s'.alloc → (stmts label Γ sts s).Alike (stmts label Γ (Stmt.allPlaceless sts) s')
  | [], _, _, hs => ⟨rfl, hs⟩
  | st :: sts, s, s', hs => by
      have first := stmt_placeless label Γ st (some s'.label) (Modes.afterLabel_eq hs)
      have others := stmts_placeless label Γ sts first.alloc
      simp only [stmts, Stmt.allPlaceless]
      rw [Modes.label_eq hs, first.code, others.code]
      exact ⟨rfl, others.alloc⟩

end

/-- The same globals and the same code, and the allocators after it are the same. -/
structure TopAlike (a b : Frame × Lowered) : Prop where
  frame : a.1 = b.1
  lowered : a.2.Alike b.2

theorem function_placeless (globals : Frame) (head : FnHead) (params : List Decl) (tys : List Ty)
    (body : Block) {s s' : State} (hs : s.alloc = s'.alloc) :
    TopAlike (function globals head params tys body s)
      (function globals head.placeless (Decl.allPlaceless params) tys body.placeless s') := by
  simp only [function, FnHead.placeless]
  have hdeclared : PlacedAlike
      (declare globals head.name (.function ⟨head.ret, tys, false⟩)
        { s with alloc := s.alloc.resetFunction })
      (declare globals head.name (.function ⟨head.ret, tys, false⟩)
        { s' with alloc := s'.alloc.resetFunction }) :=
    declare_alike _ _ _ (congrArg Allocator.resetFunction hs)
  revert hdeclared
  generalize declare globals head.name (.function ⟨head.ret, tys, false⟩)
    { s with alloc := s.alloc.resetFunction } = a
  generalize declare globals head.name (.function ⟨head.ret, tys, false⟩)
    { s' with alloc := s'.alloc.resetFunction } = a'
  intro hdeclared
  have hformals : PlacedAlike
      (placeDecls .param [] params
        (a.2.note (.trace (.loweringFunction (codeLabel head.name tys)))))
      (placeDecls .param [] (Decl.allPlaceless params)
        (a'.2.note (.trace (.loweringFunction (codeLabel head.name tys))))) :=
    placeDecls_placeless .param params [] hdeclared.alloc
  have hbody := block_placeless (codeLabel head.name tys) { globals := a.1 }
    (placeDecls .param [] params
      (a.2.note (.trace (.loweringFunction (codeLabel head.name tys))))).1 body hformals.alloc
  rw [← hformals.frame, ← hdeclared.frame, hbody.code, hbody.alloc]
  exact ⟨rfl, rfl, hbody.alloc⟩

theorem decl_placeless (globals : Frame) (d : Decl) {s s' : State} (hs : s.alloc = s'.alloc) :
    TopAlike (decl globals d s) (decl globals d.placeless s') := by
  cases d with
  | «variable» _ name ty =>
    have placed := place_alike .global globals name ty hs
    exact ⟨placed.frame, rfl, placed.alloc⟩
  | prototype head params =>
    simp only [decl, Decl.placeless, Check.paramTypes_placeless]
    split
    · next tys _ =>
      have declared := declare_alike globals head.name (.function ⟨head.ret, tys, true⟩) hs
      exact ⟨declared.frame, rfl, declared.alloc⟩
    · exact ⟨rfl, rfl, hs⟩
  | function head params body =>
    simp only [decl, Decl.placeless, Check.paramTypes_placeless]
    split
    · exact function_placeless globals head params _ body hs
    · exact ⟨rfl, rfl, hs⟩
  | _ => exact ⟨rfl, rfl, hs⟩

theorem decls_placeless : ∀ (ds : List Decl) (globals : Frame) {s s' : State},
    s.alloc = s'.alloc →
      (decls globals ds s).Alike (decls globals (ds.map Decl.placeless) s')
  | [], _, _, _, hs => ⟨rfl, hs⟩
  | d :: ds, globals, s, s', hs => by
      have first := decl_placeless globals d hs
      have others := decls_placeless ds (decl globals d s).1 first.lowered.alloc
      rw [first.frame] at others
      simp only [decls, List.map_cons]
      rw [first.frame, first.lowered.code, others.code]
      exact ⟨rfl, others.alloc⟩

/-- **The code of a program does not depend on positions.** -/
theorem program_code_placeless (p : Program) (s : State) :
    (program p.placeless s).code = (program p s).code := by
  have body := decls_placeless p.decls [] (s := s) rfl
  simp only [program, Program.placeless]
  rw [body.alloc, body.code]

end Lower

end CMinusMinus
