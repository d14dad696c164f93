/-
  File:      CMinusMinus/Proofs/ShiftedCode.lean
  Subject:   Lowering behind earlier work gives the same code, shifted.

  An allocator that has served before has globals, constants and labels given out already. What it
  gives out next is what a new one would, SHIFTED: further on by as many as there were. The slots of
  a function's own spaces are not, since they start again with every function. So two lowerings of
  one program, a new one and one behind any earlier work, take the same steps and make the same code
  up to the shift; the second one puts the constants of the earlier work in front.

  Whether a label is defined behind a statement is decided by looking for its text in the code.
  Shifted code uses a shifted label exactly if the code uses the label, since both jump to it.

  * `Shift`, `Instr.shift` -- code with its globals, constants and labels moved on;
  * `Allocator.Ahead`, `Allocator.InStep` -- an allocator that is ahead of another one by a shift;
  * `Lower.Modes.Shifts`, `Lower.modes_shifts` -- the code of expressions;
  * `Lower.stmt_shifts`, `Lower.block_shifts`, `Lower.decls_shifts` -- statements and declarations;
  * `lowering_shift_invariant` -- **lowering a program behind earlier work**.
-/
import CMinusMinus.Proofs.MappedScopes
import CMinusMinus.Proofs.Phases
import CMinusMinus.Proofs.TidyCode
import Mathlib.Data.List.Forall2

namespace CMinusMinus

/-! ## 1. Shifted code -/

/-- How far globals, constants and labels are moved on. -/
structure Shift where
  globals : Nat
  constants : Nat
  labels : Nat
  deriving DecidableEq, Repr

/-- The shift behind an allocator: what it has given out for good. -/
def Allocator.shift (a : Allocator) : Shift := ⟨a.globals, a.pool.length, a.labels⟩

/-- Globals and constants are moved on, the spaces of functions are not. -/
def Address.shift (σ : Shift) (a : Address) : Address :=
  match a.space with
  | .global => ⟨.global, a.slot + σ.globals⟩
  | .constant => ⟨.constant, a.slot + σ.constants⟩
  | .local | .param | .temporary => a

/-- The operand with its address moved on. -/
def Operand.shift (σ : Shift) : Operand → Operand
  | .absent => .absent
  | .literal n => .literal n
  | .address a => .address (a.shift σ)

/-- The label moved on. -/
def Label.shift (σ : Shift) (l : Label) : Label := ⟨l.number + σ.labels⟩

/-- The target moved on. -/
def Target.shift (σ : Shift) (t : Target) : Target := t.map (Label.shift σ)

/-- The targets moved on. -/
def Targets.shift (σ : Shift) (t : Targets Target) : Targets Target :=
  ⟨t.onTrue.shift σ, t.onFalse.shift σ, t.next.shift σ⟩

/-- **The instruction with its operands and labels moved on.** The code labels of functions and the
    sizes of frames stay; the entry counts the earlier globals, too. -/
def Instr.shift (σ : Shift) : Instr → Instr
  | .string text => .string text
  | .entry name globals => .entry name (globals + σ.globals)
  | .func name => .func name
  | .frame locals temporaries => .frame locals temporaries
  | .endFunc name => .endFunc name
  | .label l => .label (l.shift σ)
  | .move dest source => .move (dest.shift σ) (source.shift σ)
  | .arith op dest left right => .arith op (dest.shift σ) (left.shift σ) (right.shift σ)
  | .load dest base index => .load (dest.shift σ) (base.shift σ) (index.shift σ)
  | .store base index source => .store (base.shift σ) (index.shift σ) (source.shift σ)
  | .jump target => .jump (target.shift σ)
  | .branch test left right target =>
      .branch test (left.shift σ) (right.shift σ) (target.shift σ)
  | .arg value place => .arg (value.shift σ) place
  | .call name args => .call name args
  | .callValue dest name args => .callValue (dest.shift σ) name args
  | .ret name => .ret name
  | .retValue name value => .retValue name (value.shift σ)
  | .read dest => .read (dest.shift σ)
  | .write value => .write (value.shift σ)

/-- The code moved on. -/
def shiftCode (σ : Shift) (code : List Instr) : List Instr := code.map (Instr.shift σ)

section Shifts

variable (σ : Shift)

theorem shiftCode_append (c₁ c₂ : List Instr) :
    shiftCode σ (c₁ ++ c₂) = shiftCode σ c₁ ++ shiftCode σ c₂ := List.map_append

theorem Label.shift_inj {l m : Label} : l.shift σ = m.shift σ ↔ l = m := by
  cases l
  cases m
  simp [Label.shift]

/-- A shifted jump goes to the shifted target. -/
theorem Instr.target?_shift (i : Instr) :
    (i.shift σ).target? = i.target?.map (Target.shift σ) := by
  cases i <;> rfl

theorem Instr.inner_shift {i : Instr} (h : i.Inner) : (i.shift σ).Inner := by
  cases i <;> exact h

theorem Target.shift_injective : Function.Injective (Target.shift σ) :=
  Option.map_injective fun _ _ h => (Label.shift_inj σ).mp h

theorem targetsOf_shift (code : List Instr) :
    targetsOf (shiftCode σ code) = (targetsOf code).map (Target.shift σ) := by
  unfold targetsOf shiftCode
  rw [List.filterMap_map, List.map_filterMap]
  exact List.filterMap_congr fun i _ => i.target?_shift σ

/-- **Shifted code uses a shifted label exactly if the code uses the label.** -/
theorem any_uses_shift {code : List Instr} (h : ∀ i ∈ code, i.Inner) (l : Label) :
    (shiftCode σ code).any (·.uses (l.shift σ)) = code.any (·.uses l) := by
  have hshifted : ∀ i ∈ shiftCode σ code, i.Inner :=
    List.forall_mem_map.mpr fun i hi => Instr.inner_shift σ (h i hi)
  rw [Bool.eq_iff_iff, any_uses_iff hshifted, any_uses_iff h, targetsOf_shift]
  exact List.mem_map_of_injective (Target.shift_injective σ) (a := some l)

/-- The variable with its address moved on. -/
def Variable.shift (v : Variable) : Variable := { v with home := v.home.map (Address.shift σ) }

theorem Variable.shift_ty (v : Variable) : (v.shift σ).ty = v.ty := rfl

end Shifts

/-! ## 2. Allocators and states in step -/

/-- The second allocator has given out for good what the first one has, behind all of the base. -/
structure Allocator.Ahead (base a b : Allocator) : Prop where
  globals : b.globals = a.globals + base.globals
  pool : b.pool = base.pool ++ a.pool
  labels : b.labels = a.labels + base.labels

/-- Within a function: the spaces of the function are filled alike, too. -/
structure Allocator.InStep (base a b : Allocator) : Prop extends Allocator.Ahead base a b where
  locals : b.locals = a.locals
  params : b.params = a.params
  temporaries : b.temporaries = a.temporaries

namespace Allocator

variable {base a b : Allocator}

theorem ahead_base (base : Allocator) : Ahead base {} base where
  globals := (Nat.zero_add _).symm
  pool := (List.append_nil _).symm
  labels := (Nat.zero_add _).symm

theorem Ahead.resetFunction (h : Ahead base a b) : InStep base a.resetFunction b.resetFunction :=
  { h with locals := rfl, params := rfl, temporaries := rfl }

/-- At the top of a program variables are placed among the globals. -/
theorem Ahead.nextAddress (h : Ahead base a b) :
    b.nextAddress .global = (a.nextAddress .global).shift base.shift :=
  congrArg (fun n : Nat => Address.mk .global n) h.globals

theorem Ahead.bump (h : Ahead base a b) : Ahead base (a.bump .global) (b.bump .global) :=
  { h with globals := by simp only [Allocator.bump, h.globals]; omega }

/-- Within a function they are placed in its own spaces. -/
theorem InStep.nextAddress (h : InStep base a b) {space : Space}
    (hspace : space = .local ∨ space = .param) :
    b.nextAddress space = (a.nextAddress space).shift base.shift := by
  obtain rfl | rfl := hspace
  · exact congrArg (fun n : Nat => Address.mk .local n) h.locals
  · exact congrArg (fun n : Nat => Address.mk .param n) h.params

theorem InStep.bump (h : InStep base a b) {space : Space}
    (hspace : space = .local ∨ space = .param) : InStep base (a.bump space) (b.bump space) := by
  obtain rfl | rfl := hspace
  · exact { h with locals := congrArg (· + 1) h.locals }
  · exact { h with params := congrArg (· + 1) h.params }

theorem InStep.newTemporary (h : InStep base a b) :
    InStep base a.newTemporary.2 b.newTemporary.2 :=
  { h with temporaries := congrArg (· + 1) h.temporaries }

theorem InStep.newLabel (h : InStep base a b) : InStep base a.newLabel.2 b.newLabel.2 :=
  { h with labels := by simp only [Allocator.newLabel, h.labels]; omega }

theorem InStep.addConstant_address (h : InStep base a b) (text : String) :
    (b.addConstant text).1 = (a.addConstant text).1.shift base.shift := by
  refine congrArg (Address.mk .constant) ?_
  rw [h.pool, List.length_append, Nat.add_comm]
  rfl

theorem InStep.addConstant (h : InStep base a b) (text : String) :
    InStep base (a.addConstant text).2 (b.addConstant text).2 :=
  { h with pool := by simp only [Allocator.addConstant, addToPool, h.pool, List.append_assoc] }

end Allocator

namespace Lower

/-- Two states whose allocators are related, the second one with a past that is told first. -/
structure State.Follows (past : Journal) (R : Allocator → Allocator → Prop) (s s' : State) :
    Prop where
  alloc : R s.alloc s'.alloc
  journal : s'.journal = past ++ s.journal

/-- The second state is ahead of the first one by what the base has done. -/
abbrev State.Ahead (base s s' : State) : Prop := s.Follows base.journal base.alloc.Ahead s'

/-- The same within a function. -/
abbrev State.InStep (base s s' : State) : Prop := s.Follows base.journal base.alloc.InStep s'

namespace State

section Events

variable {past : Journal} {R : Allocator → Allocator → Prop} {s s' : State}

theorem Follows.note (h : s.Follows past R s') (e : Event) :
    (s.note e).Follows past R (s'.note e) :=
  ⟨h.alloc, by rw [State.note, h.journal, List.append_assoc]; rfl⟩

theorem Follows.fail (h : s.Follows past R s') (f : Fault) :
    (s.fail f).Follows past R (s'.fail f) := h.note (.fault f)

theorem Follows.overhear (h : s.Follows past R s') (j : Journal) :
    (s.overhear j).Follows past R (s'.overhear j) :=
  ⟨h.alloc, by rw [State.overhear, h.journal, List.append_assoc]; rfl⟩

end Events

variable {base s s' : State}

theorem InStep.label (h : InStep base s s') : s'.label = s.label.shift base.alloc.shift :=
  congrArg Label.mk h.alloc.labels

theorem InStep.afterLabel (h : InStep base s s') : InStep base s.afterLabel s'.afterLabel :=
  ⟨h.alloc.newLabel, h.journal⟩

theorem InStep.temporary (h : InStep base s s') :
    s'.temporary = s.temporary.shift base.alloc.shift :=
  congrArg (fun n : Nat => Operand.address ⟨.temporary, n⟩) h.alloc.temporaries

theorem InStep.afterTemporary (h : InStep base s s') :
    InStep base s.afterTemporary s'.afterTemporary := ⟨h.alloc.newTemporary, h.journal⟩

end State

/-! ## 3. Expressions -/

/-- Shifted code and a shifted operand, and the states after them are in step. -/
structure Emitted.Shifts (base : State) (a b : Emitted) : Prop where
  code : b.code = shiftCode base.alloc.shift a.code
  operand : b.operand = a.operand.shift base.alloc.shift
  after : base.InStep a.after b.after

/-- Shifted code, and the states after it are in step. -/
structure Lowered.Shifts (base : State) (a b : Lowered) : Prop where
  code : b.code = shiftCode base.alloc.shift a.code
  after : base.InStep a.after b.after

/-- **Both modes give shifted code** from states in step, the branch to shifted targets. -/
structure Modes.Shifts (base : State) (m m' : Modes) : Prop where
  value : ∀ {s s' : State}, base.InStep s s' → (m.value s).Shifts base (m'.value s')
  branch : ∀ (t : Targets Target) {s s' : State}, base.InStep s s' →
    (m.branch t s).Shifts base (m'.branch (t.shift base.alloc.shift) s')

namespace Modes

variable {base : State}

theorem shifts_ofValue {value value' : State → Emitted}
    (h : ∀ {s s' : State}, base.InStep s s' → (value s).Shifts base (value' s')) :
    (ofValue value).Shifts base (ofValue value') where
  value := h
  branch t s s' hs := by
    have hv := h hs
    refine ⟨?_, hv.after⟩
    simp only [ofValue, test, hv.code, hv.operand, shiftCode_append]
    rfl

theorem shifts_ofBranch {branch branch' : Targets Target → State → Lowered}
    (h : ∀ (t : Targets Target) {s s' : State}, base.InStep s s' →
      (branch t s).Shifts base (branch' (t.shift base.alloc.shift) s')) :
    (ofBranch branch).Shifts base (ofBranch branch') where
  value {s s'} hs := by
    have hs₀ := hs.afterTemporary
    have hs₁ := hs₀.afterLabel
    have hs₂ := hs₁.afterLabel
    have hb := h ⟨some s.afterTemporary.label, some s.afterTemporary.afterLabel.label, none⟩
      hs₂.afterLabel
    unfold ofBranch materialise
    dsimp only
    rw [hs.temporary, hs₀.label, hs₁.label, hs₂.label]
    refine ⟨?_, rfl, hb.after⟩
    simp only [shiftCode_append, ← hb.code]
    rfl
  branch := h

theorem shifts_ofOperand {v v' : Operand} (h : v' = v.shift base.alloc.shift) :
    (ofOperand v).Shifts base (ofOperand v') :=
  shifts_ofValue fun hs => ⟨rfl, h, hs⟩

theorem shifts_ofFault (f : Fault) : (ofFault f).Shifts base (ofFault f) :=
  shifts_ofValue fun hs => ⟨rfl, rfl, hs.fail f⟩

theorem shifts_constant (text : String) : (constant text).Shifts base (constant text) :=
  shifts_ofValue fun hs => ⟨rfl, congrArg Operand.address (hs.alloc.addConstant_address text),
    hs.alloc.addConstant text, hs.journal⟩

theorem shifts_ofVar (Γ : Scope) (name : String) :
    (ofVar Γ name).Shifts base (ofVar (Γ.mapVars (Variable.shift base.alloc.shift)) name) := by
  unfold ofVar
  rw [Scope.mapVars_soundVar? (Variable.shift_ty _)]
  cases Γ.soundVar? name with
  | none => exact shifts_ofFault _
  | some v =>
    refine shifts_ofOperand ?_
    rcases v with ⟨ty, home⟩
    cases home <;> rfl

section Operators

variable {left left' right right' operand operand' : Modes}

theorem Shifts.compute (hl : left.Shifts base left') (hr : right.Shifts base right')
    {instr : Operand → Operand → Operand → Instr}
    (hinstr : ∀ d l r, (instr d l r).shift base.alloc.shift = instr (d.shift base.alloc.shift)
      (l.shift base.alloc.shift) (r.shift base.alloc.shift)) :
    (compute left right instr).Shifts base (compute left' right' instr) := by
  refine shifts_ofValue fun hs => ?_
  have l := hl.value hs
  have r := hr.value l.after
  refine ⟨?_, r.after.temporary, r.after.afterTemporary⟩
  simp only [l.code, l.operand, r.code, r.operand, r.after.temporary, shiftCode_append]
  simp only [shiftCode, List.map_cons, hinstr, List.map_nil]

theorem Shifts.negative (h : operand.Shifts base operand') :
    (negative operand).Shifts base (negative operand') := by
  refine shifts_ofValue fun hs => ?_
  have v := h.value hs
  refine ⟨?_, v.after.temporary, v.after.afterTemporary⟩
  simp only [v.code, v.operand, v.after.temporary, shiftCode_append]
  rfl

theorem Shifts.unknown (hl : left.Shifts base left') (hr : right.Shifts base right')
    (text : String) : (unknown left right text).Shifts base (unknown left' right' text) :=
  shifts_ofValue fun hs => ⟨rfl, rfl, (hr.value (hl.value hs).after).after.fail _⟩

theorem Shifts.compare (op : RelOp) (hl : left.Shifts base left')
    (hr : right.Shifts base right') :
    (compare op left right).Shifts base (compare op left' right') := by
  refine shifts_ofBranch fun t {s s'} hs => ?_
  have l := hl.value hs
  have r := hr.value l.after
  refine ⟨?_, r.after⟩
  simp only [l.code, l.operand, r.code, r.operand, shiftCode_append]
  cases op <;> rfl

theorem Shifts.conjunction (hl : left.Shifts base left') (hr : right.Shifts base right') :
    (conjunction left right).Shifts base (conjunction left' right') := by
  refine shifts_ofBranch fun t {s s'} hs => ?_
  have l := hl.branch ⟨some s.label, t.onFalse, none⟩ hs.afterLabel
  have r := hr.branch ⟨t.onTrue, t.onFalse, none⟩ l.after
  dsimp only
  rw [hs.label]
  refine ⟨?_, r.after⟩
  simp only [shiftCode_append, ← l.code, ← r.code]
  rfl

theorem Shifts.disjunction (hl : left.Shifts base left') (hr : right.Shifts base right') :
    (disjunction left right).Shifts base (disjunction left' right') := by
  refine shifts_ofBranch fun t {s s'} hs => ?_
  have l := hl.branch ⟨t.onTrue, some s.label, none⟩ hs.afterLabel
  have r := hr.branch ⟨t.onTrue, t.onFalse, none⟩ l.after
  dsimp only
  rw [hs.label]
  refine ⟨?_, r.after⟩
  simp only [shiftCode_append, ← l.code, ← r.code]
  rfl

theorem Shifts.negation (h : operand.Shifts base operand') :
    (negation operand).Shifts base (negation operand') :=
  shifts_ofBranch fun t {_ _} hs => h.branch t.swap hs

theorem Shifts.unary (op : UnaryOp) (h : operand.Shifts base operand') :
    (unary op operand).Shifts base (unary op operand') := by
  cases op with
  | neg => exact h.negative
  | not => exact h.negation
  | _ => exact shifts_ofValue h.value

theorem Shifts.binary (op : BinaryOp) (hl : left.Shifts base left')
    (hr : right.Shifts base right') :
    (binary op left right).Shifts base (binary op left' right') := by
  cases op with
  | arith op => exact hl.compute hr fun _ _ _ => rfl
  | rel op => exact hl.compare op hr
  | and => exact hl.conjunction hr
  | or => exact hl.disjunction hr
  | other text => exact hl.unknown hr text

end Operators

section Calls

variable {args args' : List Modes} (hargs : List.Forall₂ (Shifts base) args args')

include hargs

theorem shifts_sequence {s s' : State} (hs : base.InStep s s') :
    (sequence args' s').1 = shiftCode base.alloc.shift (sequence args s).1 ∧
      (sequence args' s').2.1 = (sequence args s).2.1.map (Operand.shift base.alloc.shift) ∧
      base.InStep (sequence args s).2.2 (sequence args' s').2.2 := by
  induction hargs generalizing s s' with
  | nil => exact ⟨rfl, rfl, hs⟩
  | @cons m _ ms _ h _ ih =>
    have v := h.value hs
    obtain ⟨hcode, hlast, hafter⟩ := ih v.after
    simp only [sequence, v.code, v.operand, hcode, hlast, shiftCode_append]
    refine ⟨trivial, ?_, hafter⟩
    cases (sequence ms (m.value s).after).2.1 <;> rfl

theorem shifts_systemCall (name : String) :
    (systemCall name args).Shifts base (systemCall name args') := by
  refine shifts_ofValue fun {s s'} hs => ?_
  obtain ⟨hcode, hlast, hafter⟩ := shifts_sequence hargs hs
  refine ⟨?_, rfl, hafter⟩
  dsimp only
  rw [hcode, hlast, shiftCode_append]
  cases (sequence args s).2.1 with
  | none => rfl
  | some v =>
    dsimp only [Option.map_some]
    split <;> rfl

theorem shifts_handOver (place : Nat) {s s' : State} (hs : base.InStep s s') :
    (handOver place args s).Shifts base (handOver place args' s') := by
  induction hargs generalizing place s s' with
  | nil => exact ⟨rfl, hs⟩
  | cons h _ ih =>
    have v := h.value hs
    have others := ih (place + 1) v.after
    refine ⟨?_, others.after⟩
    simp only [handOver, v.code, v.operand, others.code, shiftCode_append]
    rfl

theorem shifts_functionCall (Γ : Scope) (name : String) (types : Check.Verdicts) :
    (functionCall Γ name types args).Shifts base
      (functionCall (Γ.mapVars (Variable.shift base.alloc.shift)) name types args') := by
  refine shifts_ofValue fun {s s'} hs => ?_
  dsimp only
  rw [Scope.mapVars_function?]
  have heard := State.Follows.overhear hs types.journal
  cases Γ.function? name types.tys with
  | none => exact ⟨rfl, rfl, heard.fail _⟩
  | some f =>
    have given := shifts_handOver hargs 0 heard
    dsimp only
    rw [← hargs.length_eq]
    split
    · refine ⟨?_, rfl, given.after⟩
      rw [given.code, shiftCode_append]
      rfl
    · refine ⟨?_, given.after.temporary, given.after.afterTemporary⟩
      rw [given.code, given.after.temporary, shiftCode_append]
      rfl

theorem shifts_call (Γ : Scope) (name : String) (types : Check.Verdicts) :
    (call Γ name types args).Shifts base
      (call (Γ.mapVars (Variable.shift base.alloc.shift)) name types args') := by
  unfold call
  split
  · exact shifts_systemCall hargs name
  · exact shifts_functionCall hargs Γ name types

end Calls

end Modes

mutual

/-- **The code of an expression is shifted**, in a scope with shifted addresses. -/
theorem modes_shifts (base : State) (Γ : Scope) : ∀ e : Expr,
    (modes Γ e).Shifts base (modes (Γ.mapVars (Variable.shift base.alloc.shift)) e)
  | .int _ n => Modes.shifts_ofOperand rfl
  | .str _ text => Modes.shifts_constant text
  | .var _ name => Modes.shifts_ofVar Γ name
  | .index _ array i =>
      (modes_shifts base Γ array).compute (modes_shifts base Γ i) fun _ _ _ => rfl
  | .call _ name args => by
      rw [modes, modes, Check.typesOf_mapVars (Variable.shift_ty _)]
      exact Modes.shifts_call (modesOf_shifts base Γ args) Γ name _
  | .unary _ op e => (modes_shifts base Γ e).unary op
  | .binary _ op l r => (modes_shifts base Γ l).binary op (modes_shifts base Γ r)
  | .nameless _ _ | .misplaced _ => Modes.shifts_ofFault _

theorem modesOf_shifts (base : State) (Γ : Scope) : ∀ es : List Expr,
    List.Forall₂ (Modes.Shifts base) (modesOf Γ es)
      (modesOf (Γ.mapVars (Variable.shift base.alloc.shift)) es)
  | [] => .nil
  | e :: es => .cons (modes_shifts base Γ e) (modesOf_shifts base Γ es)

end

section Values

variable {base : State} (Γ : Scope) {s s' : State} (hs : base.InStep s s')

include hs

theorem value_shifts (e : Expr) : (value Γ e s).Shifts base
    (value (Γ.mapVars (Variable.shift base.alloc.shift)) e s') := (modes_shifts base Γ e).value hs

theorem branch_shifts (e : Expr) (t : Targets Target) : (branch Γ e t s).Shifts base
    (branch (Γ.mapVars (Variable.shift base.alloc.shift)) e (t.shift base.alloc.shift) s') :=
  (modes_shifts base Γ e).branch t hs

end Values

/-! ## 4. Declarations -/

/-- A frame with shifted addresses, and the states after it are related. -/
structure PlacedShifts (σ : Shift) (past : Journal) (R : Allocator → Allocator → Prop)
    (a b : Frame × State) : Prop where
  frame : b.1 = Frame.mapVars (Variable.shift σ) a.1
  after : a.2.Follows past R b.2

section Declaring

variable (σ : Shift) {past : Journal} {R : Allocator → Allocator → Prop} {s s' : State}

theorem declarationTrace_shift (frame : Frame) (name : String) (entry : Entry) :
    Check.declarationTrace (Frame.mapVars (Variable.shift σ) frame) name
      (entry.mapVar (Variable.shift σ)) = Check.declarationTrace frame name entry := by
  cases entry with
  | «variable» v => rfl
  | function f =>
    simp only [Entry.mapVar, Check.declarationTrace, Frame.mapVars_function?]

theorem declare_shifts (frame : Frame) (name : String) (entry : Entry)
    (hs : s.Follows past R s') : PlacedShifts σ past R (declare frame name entry s)
      (declare (Frame.mapVars (Variable.shift σ) frame) name
        (entry.mapVar (Variable.shift σ)) s') := by
  unfold declare
  rw [Frame.mapVars_add, declarationTrace_shift]
  cases frame.add name entry with
  | error d => exact ⟨rfl, hs.fail _⟩
  | ok frame' => exact ⟨rfl, hs.note _⟩

/-- A variable is placed alike where the next addresses are alike. -/
theorem place_shifts {space : Space} (frame : Frame) (name : String) (ty : Ty)
    (hs : s.Follows past R s')
    (hhome : s'.alloc.nextAddress space = (s.alloc.nextAddress space).shift σ)
    (hbump : R (s.alloc.bump space) (s'.alloc.bump space)) :
    PlacedShifts σ past R (place space frame name ty s)
      (place space (Frame.mapVars (Variable.shift σ) frame) name ty s') := by
  unfold place
  dsimp only
  rw [hhome]
  exact declare_shifts σ frame name (.variable ⟨ty, some (s.alloc.nextAddress space)⟩)
    ⟨hbump, hs.journal⟩

end Declaring

section Placing

variable {base : State} {space : Space} (hspace : space = .local ∨ space = .param)

include hspace

theorem placeDecl_shifts (frame : Frame) (d : Decl) {s s' : State} (hs : base.InStep s s') :
    PlacedShifts base.alloc.shift base.journal base.alloc.InStep (placeDecl space frame d s)
      (placeDecl space (Frame.mapVars (Variable.shift base.alloc.shift) frame) d s') := by
  have hplace : ∀ name ty, PlacedShifts base.alloc.shift base.journal base.alloc.InStep
      (place space frame name ty s)
      (place space (Frame.mapVars (Variable.shift base.alloc.shift) frame) name ty s') :=
    fun name ty => place_shifts _ frame name ty hs (hs.alloc.nextAddress hspace)
      (hs.alloc.bump hspace)
  cases d with
  | «variable» _ name ty => exact hplace name ty
  | parameter _ name ty => exact hplace name ty
  | _ => exact ⟨rfl, hs.fail _⟩

/-- **The declarations of a block or a parameter list** are placed in step. -/
theorem placeDecls_shifts : ∀ (ds : List Decl) (frame : Frame) {s s' : State},
    base.InStep s s' →
      PlacedShifts base.alloc.shift base.journal base.alloc.InStep (placeDecls space frame ds s)
        (placeDecls space (Frame.mapVars (Variable.shift base.alloc.shift) frame) ds s')
  | [], _, _, _, hs => ⟨rfl, hs⟩
  | d :: ds, frame, s, s', hs => by
      have first := placeDecl_shifts hspace frame d hs
      rw [placeDecls, placeDecls, first.frame]
      exact placeDecls_shifts ds _ first.after

end Placing

/-! ## 5. Statements -/

section Clauses

variable {base : State} (Γ : Scope) {s s' : State} (hs : base.InStep s s')

include hs

theorem assignment_shifts (target exp : Expr) : (assignment Γ target exp s).Shifts base
    (assignment (Γ.mapVars (Variable.shift base.alloc.shift)) target exp s') := by
  -- an element is stored to, all other targets are moved to
  unfold assignment
  split
  · next array i =>
    have a := value_shifts Γ hs array
    have j := value_shifts Γ a.after i
    have v := value_shifts Γ j.after exp
    refine ⟨?_, v.after⟩
    simp only [a.code, a.operand, j.code, j.operand, v.code, v.operand, shiftCode_append]
    rfl
  · have d := value_shifts Γ hs target
    have v := value_shifts Γ d.after exp
    refine ⟨?_, v.after⟩
    simp only [d.code, d.operand, v.code, v.operand, shiftCode_append]
    rfl

theorem returned_shifts (label : String) (exp : Option Expr) :
    (returned label Γ exp s).Shifts base
      (returned label (Γ.mapVars (Variable.shift base.alloc.shift)) exp s') := by
  cases exp with
  | none => exact ⟨rfl, hs⟩
  | some e =>
    have v := value_shifts Γ hs e
    refine ⟨?_, v.after⟩
    simp only [returned, v.code, v.operand, shiftCode_append]
    rfl

theorem effect_shifts (e : Expr) : (effect Γ e s).Shifts base
    (effect (Γ.mapVars (Variable.shift base.alloc.shift)) e s') := by
  unfold effect
  split
  · have v := value_shifts Γ hs e
    exact ⟨v.code, v.after⟩
  · exact ⟨rfl, hs.fail _⟩

end Clauses

mutual

/-- **The code of a statement is shifted**, and it goes on to a shifted target. -/
theorem stmt_shifts {base : State} {label : String} (hlabel : IsCodeLabel label) (Γ : Scope) :
    ∀ (st : Stmt) (next : Target) {s s' : State}, st.Proper → base.InStep s s' →
      (stmt label Γ st next s).Shifts base
        (stmt label (Γ.mapVars (Variable.shift base.alloc.shift)) st
          (next.shift base.alloc.shift) s')
  | .assign _ target exp, _, _, _, _, hs => assignment_shifts Γ hs target exp
  | .ifThen _ cond body, next, s, s', hst, hs => by
      have c := branch_shifts Γ hs.afterLabel cond (targets s.label next)
      have b := block_shifts hlabel Γ [] body hst.2 c.after
      simp only [stmt, hs.label]
      refine ⟨?_, b.after⟩
      simp only [shiftCode_append, ← c.code, ← b.code]
      rfl
  | .ifElse _ cond yes no, next, s, s', hst, hs => by
      have hs₁ := hs.afterLabel
      have c := branch_shifts Γ hs₁.afterLabel cond (targets s.label (some s.afterLabel.label))
      have a := block_shifts hlabel Γ [] yes hst.2.1 c.after
      have b := block_shifts hlabel Γ [] no hst.2.2 a.after
      simp only [stmt, hs.label, hs₁.label]
      refine ⟨?_, b.after⟩
      simp only [shiftCode_append, ← c.code, ← a.code, ← b.code]
      rfl
  | .whileLoop _ cond body, next, s, s', hst, hs => by
      have hs₁ := hs.afterLabel
      have c := branch_shifts Γ hs₁.afterLabel cond (targets s.afterLabel.label next)
      have b := block_shifts hlabel Γ [] body hst.2 c.after
      simp only [stmt, hs.label, hs₁.label]
      refine ⟨?_, b.after⟩
      simp only [shiftCode_append, ← c.code, ← b.code]
      rfl
  | .forLoop _ init cond step body, next, s, s', hst, hs => by
      have hs₁ := hs.afterLabel
      have i := stmt_shifts hlabel Γ init none hst.1.proper hs₁.afterLabel
      have c := branch_shifts Γ i.after cond (targets s.afterLabel.label next)
      have b := block_shifts hlabel Γ [] body hst.2.2.2 c.after
      have n := stmt_shifts hlabel Γ step none hst.2.2.1.proper b.after
      simp only [stmt, hs.label, hs₁.label]
      refine ⟨?_, n.after⟩
      simp only [shiftCode_append, ← i.code, ← c.code, ← b.code, ← n.code]
      rfl
  | .call _ e, _, _, _, _, hs => effect_shifts Γ hs e
  | .ret _ exp, _, _, _, _, hs => returned_shifts Γ hs label exp
  | .misplaced _, _, _, _, hst, _ => hst.elim
  | .missing _ _, _, _, _, hst, _ => hst.elim

theorem block_shifts {base : State} {label : String} (hlabel : IsCodeLabel label) (Γ : Scope)
    (frame : Frame) : ∀ (b : Block) {s s' : State}, b.Proper → base.InStep s s' →
      (block label Γ frame b s).Shifts base
        (block label (Γ.mapVars (Variable.shift base.alloc.shift))
          (Frame.mapVars (Variable.shift base.alloc.shift) frame) b s')
  | .mk _ ds sts, s, s', hb, hs => by
      have placed := placeDecls_shifts (.inl rfl) ds frame hs
      simp only [block]
      rw [placed.frame]
      exact stmts_shifts hlabel _ sts hb.2 placed.after

theorem stmts_shifts {base : State} {label : String} (hlabel : IsCodeLabel label) (Γ : Scope) :
    ∀ (sts : List Stmt) {s s' : State}, Stmt.AllProper sts → base.InStep s s' →
      (stmts label Γ sts s).Shifts base
        (stmts label (Γ.mapVars (Variable.shift base.alloc.shift)) sts s')
  | [], _, _, _, hs => ⟨rfl, hs⟩
  | st :: sts, s, s', hsts, hs => by
      have first := stmt_shifts hlabel Γ st (some s.label) hsts.1 hs.afterLabel
      have others := stmts_shifts hlabel Γ sts hsts.2 first.after
      have hinner := (stmt_tidy hlabel Γ st hsts.1 (some s.label) s.afterLabel).inner
      -- the label behind the statement is defined in both codes or in neither
      have hmark := any_uses_shift base.alloc.shift hinner s.label
      rw [← first.code] at hmark
      simp only [stmts, hs.label]
      refine ⟨?_, others.after⟩
      change _ ++ (if (stmt _ _ _ (Target.shift _ (some s.label)) _).code.any _ then _ else _) ++ _
        = _
      rw [hmark, shiftCode_append, shiftCode_append, ← first.code, ← others.code]
      split <;> rfl

end

/-! ## 6. Programs -/

/-- At the top of a program: shifted globals and shifted code, and the second state stays ahead. -/
structure TopShifts (base : State) (a b : Frame × Lowered) : Prop where
  frame : b.1 = Frame.mapVars (Variable.shift base.alloc.shift) a.1
  code : b.2.code = shiftCode base.alloc.shift a.2.code
  after : base.Ahead a.2.after b.2.after

/-- The body of a function, behind the declaration of its name and of its parameters. -/
theorem functionBody_shifts {base : State} {label : String} (hlabel : IsCodeLabel label)
    (params : List Decl) {body : Block} (hbody : body.Proper) {a a' : Frame × State}
    (h : PlacedShifts base.alloc.shift base.journal base.alloc.InStep a a') (e : Event) :
    let formals := placeDecls .param [] params (a.2.note e)
    let formals' := placeDecls .param [] params (a'.2.note e)
    (block label { globals := a.1 } formals.1 body formals.2).Shifts base
      (block label { globals := a'.1 } formals'.1 body formals'.2) := by
  intro formals formals'
  have placed := placeDecls_shifts (.inr rfl) params [] (h.after.note e)
  have b := block_shifts hlabel { globals := a.1 } formals.1 body hbody placed.after
  rw [← placed.frame] at b
  rw [h.frame]
  exact b

/-- **A function starts its own spaces again**, so its code is shifted and its frame is not. -/
theorem function_shifts {base : State} (globals : Frame) {head : FnHead} (params : List Decl)
    (tys : List Ty) {body : Block} {s s' : State} (hhead : head.Proper) (hbody : body.Proper)
    (hs : base.Ahead s s') :
    TopShifts base (function globals head params tys body s)
      (function (Frame.mapVars (Variable.shift base.alloc.shift) globals) head params tys body
        s') := by
  have hstart : base.InStep { s with alloc := s.alloc.resetFunction }
      { s' with alloc := s'.alloc.resetFunction } := ⟨hs.alloc.resetFunction, hs.journal⟩
  have declared := declare_shifts base.alloc.shift globals head.name
    (.function ⟨head.ret, tys, false⟩) hstart
  have b := functionBody_shifts (isCodeLabel_codeLabel hhead.name tys) params hbody declared
    (.trace (.loweringFunction (codeLabel head.name tys)))
  refine ⟨declared.frame, ?_, b.after.alloc.toAhead, b.after.journal⟩
  have hlocals := b.after.alloc.locals
  have htemporaries := b.after.alloc.temporaries
  have hcode := b.code
  dsimp only [Entry.mapVar] at hlocals htemporaries hcode
  simp only [function, hlocals, htemporaries, hcode, shiftCode_append]
  rfl

theorem decl_shifts {base : State} (globals : Frame) {d : Decl} (hd : d.Proper) {s s' : State}
    (hs : base.Ahead s s') :
    TopShifts base (decl globals d s)
      (decl (Frame.mapVars (Variable.shift base.alloc.shift) globals) d s') := by
  cases hd with
  | var h =>
    cases h with
    | @mk _ name ty _ _ =>
      have placed := place_shifts base.alloc.shift globals name ty hs hs.alloc.nextAddress
        hs.alloc.bump
      exact ⟨placed.frame, rfl, placed.after⟩
  | @prototype head params _ _ =>
    simp only [decl]
    split
    · next tys _ =>
      have declared := declare_shifts base.alloc.shift globals head.name
        (.function ⟨head.ret, tys, true⟩) hs
      exact ⟨declared.frame, rfl, declared.after⟩
    · exact ⟨rfl, rfl, hs.fail _⟩
  | @function head params body hhead _ hbody =>
    simp only [decl]
    split
    · exact function_shifts globals params _ hhead hbody hs
    · exact ⟨rfl, rfl, hs.fail _⟩

/-- **The code of declarations is shifted.** -/
theorem decls_shifts {base : State} : ∀ (ds : List Decl) (globals : Frame) {s s' : State},
    (∀ d ∈ ds, d.Proper) → base.Ahead s s' →
      (decls (Frame.mapVars (Variable.shift base.alloc.shift) globals) ds s').code =
          shiftCode base.alloc.shift (decls globals ds s).code ∧
        base.Ahead (decls globals ds s).after
          (decls (Frame.mapVars (Variable.shift base.alloc.shift) globals) ds s').after
  | [], _, _, _, _, hs => ⟨rfl, hs⟩
  | d :: ds, globals, s, s', hds, hs => by
      obtain ⟨hd, hrest⟩ := List.forall_mem_cons.mp hds
      have first := decl_shifts globals hd hs
      obtain ⟨hcode, hafter⟩ := decls_shifts ds (decl globals d s).1 hrest first.after
      rw [← first.frame] at hcode hafter
      refine ⟨?_, hafter⟩
      simp only [decls, first.code, hcode, shiftCode_append]

/-- Lowering has code for a program exactly if it meets no fault. -/
theorem result_eq_ok_iff {p : Program} {s after : State} {code : List Instr} :
    result p s = .ok (code, after) ↔ (program p s).code = code ∧ (program p s).after = after ∧
      after.journal.Faultless := by
  rw [Journal.faultless_iff]
  unfold result
  dsimp only
  constructor
  · intro h
    split at h
    · cases h
    · next hfault =>
      cases h
      exact ⟨rfl, rfl, hfault⟩
  · rintro ⟨rfl, rfl, hfault⟩
    rw [hfault]

/-- A proper program behind earlier work: the earlier constants, then the code of a new lowering,
    shifted. -/
theorem program_shifts {p : Program} (hp : p.Proper) (s : State) :
    (program p s).code =
        s.alloc.pool.map .string ++ shiftCode s.alloc.shift (program p {}).code ∧
      (program p s).after.journal = s.journal ++ (program p {}).after.journal := by
  have hstart : s.Ahead {} s := ⟨Allocator.ahead_base s.alloc, (List.append_nil _).symm⟩
  obtain ⟨hcode, hafter⟩ := decls_shifts p.decls [] hp hstart
  refine ⟨?_, hafter.journal⟩
  have hpool := hafter.alloc.pool
  have hglobals := hafter.alloc.globals
  change (decls [] p.decls s).code = _ at hcode
  change (decls [] p.decls s).after.alloc.pool = _ at hpool
  change (decls [] p.decls s).after.alloc.globals = _ at hglobals
  -- the strings of the new constants hold no address, so they stay as they are
  have hstrings : shiftCode s.alloc.shift ((decls [] p.decls {}).after.alloc.pool.map .string) =
      (decls [] p.decls {}).after.alloc.pool.map .string := List.map_map
  simp only [program, hcode, hpool, hglobals, shiftCode_append, hstrings, List.map_append,
    List.append_assoc]
  rfl

/-- A program that a new lowering has code for has code behind earlier work, too. -/
theorem result_shifts {p : Program} (hp : p.Proper) {code : List Instr} {after : State}
    (h : result p {} = .ok (code, after)) {s : State} (hs : s.journal.Faultless) :
    ∃ after', result p s =
      .ok (s.alloc.pool.map .string ++ shiftCode s.alloc.shift code, after') := by
  obtain ⟨rfl, rfl, hnew⟩ := result_eq_ok_iff.mp h
  obtain ⟨hcode, hjournal⟩ := program_shifts hp s
  refine ⟨(program p s).after, result_eq_ok_iff.mpr ⟨hcode, rfl, ?_⟩⟩
  rw [hjournal]
  exact Journal.faultless_append.mpr ⟨hs, hnew⟩

end Lower

/-- **Lowering is shift-invariant.** Let a new lowering have code for a program that was read from
    well-spelled tokens. Then from every state, whatever its allocator has given out, lowering has
    code, too: the earlier constants, then the code of the new lowering with its globals, constants
    and labels moved on and its entry counting the earlier globals. So it is behind the program
    itself. -/
theorem lowering_shift_invariant {tokens : List Token} {p : Program}
    (hspelled : ∀ t ∈ tokens, t.WellSpelled) (hread : Parse.program tokens = .ok p)
    {code : List Instr} {after : Lower.State} (h : Lower.result p {} = .ok (code, after)) :
    (∀ s : Lower.State, s.journal.Faultless → ∃ after', Lower.result p s =
      .ok (s.alloc.pool.map .string ++ shiftCode s.alloc.shift code, after')) ∧
    ∃ after', Lower.result p after =
      .ok (after.alloc.pool.map .string ++ shiftCode after.alloc.shift code, after') := by
  have hp := Parse.parse_proper hspelled hread
  exact ⟨fun _ hs => Lower.result_shifts hp h hs,
    Lower.result_shifts hp h (Lower.result_eq_ok_iff.mp h).2.2⟩

/-- A loop with a global and a constant. -/
def tally : String :=
  "int total; void main() \x7b while (total < 3) \x7b printf(\"up\"); total = total + 1; \x7d \x7d"

/-- Its code behind so many globals, constants and labels. -/
def tallyCode (globals constants labels : Nat) : List Instr :=
  let total : Operand := .address ⟨.global, globals⟩
  let sum : Operand := .address ⟨.temporary, 0⟩
  [.string "\"up\"", .entry "main" (globals + 1), .func "main", .frame 0 1, .label ⟨labels + 1⟩,
    .branch .lt total (.literal 3) (some ⟨labels + 2⟩), .jump (some ⟨labels⟩),
    .label ⟨labels + 2⟩, .write (.address ⟨.constant, constants⟩),
    .arith .add sum total (.literal 1), .move total sum, .jump (some ⟨labels + 1⟩),
    .label ⟨labels⟩, .endFunc "main"]

/-- A state behind other work. -/
def busyState : Lower.State :=
  { alloc :=
      { globals := 2, locals := 3, temporaries := 7, labels := 9, pool := ["\"a\"", "\"b\""] } }

theorem lowering_shift_invariant_tally :
    ∃ p after, Program.ofSource? tally.toList = some p ∧
      Lower.result p {} = .ok (tallyCode 0 0 0, after) ∧
      (∃ after', Lower.result p busyState =
        .ok ([.string "\"a\"", .string "\"b\""] ++ tallyCode 2 2 9, after')) ∧
      ∃ after', Lower.result p after = .ok ([.string "\"up\""] ++ tallyCode 1 1 5, after') := by
  have hsource : ∃ p, Program.ofSource? tally.toList = some p ∧
      (Lower.result p {}).toOption.any
        (fun r => decide (r.1 = tallyCode 0 0 0 ∧ r.2.alloc.pool = ["\"up\""] ∧
          r.2.alloc.shift = ⟨1, 1, 5⟩)) = true := by
    set_option maxRecDepth 2000 in
    exact Program.exists_of_text rfl (by decide +kernel)
  obtain ⟨p, hp, hresult⟩ := hsource
  obtain ⟨⟨code, after⟩, hok, hafter⟩ := (Option.any_eq_true _ _).mp hresult
  obtain ⟨rfl, hpool, hshift⟩ := of_decide_eq_true hafter
  obtain ⟨s, hscan, hread⟩ := Program.exists_scan_of_source hp
  obtain ⟨hbusy, after', hagain⟩ :=
    lowering_shift_invariant (scan_wellSpelled hscan) hread (ok_of_toOption hok)
  refine ⟨p, after, hp, ok_of_toOption hok, hbusy busyState Journal.faultless_nil, after', ?_⟩
  dsimp only at hpool hshift
  rw [hpool, hshift] at hagain
  exact hagain

end CMinusMinus
