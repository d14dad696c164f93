/-
  File:      CMinusMinus/Proofs/Marks.lean
  Subject:   Calls, returns and missing values: what a body says and what its code shows.

  Three things of a body can be read off its code, in order: the functions that it calls, its
  returns, and the places where a value is asked for that a call does not leave behind (a GAP). For
  the source, calls are resolved in the checker's scope, by the types of their arguments; for the
  code, a call shows the label, the number of arguments and whether it leaves a value. Both sides
  say the same.

  * `Mark`, `marksOf` -- the marks that code shows;
  * `Expr.callee?`, `Expr.marks`, `Stmt.marks`, `Block.marks` -- the marks that a body makes;
  * `Lower.modes_shows`, `Lower.block_marks` -- the code of a well-typed body shows its marks.
-/
import CMinusMinus.Proofs.FunctionSites

namespace CMinusMinus

/-! ## 1. Marks of code -/

/-- A call, a return with or without a value, or a value asked for that is not there. -/
inductive Mark (κ : Type) where
  | call (callee : κ)
  | back (valued : Bool)
  | gap
  deriving DecidableEq

namespace Mark

variable {κ κ' : Type}

/-- The mark with another reading of what is called. -/
def map (f : κ → κ') : Mark κ → Mark κ'
  | .call callee => .call (f callee)
  | .back valued => .back valued
  | .gap => .gap

/-- What is called, if the mark is a call. -/
def callee? : Mark κ → Option κ
  | .call callee => some callee
  | _ => none

/-- Whether a value is returned, if the mark is a return. -/
def valued? : Mark κ → Option Bool
  | .back valued => some valued
  | _ => none

end Mark

/-- What code shows of a call. -/
structure Called where
  label : String
  args : Nat
  /-- It leaves a value behind. -/
  valued : Bool
  deriving DecidableEq

/-- A gap where the operand is absent. -/
def Operand.gap : Operand → List (Mark Called)
  | .absent => [.gap]
  | _ => []

/-- The marks that an instruction shows. -/
def Instr.marks : Instr → List (Mark Called)
  | .call name args => [.call ⟨name, args, false⟩]
  | .callValue dest name args => dest.gap ++ [.call ⟨name, args, true⟩]
  | .ret _ => [.back false]
  | .retValue _ value => value.gap ++ [.back true]
  | .move dest source => dest.gap ++ source.gap
  | .arith _ dest left right | .load dest left right => dest.gap ++ left.gap ++ right.gap
  | .store base index source => base.gap ++ index.gap ++ source.gap
  | .branch _ left right _ => left.gap ++ right.gap
  | .arg value _ | .read value | .write value => value.gap
  | _ => []

/-- **The marks that code shows**, in order. -/
def marksOf (code : List Instr) : List (Mark Called) := code.flatMap Instr.marks

@[simp] theorem marksOf_nil : marksOf [] = [] := rfl

@[simp] theorem marksOf_cons (i : Instr) (code : List Instr) :
    marksOf (i :: code) = i.marks ++ marksOf code := List.flatMap_cons

@[simp] theorem marksOf_append (c₁ c₂ : List Instr) :
    marksOf (c₁ ++ c₂) = marksOf c₁ ++ marksOf c₂ := List.flatMap_append

@[simp] theorem Operand.gap_literal (n : Int) : (Operand.literal n).gap = [] := rfl

@[simp] theorem Operand.gap_temporary (s : Lower.State) : s.temporary.gap = [] := rfl

theorem Operand.gap_comm (v w : Operand) : v.gap ++ w.gap = w.gap ++ v.gap := by
  cases v <;> cases w <;> rfl

theorem Instr.Computes.marks_eq {d l r : Operand} {i : Instr} (h : i.Computes d l r) :
    i.marks = d.gap ++ l.gap ++ r.gap := by
  cases h <;> rfl

/-- What an instruction calls, if it is a call. -/
def Instr.called? : Instr → Option Called
  | .call name args => some ⟨name, args, false⟩
  | .callValue _ name args => some ⟨name, args, true⟩
  | _ => none

/-- Whether an instruction returns a value, if it is a return. -/
def Instr.returned? : Instr → Option Bool
  | .ret _ => some false
  | .retValue _ _ => some true
  | _ => none

/-- The calls that code makes, in order. -/
def callsOf (code : List Instr) : List Called := code.filterMap Instr.called?

/-- The returns of code, in order: with a value or without. -/
def returnsOf (code : List Instr) : List Bool := code.filterMap Instr.returned?

/-- A gap is neither a call nor a return. -/
theorem Operand.gap_filterMap {α : Type} {f : Mark Called → Option α} (hf : f .gap = none)
    (v : Operand) : v.gap.filterMap f = [] := by
  cases v with
  | absent => simp [Operand.gap, hf]
  | _ => rfl

theorem Instr.called?_eq (i : Instr) : i.marks.filterMap Mark.callee? = i.called?.toList := by
  have hgap := Operand.gap_filterMap (f := Mark.callee?) rfl
  cases i <;> simp [Instr.marks, Instr.called?, Mark.callee?, hgap]

theorem Instr.returned?_eq (i : Instr) : i.marks.filterMap Mark.valued? = i.returned?.toList := by
  have hgap := Operand.gap_filterMap (f := Mark.valued?) rfl
  cases i <;> simp [Instr.marks, Instr.returned?, Mark.valued?, hgap]

/-- What holds of each instruction holds of code. -/
theorem filterMap_marksOf {α : Type} {f : Mark Called → Option α} {g : Instr → Option α}
    (h : ∀ i : Instr, i.marks.filterMap f = (g i).toList) (code : List Instr) :
    (marksOf code).filterMap f = code.filterMap g := by
  induction code with
  | nil => rfl
  | cons i code ih =>
    rw [marksOf_cons, List.filterMap_append, h, ih, List.filterMap_cons]
    cases g i <;> rfl

/-! ## 2. Marks of the source -/

/-- A function, as a call is resolved to it. -/
structure Overload where
  name : String
  sig : Signature
  deriving DecidableEq

/-- A call of the function leaves a value behind, unless its return type is built on void. -/
def Signature.gives (f : Signature) : Bool := f.ret.name ≠ "void"

/-- The code label of the function. -/
def Overload.label (o : Overload) : String := codeLabel o.name o.sig.params

/-- What code shows of a call of the function: its label, as many arguments as it has parameters,
    and whether a value is left. -/
def Overload.called (o : Overload) : Called := ⟨o.label, o.sig.params.length, o.sig.gives⟩

/-- The function that a call is resolved to; none if the system answers it. -/
def Expr.callee? (Γ : Scope) (name : String) (args : List Expr) : Option Overload :=
  if isSystemCall name then none
  else (Γ.function? name (Check.typesOf Γ args).tys).map (⟨name, ·⟩)

/-- The expression leaves a value behind. -/
def Expr.leaves (Γ : Scope) : Expr → Bool
  | .call _ name args => (Expr.callee? Γ name args).any fun o => o.sig.gives
  | _ => true

/-- A gap where the value of the expression is asked for and it leaves none. -/
def Expr.gap (Γ : Scope) (e : Expr) : List (Mark Overload) := if e.leaves Γ then [] else [.gap]

mutual

/-- **The marks that an expression makes**, in the order of its code. -/
def Expr.marks (Γ : Scope) : Expr → List (Mark Overload)
  | .index _ array i => array.marks Γ ++ i.marks Γ ++ (array.gap Γ ++ i.gap Γ)
  | .call _ name args => Expr.handed Γ args ++ (Expr.callee? Γ name args).toList.map .call
  | .unary _ .neg e | .unary _ .not e => e.marks Γ ++ e.gap Γ
  | .unary _ _ e => e.marks Γ
  | .binary _ .and l r | .binary _ .or l r => (l.marks Γ ++ l.gap Γ) ++ (r.marks Γ ++ r.gap Γ)
  | .binary _ _ l r => l.marks Γ ++ r.marks Γ ++ (l.gap Γ ++ r.gap Γ)
  | .int _ _ | .str _ _ | .var _ _ | .nameless _ _ | .misplaced _ => []

/-- The marks of arguments; the value of each is asked for. -/
def Expr.handed (Γ : Scope) : List Expr → List (Mark Overload)
  | [] => []
  | e :: es => (e.marks Γ ++ e.gap Γ) ++ Expr.handed Γ es

end

/-- The marks of an expression whose value is asked for. -/
def Expr.used (Γ : Scope) (e : Expr) : List (Mark Overload) := e.marks Γ ++ e.gap Γ

/-- The marks of an assignment. -/
def Stmt.assigned (Γ : Scope) (target exp : Expr) : List (Mark Overload) :=
  match target with
  | .index _ array i =>
      array.marks Γ ++ i.marks Γ ++ exp.marks Γ ++ (array.gap Γ ++ i.gap Γ ++ exp.gap Γ)
  | target => target.marks Γ ++ exp.marks Γ ++ (target.gap Γ ++ exp.gap Γ)

mutual

/-- **The marks that a statement makes**, in the order of its code. -/
def Stmt.marks (Γ : Scope) : Stmt → List (Mark Overload)
  | .assign _ target exp => Stmt.assigned Γ target exp
  | .ifThen _ cond body => cond.used Γ ++ body.marks (Γ.push [])
  | .ifElse _ cond thenBody elseBody =>
      cond.used Γ ++ thenBody.marks (Γ.push []) ++ elseBody.marks (Γ.push [])
  | .whileLoop _ cond body => cond.used Γ ++ body.marks (Γ.push [])
  | .forLoop _ init cond step body =>
      init.marks Γ ++ cond.used Γ ++ body.marks (Γ.push []) ++ step.marks Γ
  | .call _ e => e.marks Γ
  | .ret _ none => [.back false]
  | .ret _ (some e) => e.used Γ ++ [.back true]
  | .misplaced _ | .missing _ _ => []

/-- **The marks that a block makes** in a scope whose innermost frame is its own. -/
def Block.marks (Γ : Scope) : Block → List (Mark Overload)
  | .mk _ ds sts => Stmt.marksOf (Check.decls Γ ds).1 sts

/-- The marks of statements one after the other. -/
def Stmt.marksOf (Γ : Scope) : List Stmt → List (Mark Overload)
  | [] => []
  | st :: sts => st.marks Γ ++ Stmt.marksOf Γ sts

end

/-- The functions that a block calls, in the order of its code. -/
def Block.calls (Γ : Scope) (b : Block) : List Overload := (b.marks Γ).filterMap Mark.callee?

mutual

/-- The returns of a statement, in the order of its code: with a value or without. -/
def Stmt.returns : Stmt → List Bool
  | .ifThen _ _ body | .whileLoop _ _ body => body.returns
  | .ifElse _ _ thenBody elseBody => thenBody.returns ++ elseBody.returns
  | .forLoop _ init _ step body => init.returns ++ body.returns ++ step.returns
  | .ret _ value => [value.isSome]
  | .assign _ _ _ | .call _ _ | .misplaced _ | .missing _ _ => []

/-- The returns of a block, in the order of its code: with a value or without. -/
def Block.returns : Block → List Bool
  | .mk _ _ sts => Stmt.returnsOf sts

/-- The returns of statements one after the other. -/
def Stmt.returnsOf : List Stmt → List Bool
  | [] => []
  | st :: sts => st.returns ++ Stmt.returnsOf sts

end

theorem Expr.gap_valued (Γ : Scope) (e : Expr) : (e.gap Γ).filterMap Mark.valued? = [] := by
  unfold Expr.gap
  split <;> rfl

mutual

/-- An expression does not return. -/
theorem Expr.marks_valued (Γ : Scope) : ∀ e : Expr, (e.marks Γ).filterMap Mark.valued? = []
  | .int _ _ | .str _ _ | .var _ _ | .nameless _ _ | .misplaced _ => rfl
  | .index _ array i => by
      simp [Expr.marks, Expr.gap_valued, Expr.marks_valued Γ array, Expr.marks_valued Γ i]
  | .call _ name args => by
      simp only [Expr.marks, List.filterMap_append, Expr.handed_valued Γ args, List.nil_append]
      cases Expr.callee? Γ name args <;> rfl
  | .unary _ op e => by
      have he := Expr.marks_valued Γ e
      cases op <;> simp [Expr.marks, Expr.gap_valued, he]
  | .binary _ op l r => by
      have hl := Expr.marks_valued Γ l
      have hr := Expr.marks_valued Γ r
      cases op <;> simp [Expr.marks, Expr.gap_valued, hl, hr]

theorem Expr.handed_valued (Γ : Scope) : ∀ es : List Expr,
    (Expr.handed Γ es).filterMap Mark.valued? = []
  | [] => rfl
  | e :: es => by
      simp [Expr.handed, Expr.gap_valued, Expr.marks_valued Γ e, Expr.handed_valued Γ es]

end

theorem Expr.used_valued (Γ : Scope) (e : Expr) : (e.used Γ).filterMap Mark.valued? = [] := by
  simp [Expr.used, Expr.gap_valued, Expr.marks_valued]

theorem Stmt.assigned_valued (Γ : Scope) (target exp : Expr) :
    (Stmt.assigned Γ target exp).filterMap Mark.valued? = [] := by
  unfold Stmt.assigned
  split <;> simp [Expr.gap_valued, Expr.marks_valued]

mutual

/-- The returns among the marks of a statement are its return statements. -/
theorem Stmt.marks_valued (Γ : Scope) : ∀ st : Stmt,
    (st.marks Γ).filterMap Mark.valued? = st.returns
  | .assign _ target exp => Stmt.assigned_valued Γ target exp
  | .ifThen _ cond body | .whileLoop _ cond body => by
      simp [Stmt.marks, Stmt.returns, Expr.used_valued, Block.marks_valued (Γ.push []) body]
  | .ifElse _ cond thenBody elseBody => by
      simp [Stmt.marks, Stmt.returns, Expr.used_valued, Block.marks_valued (Γ.push []) thenBody,
        Block.marks_valued (Γ.push []) elseBody]
  | .forLoop _ init cond step body => by
      simp [Stmt.marks, Stmt.returns, Expr.used_valued, Stmt.marks_valued Γ init,
        Stmt.marks_valued Γ step, Block.marks_valued (Γ.push []) body]
  | .call _ e => Expr.marks_valued Γ e
  | .ret _ none => rfl
  | .ret _ (some e) => by
      simp [Stmt.marks, Stmt.returns, Expr.used_valued, Mark.valued?]
  | .misplaced _ | .missing _ _ => rfl

theorem Block.marks_valued (Γ : Scope) : ∀ b : Block,
    (b.marks Γ).filterMap Mark.valued? = b.returns
  | .mk _ ds sts => Stmt.marksOf_valued (Check.decls Γ ds).1 sts

theorem Stmt.marksOf_valued (Γ : Scope) : ∀ sts : List Stmt,
    (Stmt.marksOf Γ sts).filterMap Mark.valued? = Stmt.returnsOf sts
  | [] => rfl
  | st :: sts => by
      simp [Stmt.marksOf, Stmt.returnsOf, Stmt.marks_valued Γ st, Stmt.marksOf_valued Γ sts]

end

/-- The marks as code shows them. -/
def coded (ms : List (Mark Overload)) : List (Mark Called) := ms.map (Mark.map Overload.called)

@[simp] theorem coded_nil : coded [] = [] := rfl

@[simp] theorem coded_append (ms₁ ms₂ : List (Mark Overload)) :
    coded (ms₁ ++ ms₂) = coded ms₁ ++ coded ms₂ := List.map_append

namespace Lower

/-! ## 3. Expressions -/

namespace Modes

/-- The code of an expression shows the marks in both modes; asked for its value it shows the gap
    too. -/
structure Shows (m : Modes) (marks gap : List (Mark Overload)) : Prop where
  value : ∀ s, marksOf (m.value s).code = coded marks
  operand : ∀ s, (m.value s).operand.gap = coded gap
  branch : ∀ t s, marksOf (m.branch t s).code = coded marks ++ coded gap

variable {ms₁ ms₂ g₁ g₂ marks gap : List (Mark Overload)}

theorem shows_ofValue {value : State → Emitted} (hcode : ∀ s, marksOf (value s).code = coded marks)
    (hoperand : ∀ s, (value s).operand.gap = coded gap) : (ofValue value).Shows marks gap := by
  refine ⟨hcode, hoperand, fun t s => ?_⟩
  simp [ofValue, test, Instr.marks, hcode, hoperand]

theorem shows_ofBranch {branch : Targets Target → State → Lowered}
    (h : ∀ t s, marksOf (branch t s).code = coded marks) : (ofBranch branch).Shows marks [] := by
  refine ⟨fun s => ?_, fun _ => rfl, fun t s => ?_⟩
  · simp [ofBranch, materialise, ends, Instr.marks, h]
  · simp [ofBranch, h]

theorem shows_operand {operand : Operand} (h : operand.gap = []) :
    (ofOperand operand).Shows [] [] := shows_ofValue (fun _ => rfl) (fun _ => h)

section Operators

variable {left right operand : Modes} (hl : left.Shows ms₁ g₁) (hr : right.Shows ms₂ g₂)

include hl hr

theorem shows_compute {instr : Operand → Operand → Operand → Instr}
    (hinstr : ∀ d l r, (instr d l r).Computes d l r) :
    (compute left right instr).Shows (ms₁ ++ ms₂ ++ (g₁ ++ g₂)) [] := by
  refine shows_ofValue (fun s => ?_) (fun _ => rfl)
  simp [(hinstr _ _ _).marks_eq, hl.value, hr.value, hl.operand, hr.operand]

theorem shows_compare (op : RelOp) :
    (compare op left right).Shows (ms₁ ++ ms₂ ++ (g₁ ++ g₂)) [] := by
  refine shows_ofBranch fun t s => ?_
  have hgaps : ∀ v w : Operand, v.gap = coded g₁ → w.gap = coded g₂ →
      w.gap ++ v.gap = coded g₁ ++ coded g₂ := by
    intro v w hv hw
    rw [Operand.gap_comm, hv, hw]
  cases op with
  | lt | le | eq | ne =>
    simp [comparison, Instr.marks, hl.value, hr.value, hl.operand, hr.operand]
  | gt | ge =>
    -- the operands stand in reverse
    simp [comparison, Instr.marks, hl.value, hr.value,
      hgaps _ _ (hl.operand s) (hr.operand (left.value s).after)]

theorem shows_conjunction :
    (conjunction left right).Shows ((ms₁ ++ g₁) ++ (ms₂ ++ g₂)) [] := by
  refine shows_ofBranch fun t s => ?_
  simp [Instr.marks, hl.branch, hr.branch]

theorem shows_disjunction :
    (disjunction left right).Shows ((ms₁ ++ g₁) ++ (ms₂ ++ g₂)) [] := by
  refine shows_ofBranch fun t s => ?_
  simp [Instr.marks, hl.branch, hr.branch]

end Operators

theorem shows_negative {operand : Modes} (h : operand.Shows ms₁ g₁) :
    (negative operand).Shows (ms₁ ++ g₁) [] := by
  refine shows_ofValue (fun s => ?_) (fun _ => rfl)
  simp [Instr.marks, h.value, h.operand]

theorem shows_negation {operand : Modes} (h : operand.Shows ms₁ g₁) :
    (negation operand).Shows (ms₁ ++ g₁) [] := by
  refine shows_ofBranch fun t s => ?_
  simp [h.branch]

/-- A call that the system answers asks for its argument, if there is one, and leaves no value. -/
theorem shows_systemCall (name : String) {arg : Modes} (h : arg.Shows ms₁ g₁) :
    (systemCall name [arg]).Shows (ms₁ ++ g₁) [.gap] := by
  refine shows_ofValue (fun s => ?_) (fun _ => rfl)
  by_cases hread : name = readCall
  · simp [sequence, hread, Instr.marks, h.value, h.operand]
  · simp [sequence, hread, Instr.marks, h.value, h.operand]

/-- A call of a function, given the marks of its arguments. -/
theorem shows_functionCall {Γ : Scope} {name : String} {tys : List Ty} {args : List Modes}
    {f : Signature} (hf : Γ.function? name tys = some f) (hlength : f.params.length = args.length)
    (hargs : ∀ s, marksOf (handOver 0 args s).code = coded marks) :
    (functionCall Γ name ⟨tys, []⟩ args).Shows (marks ++ [.call ⟨name, f⟩])
      (if f.gives then [] else [.gap]) := by
  by_cases hvoid : f.ret.name = "void"
  · have hgives : f.gives = false := by simp [Signature.gives, hvoid]
    refine shows_ofValue (fun s => ?_) (fun s => ?_)
    · simp [hf, hvoid, hargs, Instr.marks, coded, Mark.map, Overload.called, Overload.label,
        hgives, hlength]
    · simp [hf, hvoid, hgives, coded, Mark.map, Operand.gap]
  · have hgives : f.gives = true := by simp [Signature.gives, hvoid]
    refine shows_ofValue (fun s => ?_) (fun s => ?_)
    · simp [hf, hvoid, hargs, Instr.marks, coded, Mark.map, Overload.called, Overload.label,
        hgives, hlength]
    · simp [hf, hvoid, hgives]

end Modes

/-- The function that is found has as many parameters as there are arguments. -/
theorem length_of_allAgree : ∀ {as bs : List Ty}, Ty.allAgree as bs = true → as.length = bs.length
  | [], [], _ => rfl
  | _ :: _, _ :: _, h => by
      rw [Ty.allAgree, Bool.and_eq_true] at h
      exact congrArg (· + 1) (length_of_allAgree h.2)
  | [], _ :: _, h => by cases h
  | _ :: _, [], h => by cases h

theorem function?_length {frame : Frame} {name : String} {tys : List Ty} {f : Signature}
    (h : frame.function? name tys = some f) : f.params.length = tys.length := by
  unfold Frame.function? at h
  obtain ⟨⟨n, e⟩, -, he⟩ := List.exists_of_findSome?_eq_some h
  rcases e with v | g
  · cases he
  · dsimp only at he
    split at he
    · rename_i hfound
      cases he
      exact length_of_allAgree (Bool.and_eq_true _ _ ▸ hfound).2
    · cases he

theorem callee?_eq {Γ : Scope} (hΓ : Γ.Proper) {name : String} {args : List Expr} {τs : List Ty}
    {f : Signature} (hname : isSystemCall name = false) (hargs : HaveTypes Γ args τs)
    (hf : Γ.function? name τs = some f) : Expr.callee? Γ name args = some ⟨name, f⟩ := by
  unfold Expr.callee?
  rw [hname, Check.typesOf_eq hΓ hargs, hf]
  rfl

theorem modesOf_length (Γ : Scope) : ∀ es : List Expr, (modesOf Γ es).length = es.length
  | [] => rfl
  | _ :: es => congrArg (· + 1) (modesOf_length Γ es)

theorem gap_of_isVar (Γ : Scope) {e : Expr} (h : e.isVar = true) : e.gap Γ = [] := by
  cases e with
  | var _ _ => rfl
  | _ => cases h

theorem shows_ofVar {Γ : Scope} (hstored : Γ.Stored) {name : String} {v : Variable}
    (hv : Γ.soundVar? name = some v) : (Modes.ofVar Γ name).Shows [] [] := by
  obtain ⟨a, ha, -⟩ := hstored.soundVar? hv
  rw [Modes.ofVar, hv]
  dsimp only
  rw [ha]
  exact Modes.shows_operand rfl

mutual

/-- **The code of a well-typed expression shows its marks** in both modes. -/
theorem modes_shows {Γ : Scope} (hΓ : Γ.bare.Proper) (hstored : Γ.Stored) : ∀ {e : Expr} {τ : Ty},
    HasType Γ.bare e τ → (modes Γ e).Shows (e.marks Γ.bare) (e.gap Γ.bare)
  | _, _, .int => Modes.shows_operand rfl
  | _, _, .str => Modes.shows_ofValue (fun _ => rfl) (fun _ => rfl)
  | _, _, .var hv => by
      rw [Scope.bare_var?, ← (Γ.proper_bare.mp hΓ).soundVar?] at hv
      obtain ⟨w, hw, -⟩ := Option.map_eq_some_iff.mp hv
      exact shows_ofVar hstored hw
  | _, _, .index ha hi _ =>
      Modes.shows_compute (modes_shows hΓ hstored ha) (modes_shows hΓ hstored hi) fun _ _ _ => .load
  | _, _, .system hname hargs hone => by
      rw [modes, Modes.call, if_pos hname, Expr.marks, Expr.gap, Expr.leaves, Expr.callee?,
        if_pos hname]
      cases hargs with
      | nil => exact Modes.shows_ofValue (fun _ => rfl) (fun _ => rfl)
      | cons he hes =>
        cases hes with
        | nil =>
          simpa [Expr.handed, modesOf] using Modes.shows_systemCall _ (modes_shows hΓ hstored he)
        | cons _ _ => exact absurd hone (by simp)
  | _, _, .call hname hargs hf => by
      have hcallee := callee?_eq hΓ hname hargs hf
      have hfound := Γ.bare_function? _ _ ▸ hf
      have hlength := function?_length hfound
      rw [← hargs.length_eq, ← modesOf_length Γ] at hlength
      rw [modes, Modes.call, if_neg (Bool.eq_false_iff.mp hname),
        Check.typesOf_eq (Γ.proper_bare.mp hΓ) hargs.of_bare, Expr.marks, Expr.gap, Expr.leaves,
        hcallee]
      exact Modes.shows_functionCall hfound hlength (modesOf_shows hΓ hstored hargs 0)
  | _, _, .neg he _ => Modes.shows_negative (modes_shows hΓ hstored he)
  | _, _, .not he _ => Modes.shows_negation (modes_shows hΓ hstored he)
  | _, _, .address he hvar => by
      have h := modes_shows hΓ hstored he
      rw [gap_of_isVar Γ.bare hvar] at h
      exact Modes.shows_ofValue h.value h.operand
  | _, _, .deref he hvar => by
      have h := modes_shows hΓ hstored he
      rw [gap_of_isVar Γ.bare hvar] at h
      exact Modes.shows_ofValue h.value h.operand
  | _, _, .arith hl hr _ _ =>
      Modes.shows_compute (modes_shows hΓ hstored hl) (modes_shows hΓ hstored hr)
        fun _ _ _ => .arith _
  | _, _, .rel hl hr _ _ =>
      Modes.shows_compare (modes_shows hΓ hstored hl) (modes_shows hΓ hstored hr) _
  | _, _, .and hl hr _ _ =>
      Modes.shows_conjunction (modes_shows hΓ hstored hl) (modes_shows hΓ hstored hr)
  | _, _, .or hl hr _ _ =>
      Modes.shows_disjunction (modes_shows hΓ hstored hl) (modes_shows hΓ hstored hr)

/-- The code of arguments shows their marks, whatever places they are handed over to. -/
theorem modesOf_shows {Γ : Scope} (hΓ : Γ.bare.Proper) (hstored : Γ.Stored) :
    ∀ {es : List Expr} {τs : List Ty}, HaveTypes Γ.bare es τs → ∀ place s,
      marksOf (Modes.handOver place (modesOf Γ es) s).code = coded (Expr.handed Γ.bare es)
  | _, _, .nil, _, _ => rfl
  | _, _, .cons he hes, place, s => by
      have hfirst := modes_shows hΓ hstored he
      have hothers := modesOf_shows hΓ hstored hes
      simp [modesOf, Modes.handOver, Expr.handed, Instr.marks, hfirst.value, hfirst.operand,
        hothers]

end

/-! ## 4. Statements -/

section Statements

variable (label : String) {ret : Ty} {Γ : Scope} (hΓ : Γ.bare.Proper) (hstored : Γ.Stored)

include hΓ hstored

theorem assignment_marks {target exp : Expr} {α β : Ty} (htarget : HasType Γ.bare target α)
    (hexp : HasType Γ.bare exp β) (s : State) :
    marksOf (assignment Γ target exp s).code = coded (Stmt.assigned Γ.bare target exp) := by
  have he := modes_shows hΓ hstored hexp
  unfold assignment Stmt.assigned
  split
  · cases htarget with
    | index harray hi _ =>
      have ha := modes_shows hΓ hstored harray
      have hi := modes_shows hΓ hstored hi
      simp [value, Instr.marks, ha.value, hi.value, he.value, ha.operand, hi.operand, he.operand]
  · have ht := modes_shows hΓ hstored htarget
    simp [value, Instr.marks, ht.value, he.value, ht.operand, he.operand]

theorem condition_marks {cond : Expr} (hcond : IsTruth Γ.bare cond) (t : Targets Target)
    (s : State) : marksOf (branch Γ cond t s).code = coded (cond.used Γ.bare) := by
  obtain ⟨τ, hτ, -⟩ := hcond
  rw [branch, (modes_shows hΓ hstored hτ).branch, Expr.used, coded_append]

theorem clause_marks {st : Stmt} (hst : st.IsClause) (h : st.WellTyped ret Γ.bare) (next : Target)
    (s : State) : marksOf (stmt label Γ st next s).code = coded (st.marks Γ.bare) := by
  cases h with
  | assign htarget hvalue _ => exact assignment_marks hΓ hstored htarget hvalue s
  | call he =>
    cases hst with
    | call hcall _ =>
      rw [stmt, effect, if_pos hcall]
      exact (modes_shows hΓ hstored he).value s
  | _ => cases hst

end Statements

mutual

/-- **The code of a well-typed statement shows its marks.** -/
theorem stmt_marks (label : String) {ret : Ty} {Γ : Scope} (hΓ : Γ.bare.Proper)
    (hstored : Γ.Stored) : ∀ st : Stmt, st.Proper → st.WellTyped ret Γ.bare → ∀ next s,
      marksOf (stmt label Γ st next s).code = coded (st.marks Γ.bare)
  | .assign _ _ _, hst, h, next, s => clause_marks label hΓ hstored hst h next s
  | .ifThen _ cond body, hst, h, next, s => by
      cases h with
      | ifThen hcond hbody =>
        have hc := condition_marks hΓ hstored hcond
        have hb :=
          block_marks label hΓ hstored [] Frame.proper_nil Frame.stored_nil body hst.2 hbody
        rw [Scope.bare_push] at hb
        simp [stmt, Stmt.marks, Instr.marks, hc, hb, Frame.bare]
  | .ifElse _ cond thenBody elseBody, hst, h, next, s => by
      cases h with
      | ifElse hcond hthen helse =>
        have hc := condition_marks hΓ hstored hcond
        have ha :=
          block_marks label hΓ hstored [] Frame.proper_nil Frame.stored_nil thenBody hst.2.1 hthen
        have hb :=
          block_marks label hΓ hstored [] Frame.proper_nil Frame.stored_nil elseBody hst.2.2 helse
        simp [stmt, Stmt.marks, Instr.marks, hc, ha, hb, Frame.bare]
  | .whileLoop _ cond body, hst, h, next, s => by
      cases h with
      | whileLoop hcond hbody =>
        have hc := condition_marks hΓ hstored hcond
        have hb :=
          block_marks label hΓ hstored [] Frame.proper_nil Frame.stored_nil body hst.2 hbody
        simp [stmt, Stmt.marks, Instr.marks, hc, hb, Frame.bare]
  | .forLoop _ init cond step body, hst, h, next, s => by
      cases h with
      | forLoop hinit hcond hstep hbody =>
        have hi := clause_marks label hΓ hstored hst.1 hinit none
        have hc := condition_marks hΓ hstored hcond
        have hb := block_marks label hΓ hstored [] Frame.proper_nil Frame.stored_nil body hst.2.2.2
          hbody
        have hn := clause_marks label hΓ hstored hst.2.2.1 hstep none
        simp [stmt, Stmt.marks, Instr.marks, hi, hc, hb, hn, Frame.bare]
  | .call _ _, hst, h, next, s => clause_marks label hΓ hstored hst h next s
  | .ret _ none, _, _, _, s => rfl
  | .ret _ (some e), _, h, _, s => by
      cases h with
      | retSome he _ =>
        have he := modes_shows hΓ hstored he
        simp [stmt, returned, value, Stmt.marks, Expr.used, Instr.marks, he.value, he.operand,
          coded, Mark.map]
  | .misplaced _, hst, _, _, _ => hst.elim
  | .missing _ _, hst, _, _, _ => hst.elim

theorem block_marks (label : String) {ret : Ty} {Γ : Scope} (hΓ : Γ.bare.Proper)
    (hstored : Γ.Stored) (frame : Frame) (hframe : Frame.Proper (Frame.bare frame))
    (hframe' : Frame.Stored frame) : ∀ b : Block, b.Proper →
      b.WellTyped ret Γ.bare (Frame.bare frame) → ∀ s,
      marksOf (block label Γ frame b s).code = coded (b.marks (Γ.push frame).bare)
  | .mk _ ds sts, hb, h, s => by
      cases h with
      | mk hdecls hstmts =>
        have hbare := placeDecls_bare .local hdecls s
        have hdeclared : Frame.Stored (placeDecls .local frame ds s).1 :=
          placeDecls_stored Space.noConfusion ds s hframe'
        have hΓ' := placeDecls_proper .local hΓ hframe (binding_of_variables hb.1) hdecls s
        rw [Block.marks, Scope.bare_push, Check.decls_scope hdecls]
        rw [← hbare, ← Scope.bare_push] at hstmts ⊢
        exact stmts_marks label hΓ' (hstored.push hdeclared) sts hb.2 hstmts _

theorem stmts_marks (label : String) {ret : Ty} {Γ : Scope} (hΓ : Γ.bare.Proper)
    (hstored : Γ.Stored) : ∀ sts : List Stmt, Stmt.AllProper sts →
      Stmt.AllWellTyped ret Γ.bare sts → ∀ s,
      marksOf (stmts label Γ sts s).code = coded (Stmt.marksOf Γ.bare sts)
  | [], _, _, s => rfl
  | st :: sts, hsts, h, s => by
      cases h with
      | cons hst hrest =>
        have hfirst := stmt_marks label hΓ hstored st hsts.1 hst
        have hothers := stmts_marks label hΓ hstored sts hsts.2 hrest
        rw [stmts, Stmt.marksOf]
        dsimp only
        split
        · simp [hfirst, hothers, Instr.marks]
        · simp [hfirst, hothers]

end

end Lower

namespace Setting

variable (c : Setting)

/-- **The code of a function shows the marks of its body.** -/
theorem marksOf_body : marksOf c.segment.body = coded (c.body.marks c.site.scope) :=
  Lower.block_marks c.label c.scope_proper c.scope_stored c.frame c.frame_proper c.frame_stored
    c.body c.body_proper c.typed c.start

/-- The code of a function calls what its body calls. -/
theorem callsOf_body :
    callsOf c.segment.body = (c.body.calls c.site.scope).map Overload.called := by
  unfold callsOf Block.calls
  rw [← filterMap_marksOf Instr.called?_eq, c.marksOf_body, coded, List.filterMap_map,
    List.map_filterMap]
  refine congrArg (List.filterMap · _) (funext fun m => ?_)
  cases m <;> rfl

/-- The code of a function returns as its body does. -/
theorem returnsOf_body : returnsOf c.segment.body = c.body.returns := by
  unfold returnsOf
  rw [← filterMap_marksOf Instr.returned?_eq, c.marksOf_body, coded, List.filterMap_map,
    ← Block.marks_valued c.site.scope]
  refine congrArg (List.filterMap · _) (funext fun m => ?_)
  cases m <;> rfl

end Setting

end CMinusMinus
