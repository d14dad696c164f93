/-
  File:      CMinusMinus/Proofs/BooleanCode.lean
  Subject:   Where control leaves the code of a condition.

  The code of an expression has one of two OUTLETS. Asked for as a value it is run through: control
  that enters at its first instruction comes out behind its last one. Asked for as a branch it is
  split: control comes out by a jump to one of two targets, and never behind it. `Shaped` lists the
  pieces from which lowering builds both, and everything else is read off that list:

  * `Shaped.closed` -- labels are new, jumps go to them or to the targets of the outlet;
  * `Shaped.reaches` -- a walk comes out at each end that there is;
  * `Shaped.twoWay` -- so control leaves split code to both its targets and nowhere else;
  * `Shaped.guards` -- and the right side of `&&` and `||` is entered through its label alone;
  * `branch_two_way` -- conditions of all expressions.
-/
import CMinusMinus.Proofs.Walks

namespace CMinusMinus

/-! ## 1. Leaving a piece of code -/

/-- How control leaves a piece of code. -/
inductive Way where
  /-- It goes on behind the last instruction. -/
  | behind
  /-- It jumps to a target that the piece does not define. -/
  | to (target : Target)
  /-- It returns from the function. -/
  | back
  deriving DecidableEq, Repr

/-- **Control leaves code this way** after it has met these instructions. -/
inductive Leaves (code : List Instr) : List Instr → Way → Prop where
  | behind {met : List Instr} (h : Walk code met code.length) : Leaves code met .behind
  | jump {met : List Instr} {pc : Nat} {i : Instr} {u : Target} (h : Walk code met pc)
      (hi : code[pc]? = some i) (htarget : i.target? = some u)
      (hout : ∀ l ∈ labelsOf code, u ≠ some l) : Leaves code (met ++ [i]) (.to u)
  | back {met : List Instr} {pc : Nat} {i : Instr} (h : Walk code met pc)
      (hi : code[pc]? = some i) (hreturns : i.returns = true) : Leaves code (met ++ [i]) .back

theorem mem_labelsOf {code : List Instr} {l : Label} :
    l ∈ labelsOf code ↔ .label l ∈ code := by
  show l ∈ code.filterMap Instr.label? ↔ _
  rw [List.mem_filterMap]
  constructor
  · intro ⟨i, hi, hlabel⟩
    cases i <;> simp only [Instr.label?, Option.some.injEq, reduceCtorEq] at hlabel
    exact hlabel ▸ hi
  · exact fun h => ⟨_, h, rfl⟩

theorem mem_labelsOf_of_getElem? {code : List Instr} {q : Nat} {l : Label}
    (h : code[q]? = some (.label l)) : l ∈ labelsOf code :=
  mem_labelsOf.mpr (List.mem_of_getElem? h)

section Walks

variable {c₁ c₂ met met₁ met₂ : List Instr} {pc q : Nat}

theorem getElem?_in_first {i : Instr} (h : c₁[pc]? = some i) : (c₁ ++ c₂)[pc]? = some i :=
  (List.getElem?_append_left (List.getElem?_eq_some_iff.mp h).1).trans h

theorem getElem?_in_second (c₁ c₂ : List Instr) (pc : Nat) :
    (c₁ ++ c₂)[c₁.length + pc]? = c₂[pc]? := by
  rw [List.getElem?_append_right (Nat.le_add_right _ _), Nat.add_sub_cancel_left]

/-- A walk is one through longer code as well. -/
theorem Walk.append_right (h : Walk c₁ met pc) (c₂ : List Instr) : Walk (c₁ ++ c₂) met pc := by
  induction h with
  | start => exact .start
  | step _ hi hedge ih =>
    refine ih.step (getElem?_in_first hi) ?_
    cases hedge with
    | next hfalls => exact .next hfalls
    | jump htarget hq => exact .jump htarget (getElem?_in_first hq)

/-- **A walk can be taken up where another one has come to.** -/
theorem Walk.append_left (h₁ : Walk (c₁ ++ c₂) met₁ c₁.length) (h₂ : Walk c₂ met₂ pc) :
    Walk (c₁ ++ c₂) (met₁ ++ met₂) (c₁.length + pc) := by
  induction h₂ with
  | start =>
    rw [List.append_nil]
    exact h₁
  | @step met pc q i _ hi hedge ih =>
    rw [← List.append_assoc]
    refine ih.step ((getElem?_in_second c₁ c₂ pc).trans hi) ?_
    cases hedge with
    | next hfalls => exact .next hfalls
    | jump htarget hq => exact .jump htarget ((getElem?_in_second c₁ c₂ q).trans hq)

/-- A piece that is left to a label: control goes on where the label is defined. -/
theorem Leaves.land {l : Label} (h : Leaves c₁ met (.to (some l)))
    (hq : (c₁ ++ c₂)[q]? = some (.label l)) : Walk (c₁ ++ c₂) met q := by
  cases h with
  | jump hwalk hi htarget _ =>
    exact (hwalk.append_right c₂).step (getElem?_in_first hi) (.jump htarget hq)

/-- A piece that is left to a target that the code around does not define either. -/
theorem Leaves.append_right {u : Target} (h : Leaves c₁ met (.to u))
    (hout : ∀ l ∈ labelsOf (c₁ ++ c₂), u ≠ some l) : Leaves (c₁ ++ c₂) met (.to u) := by
  cases h with
  | jump hwalk hi htarget _ =>
    exact .jump (hwalk.append_right c₂) (getElem?_in_first hi) htarget hout

theorem Leaves.append_left {u : Target} (h₁ : Walk (c₁ ++ c₂) met₁ c₁.length)
    (h₂ : Leaves c₂ met₂ (.to u)) (hout : ∀ l ∈ labelsOf (c₁ ++ c₂), u ≠ some l) :
    Leaves (c₁ ++ c₂) (met₁ ++ met₂) (.to u) := by
  cases h₂ with
  | @jump met pc i _ hwalk hi htarget _ =>
    rw [← List.append_assoc]
    exact .jump (h₁.append_left hwalk) ((getElem?_in_second c₁ c₂ pc).trans hi) htarget hout

end Walks

/-! ## 2. The pieces of expressions -/

/-- How the code of an expression ends. -/
inductive Outlet where
  /-- Control is run through to the end. -/
  | through
  /-- Control jumps to one of two targets. -/
  | split (t f : Target)

/-- The targets of an outlet. -/
def Outlet.targets : Outlet → List Target
  | .through => []
  | .split t f => [t, f]

theorem Outlet.mem_split {l t f : Label} :
    some l ∈ (Outlet.split (some t) (some f)).targets ↔ l = t ∨ l = f := by
  simp [Outlet.targets]

/-- **The pieces of the code of expressions**, made while the label counter goes from one number to
    another one. -/
inductive Shaped : Outlet → Nat → Nat → List Instr → Prop where
  /-- Labels may be drawn in vain. -/
  | nothing {lo hi : Nat} (h : lo ≤ hi) : Shaped .through lo hi []
  | plain {i : Instr} (n : Nat) (hfalls : i.falls = true) (hlabel : i.label? = none)
      (htarget : i.target? = none) : Shaped .through n n [i]
  | append {lo mid hi : Nat} {c₁ c₂ : List Instr} (h₁ : Shaped .through lo mid c₁)
      (h₂ : Shaped .through mid hi c₂) : Shaped .through lo hi (c₁ ++ c₂)
  | joined {n hi : Nat} {c : List Instr} (dest : Operand)
      (h : Shaped (.split (some ⟨n⟩) (some ⟨n + 1⟩)) (n + 3) hi c) :
      Shaped .through n hi (c ++ Lower.ends dest ⟨n⟩ ⟨n + 1⟩ ⟨n + 2⟩)
  | test {lo hi : Nat} {c : List Instr} (op : Comparison) (a b : Operand) (t f : Target)
      (h : Shaped .through lo hi c) :
      Shaped (.split t f) lo hi (c ++ [.branch op a b t, .jump f])
  /-- One end of a split piece leads to a second one, the other end leads out. -/
  | circuit {n mid hi : Nat} {t f out : Target} {c₁ c₂ : List Instr}
      (h₁ : Shaped (.split (some ⟨n⟩) out) (n + 1) mid c₁) (h₂ : Shaped (.split t f) mid hi c₂)
      (hout : out ∈ [t, f]) : Shaped (.split t f) n hi (c₁ ++ [.label ⟨n⟩] ++ c₂)
  | swap {lo hi : Nat} {t f : Target} {c : List Instr} (h : Shaped (.split f t) lo hi c) :
      Shaped (.split t f) lo hi c

theorem Shaped.le {w : Outlet} {lo hi : Nat} {c : List Instr} (h : Shaped w lo hi c) : lo ≤ hi := by
  induction h with
  | nothing h => exact h
  | plain n => exact Nat.le_refl n
  | append _ _ ih₁ ih₂ => exact Nat.le_trans ih₁ ih₂
  | joined _ _ ih => omega
  | test _ _ _ _ _ _ ih => exact ih
  | circuit _ _ _ ih₁ ih₂ => omega
  | swap _ ih => exact ih

namespace Lower

/-- Both modes of an expression are built from these pieces. -/
structure Modes.Shapes (m : Modes) : Prop where
  value : ∀ s, Shaped .through s.alloc.labels (m.value s).after.alloc.labels (m.value s).code
  branch : ∀ t s, Shaped (.split t.onTrue t.onFalse) s.alloc.labels
    (m.branch t s).after.alloc.labels (m.branch t s).code

namespace Modes

theorem shapes_ofValue {value : State → Emitted}
    (h : ∀ s, Shaped .through s.alloc.labels (value s).after.alloc.labels (value s).code) :
    (ofValue value).Shapes :=
  ⟨h, fun t s => .test .ne _ _ t.onTrue t.onFalse (h s)⟩

theorem shapes_ofBranch {branch : Targets Target → State → Lowered}
    (h : ∀ t s, Shaped (.split t.onTrue t.onFalse) s.alloc.labels
      (branch t s).after.alloc.labels (branch t s).code) : (ofBranch branch).Shapes :=
  ⟨fun s => .joined s.temporary (h ⟨some ⟨s.alloc.labels⟩, some ⟨s.alloc.labels + 1⟩, none⟩
    s.afterTemporary.afterLabel.afterLabel.afterLabel), h⟩

/-- Code that is empty and draws no label. -/
theorem shapes_empty {value : State → Emitted} (hcode : ∀ s, (value s).code = [])
    (hlabels : ∀ s, (value s).after.alloc.labels = s.alloc.labels) : (ofValue value).Shapes := by
  refine shapes_ofValue fun s => ?_
  rw [hcode, hlabels]
  exact .nothing (Nat.le_refl _)

theorem shapes_ofVar (Γ : Scope) (name : String) : (ofVar Γ name).Shapes := by
  unfold ofVar
  split
  · exact shapes_empty (fun _ => rfl) (fun _ => rfl)
  · exact shapes_empty (fun _ => rfl) (fun _ => rfl)

section Operators

variable {left right : Modes} (hl : left.Shapes) (hr : right.Shapes)

include hl hr

theorem shapes_operands (s : State) :
    Shaped .through s.alloc.labels (right.value (left.value s).after).after.alloc.labels
      ((left.value s).code ++ (right.value (left.value s).after).code) :=
  (hl.value s).append (hr.value (left.value s).after)

theorem shapes_compute {instr : Operand → Operand → Operand → Instr}
    (hfalls : ∀ d l r, (instr d l r).falls = true) (hlabel : ∀ d l r, (instr d l r).label? = none)
    (htarget : ∀ d l r, (instr d l r).target? = none) : (compute left right instr).Shapes :=
  shapes_ofValue fun s => (shapes_operands hl hr s).append
    (.plain _ (hfalls _ _ _) (hlabel _ _ _) (htarget _ _ _))

theorem shapes_compare (op : RelOp) : (compare op left right).Shapes := by
  refine shapes_ofBranch fun t s => ?_
  -- whichever way round, a branch and a jump
  cases op <;> exact .test _ _ _ t.onTrue t.onFalse (shapes_operands hl hr s)

theorem shapes_conjunction : (conjunction left right).Shapes :=
  shapes_ofBranch fun t s => .circuit (hl.branch ⟨some s.label, t.onFalse, none⟩ s.afterLabel)
    (hr.branch ⟨t.onTrue, t.onFalse, none⟩ _) (List.mem_cons_of_mem _ List.mem_cons_self)

theorem shapes_disjunction : (disjunction left right).Shapes :=
  shapes_ofBranch fun t s => .circuit
    (.swap (hl.branch ⟨t.onTrue, some s.label, none⟩ s.afterLabel))
    (hr.branch ⟨t.onTrue, t.onFalse, none⟩ _) List.mem_cons_self

end Operators

theorem sequence_shaped : ∀ {ms : List Modes}, (∀ m ∈ ms, Shapes m) → ∀ s,
    Shaped .through s.alloc.labels (sequence ms s).2.2.alloc.labels (sequence ms s).1
  | [], _, _ => .nothing (Nat.le_refl _)
  | m :: ms, h, s => by
      obtain ⟨hm, hms⟩ := List.forall_mem_cons.mp h
      exact (hm.value s).append (sequence_shaped hms (m.value s).after)

theorem shapes_systemCall (name : String) {args : List Modes} (h : ∀ m ∈ args, Shapes m) :
    (systemCall name args).Shapes := by
  refine shapes_ofValue fun s => ?_
  have hargs := sequence_shaped h s
  dsimp only
  split
  · split
    · exact hargs.append (.plain _ rfl rfl rfl)
    · exact hargs.append (.plain _ rfl rfl rfl)
  · rw [List.append_nil]
    exact hargs

theorem handOver_shaped : ∀ {ms : List Modes} (place : Nat), (∀ m ∈ ms, Shapes m) → ∀ s,
    Shaped .through s.alloc.labels (handOver place ms s).after.alloc.labels
      (handOver place ms s).code
  | [], _, _, _ => .nothing (Nat.le_refl _)
  | m :: ms, place, h, s => by
      obtain ⟨hm, hms⟩ := List.forall_mem_cons.mp h
      have hfirst := (hm.value s).append
        (.plain (i := .arg (m.value s).operand place) _ rfl rfl rfl)
      exact hfirst.append (handOver_shaped (place + 1) hms (m.value s).after)

theorem shapes_functionCall (Γ : Scope) (name : String) (types : Check.Verdicts)
    {args : List Modes} (h : ∀ m ∈ args, Shapes m) : (functionCall Γ name types args).Shapes := by
  refine shapes_ofValue fun s => ?_
  have hargs := handOver_shaped 0 h (s.overhear types.journal)
  dsimp only
  split
  · exact .nothing (Nat.le_refl _)
  · split
    · exact hargs.append (.plain _ rfl rfl rfl)
    · exact hargs.append (.plain _ rfl rfl rfl)

end Modes

mutual

/-- **The code of every expression is built from these pieces**, in both modes. -/
theorem modes_shapes (Γ : Scope) : ∀ e : Expr, (modes Γ e).Shapes
  | .int _ _ => Modes.shapes_empty (fun _ => rfl) (fun _ => rfl)
  | .str _ _ => Modes.shapes_empty (fun _ => rfl) (fun _ => rfl)
  | .var _ name => Modes.shapes_ofVar Γ name
  | .index _ array i => Modes.shapes_compute (modes_shapes Γ array) (modes_shapes Γ i)
      (fun _ _ _ => rfl) (fun _ _ _ => rfl) (fun _ _ _ => rfl)
  | .call _ name args => by
      have hargs := modesOf_shapes Γ args
      rw [modes, Modes.call]
      split
      · exact Modes.shapes_systemCall name hargs
      · exact Modes.shapes_functionCall Γ name _ hargs
  | .unary _ op operand => by
      have h := modes_shapes Γ operand
      cases op with
      | neg => exact Modes.shapes_ofValue fun s => (h.value s).append (.plain _ rfl rfl rfl)
      | not => exact Modes.shapes_ofBranch fun t s => .swap (h.branch t.swap s)
      | address => exact Modes.shapes_ofValue h.value
      | deref => exact Modes.shapes_ofValue h.value
      | other text => exact Modes.shapes_ofValue h.value
  | .binary _ op left right => by
      have hl := modes_shapes Γ left
      have hr := modes_shapes Γ right
      cases op with
      | arith op =>
        exact Modes.shapes_compute hl hr (fun _ _ _ => rfl) (fun _ _ _ => rfl) (fun _ _ _ => rfl)
      | rel op => exact Modes.shapes_compare hl hr op
      | and => exact Modes.shapes_conjunction hl hr
      | or => exact Modes.shapes_disjunction hl hr
      | other text =>
        -- the code of the operands is dropped, the labels that they drew are not
        exact Modes.shapes_ofValue fun s => .nothing (Modes.shapes_operands hl hr s).le
  | .nameless _ _ => Modes.shapes_empty (fun _ => rfl) (fun _ => rfl)
  | .misplaced _ => Modes.shapes_empty (fun _ => rfl) (fun _ => rfl)

theorem modesOf_shapes (Γ : Scope) : ∀ es : List Expr, ∀ m ∈ modesOf Γ es, Modes.Shapes m
  | [] => fun _ h => absurd h List.not_mem_nil
  | e :: es => List.forall_mem_cons.mpr ⟨modes_shapes Γ e, modesOf_shapes Γ es⟩

end

end Lower

/-! ## 3. Labels and jumps -/

/-- Code that defines labels of a range only, jumps to these and to the targets `out`, and never
    returns. -/
structure Closed (out : List Target) (lo hi : Nat) (code : List Instr) : Prop where
  fresh : ∀ l ∈ labelsOf code, lo ≤ l.number ∧ l.number < hi
  known : ∀ u ∈ targetsOf code, u ∈ out ∨ ∃ l ∈ labelsOf code, u = some l
  stays : ∀ i ∈ code, i.returns = false

namespace Closed

variable {out out' : List Target} {lo lo' hi hi' : Nat} {c c₁ c₂ : List Instr}

theorem append (h₁ : Closed out lo hi c₁) (h₂ : Closed out lo hi c₂) :
    Closed out lo hi (c₁ ++ c₂) := by
  refine ⟨fun l hl => ?_, fun u hu => ?_, fun i hi => ?_⟩
  · rw [labelsOf_append] at hl
    exact (List.mem_append.mp hl).elim (h₁.fresh l) (h₂.fresh l)
  · rw [targetsOf_append] at hu
    rw [labelsOf_append]
    rcases List.mem_append.mp hu with hu | hu
    · exact (h₁.known u hu).imp_right fun ⟨l, hl, hul⟩ => ⟨l, List.mem_append_left _ hl, hul⟩
    · exact (h₂.known u hu).imp_right fun ⟨l, hl, hul⟩ => ⟨l, List.mem_append_right _ hl, hul⟩
  · exact (List.mem_append.mp hi).elim (h₁.stays i) (h₂.stays i)

/-- The range may be wider, and targets need not be named that the code defines itself. -/
theorem widen (h : Closed out lo hi c) (hlo : lo' ≤ lo) (hhi : hi ≤ hi')
    (hout : ∀ u ∈ out, u ∈ out' ∨ ∃ l ∈ labelsOf c, u = some l) : Closed out' lo' hi' c := by
  refine ⟨fun l hl => ?_, fun u hu => ?_, h.stays⟩
  · have hrange := h.fresh l hl
    omega
  · exact (h.known u hu).elim (hout u) Or.inr

/-- A target from below the range is not defined in the code. -/
theorem foreign (h : Closed out lo hi c) {u : Target} (hu : ∀ l, u = some l → l.number < lo) :
    ∀ l ∈ labelsOf c, u ≠ some l := by
  intro l hl heq
  have hlow := hu l heq
  have hrange := h.fresh l hl
  omega

/-- What code jumps to is named or lies in the range. -/
theorem target_cases (h : Closed out lo hi c) {i : Instr} (hmem : i ∈ c) {l : Label}
    (htarget : i.target? = some (some l)) : some l ∈ out ∨ (lo ≤ l.number ∧ l.number < hi) := by
  rcases h.known (some l) (mem_targetsOf.mpr ⟨i, hmem, htarget⟩) with hl | ⟨l', hl', heq⟩
  · exact .inl hl
  · cases heq
    exact .inr (h.fresh l hl')

end Closed

theorem Shaped.closed {w : Outlet} {lo hi : Nat} {c : List Instr} (h : Shaped w lo hi c) :
    Closed w.targets lo hi c := by
  induction h with
  | nothing => exact ⟨by simp [labelsOf], by simp, by simp⟩
  | @plain i n hfalls hlabel htarget =>
    refine ⟨by simp [labelsOf, hlabel], by simp [htarget], fun j hj => ?_⟩
    rw [List.mem_singleton.mp hj]
    cases i <;> first | rfl | exact Bool.noConfusion hfalls
  | append h₁ h₂ ih₁ ih₂ =>
    exact (ih₁.widen (Nat.le_refl _) h₂.le fun u hu => .inl hu).append
      (ih₂.widen h₁.le (Nat.le_refl _) fun u hu => .inl hu)
  | @joined n hi c dest h ih =>
    have hle := h.le
    have hc : Closed [some ⟨n⟩, some ⟨n + 1⟩, some ⟨n + 2⟩] n hi c :=
      ih.widen (by omega) (Nat.le_refl _) (by simp [Outlet.targets])
    have hends : Closed [some ⟨n⟩, some ⟨n + 1⟩, some ⟨n + 2⟩] n hi
        (Lower.ends dest ⟨n⟩ ⟨n + 1⟩ ⟨n + 2⟩) := by
      refine ⟨?_, by simp [Lower.ends, Instr.target?], by simp [Lower.ends, Instr.returns]⟩
      simp only [Lower.ends, labelsOf, Instr.label?, List.filterMap_cons, List.filterMap_nil,
        List.mem_cons, List.not_mem_nil, or_false, forall_eq_or_imp, forall_eq]
      omega
    refine (hc.append hends).widen (Nat.le_refl _) (Nat.le_refl _) fun u hu => .inr ?_
    simp only [List.mem_cons, List.not_mem_nil, or_false] at hu
    rcases hu with rfl | rfl | rfl <;>
      exact ⟨_, by simp [Lower.ends, labelsOf, Instr.label?], rfl⟩
  | @test lo hi c op a b t f h ih =>
    have hjumps : Closed [t, f] lo hi [.branch op a b t, .jump f] :=
      ⟨by simp [labelsOf, Instr.label?], by simp [Instr.target?], by simp [Instr.returns]⟩
    exact (ih.widen (Nat.le_refl _) (Nat.le_refl _) (by simp [Outlet.targets])).append hjumps
  | @circuit n mid hi t f out c₁ c₂ h₁ h₂ hout ih₁ ih₂ =>
    have hle₁ := h₁.le
    have hle₂ := h₂.le
    have hfirst : Closed [some ⟨n⟩, t, f] n hi c₁ := by
      refine ih₁.widen (by omega) hle₂ fun u hu => .inl ?_
      rcases List.mem_cons.mp hu with rfl | hu
      · exact List.mem_cons_self
      · exact List.mem_cons_of_mem _ (List.mem_singleton.mp hu ▸ hout)
    have hlabel : Closed [some ⟨n⟩, t, f] n hi [.label ⟨n⟩] := by
      refine ⟨?_, by simp [Instr.target?], by simp [Instr.returns]⟩
      simp only [labelsOf, Instr.label?, List.filterMap_cons, List.filterMap_nil, List.mem_cons,
        List.not_mem_nil, or_false, forall_eq]
      omega
    have hsecond : Closed [some ⟨n⟩, t, f] n hi c₂ :=
      ih₂.widen (by omega) (Nat.le_refl _) fun u hu => .inl (List.mem_cons_of_mem _ hu)
    refine ((hfirst.append hlabel).append hsecond).widen (Nat.le_refl _) (Nat.le_refl _) ?_
    intro u hu
    rcases List.mem_cons.mp hu with rfl | hu
    · exact .inr ⟨⟨n⟩, by simp [labelsOf, Instr.label?], rfl⟩
    · exact .inl hu
  | swap _ ih =>
    exact ih.widen (Nat.le_refl _) (Nat.le_refl _) (by simp [Outlet.targets, or_comm])

/-- Split code ends in a jump that is always taken. -/
theorem Shaped.last {w : Outlet} {lo hi : Nat} {c : List Instr} (h : Shaped w lo hi c)
    (hw : w ≠ .through) : ∃ front u, c = front ++ [.jump u] := by
  induction h with
  | nothing => exact absurd rfl hw
  | plain => exact absurd rfl hw
  | append => exact absurd rfl hw
  | joined => exact absurd rfl hw
  | @test _ _ c op a b t f => exact ⟨c ++ [.branch op a b t], f, by simp⟩
  | @circuit n _ _ _ _ _ c₁ _ _ _ _ _ ih₂ =>
    obtain ⟨front, u, heq⟩ := ih₂ nofun
    exact ⟨c₁ ++ [.label ⟨n⟩] ++ front, u, by simp [heq]⟩
  | swap _ ih => exact ih nofun

/-! ## 4. Walks that come out -/

/-- A walk comes out at each end that there is. -/
def Outlet.Reached (code : List Instr) : Outlet → Prop
  | .through => ∃ met, Walk code met code.length
  | .split t f => (∃ met, Leaves code met (.to t)) ∧ ∃ met, Leaves code met (.to f)

/-- The two jumps at the end of a test, behind code that is run through. -/
theorem leaves_test {c : List Instr} (op : Comparison) (a b : Operand) {t f : Target}
    (hrun : ∃ met, Walk c met c.length)
    (ht : ∀ l ∈ labelsOf (c ++ [.branch op a b t, .jump f]), t ≠ some l)
    (hf : ∀ l ∈ labelsOf (c ++ [.branch op a b t, .jump f]), f ≠ some l) :
    (Outlet.split t f).Reached (c ++ [.branch op a b t, .jump f]) := by
  obtain ⟨met, hmet⟩ := hrun
  have hthere := hmet.append_right [.branch op a b t, .jump f]
  have hholds : Leaves [.branch op a b t, .jump f] [.branch op a b t] (.to t) :=
    .jump .start rfl rfl (by simp [labelsOf, Instr.label?])
  have hfails : Leaves [.branch op a b t, .jump f] [.branch op a b t, .jump f] (.to f) :=
    .jump (Walk.start.step rfl (.next rfl)) rfl rfl (by simp [labelsOf, Instr.label?])
  exact ⟨⟨_, .append_left hthere hholds ht⟩, ⟨_, .append_left hthere hfails hf⟩⟩

/-- **A walk comes out at each end**, if the targets were drawn before. -/
theorem Shaped.reaches {w : Outlet} {lo hi : Nat} {c : List Instr} (h : Shaped w lo hi c)
    (hw : ∀ l, some l ∈ w.targets → l.number < lo) : w.Reached c := by
  induction h with
  | nothing => exact ⟨[], .start⟩
  | @plain i _ hfalls => exact ⟨[i], Walk.start.step rfl (.next hfalls)⟩
  | @append _ _ _ c₁ c₂ _ _ ih₁ ih₂ =>
    obtain ⟨met₁, h₁⟩ := ih₁ nofun
    obtain ⟨met₂, h₂⟩ := ih₂ nofun
    have hall := (h₁.append_right c₂).append_left h₂
    rw [← List.length_append] at hall
    exact ⟨_, hall⟩
  | @joined n hi c dest h ih =>
    obtain ⟨⟨met, hyes⟩, -⟩ := ih (by simp [Outlet.targets])
    -- from the first end past the second one
    let ends := Lower.ends dest ⟨n⟩ ⟨n + 1⟩ ⟨n + 2⟩
    have hthere : Walk (c ++ ends) met c.length := hyes.land (getElem?_in_second c ends 0)
    have hends : Walk ends [.label ⟨n⟩, .move dest (.literal 1), .jump (some ⟨n + 2⟩),
        .label ⟨n + 2⟩] ends.length :=
      (((Walk.start.step rfl (.next rfl)).step rfl (.next rfl)).step rfl
        (.jump rfl (q := 5) rfl)).step rfl (.next rfl)
    have hall := hthere.append_left hends
    rw [← List.length_append] at hall
    exact ⟨_, hall⟩
  | @test lo hi c op a b t f h ih =>
    have hclosed := (Shaped.test op a b t f h).closed
    refine leaves_test op a b (ih nofun) (hclosed.foreign fun l hl => ?_)
      (hclosed.foreign fun l hl => ?_)
    · exact hw l (hl ▸ List.mem_cons_self)
    · exact hw l (hl ▸ List.mem_cons_of_mem _ List.mem_cons_self)
  | @circuit n mid hi t f out c₁ c₂ h₁ h₂ hout ih₁ ih₂ =>
    have hle := h₁.le
    have hout' : ∀ l, some l ∈ [some ⟨n⟩, out] → l.number < n + 1 := by
      intro l hl
      rcases List.mem_cons.mp hl with heq | hl
      · cases heq
        exact Nat.lt_succ_self n
      · exact Nat.lt_succ_of_lt (hw l (List.mem_singleton.mp hl ▸ hout))
    obtain ⟨⟨met, hmid⟩, -⟩ := ih₁ hout'
    obtain ⟨⟨metT, ht⟩, metF, hf⟩ := ih₂ fun l hl => Nat.lt_of_lt_of_le (hw l hl) (by omega)
    have hlabel : (c₁ ++ [.label ⟨n⟩])[c₁.length]? = some (Instr.label ⟨n⟩) :=
      getElem?_in_second c₁ _ 0
    have hthere : Walk (c₁ ++ [.label ⟨n⟩]) (met ++ [.label ⟨n⟩])
        (c₁ ++ [Instr.label ⟨n⟩]).length := by
      rw [List.length_append]
      exact (hmid.land hlabel).step hlabel (.next rfl)
    have hclosed := (Shaped.circuit h₁ h₂ hout).closed
    refine ⟨⟨_, .append_left (hthere.append_right c₂) ht (hclosed.foreign fun l hl => ?_)⟩,
      ⟨_, .append_left (hthere.append_right c₂) hf (hclosed.foreign fun l hl => ?_)⟩⟩
    · exact hw l (hl ▸ List.mem_cons_self)
    · exact hw l (hl ▸ List.mem_cons_of_mem _ List.mem_cons_self)
  | swap _ ih =>
    obtain ⟨hf, ht⟩ := ih fun l hl => hw l (by simpa [Outlet.targets, or_comm] using hl)
    exact ⟨ht, hf⟩

/-! ## 5. Split code -/

/-- **Code that is left to two labels**, to both of them and in no other way. -/
structure TwoWay (code : List Instr) (t f : Label) : Prop where
  leaves : ∀ w, (∃ met, Leaves code met w) ↔ w = .to (some t) ∨ w = .to (some f)
  last : ∃ front u, code = front ++ [.jump u]
  jumps : ∀ u ∈ targetsOf code, u = some t ∨ u = some f ∨ ∃ l ∈ labelsOf code, u = some l
  onTrue : some t ∈ targetsOf code
  onFalse : some f ∈ targetsOf code

/-- **Two pieces with a label between them**: the second one is run only after the first one has
    been left to that label, and not when the first one has been left to the label `out`. -/
structure Guards (first : List Instr) (m : Label) (second : List Instr) (out : Label) : Prop where
  skips : ∀ met, Leaves first met (.to (some out)) →
    Leaves (first ++ [.label m] ++ second) met (.to (some out))
  enters : ∀ met pc, Walk (first ++ [.label m] ++ second) met pc →
    (pc < first.length ∧ Walk first met pc) ∨
    ∃ met₁ met₂ p, met = met₁ ++ met₂ ∧ pc = first.length + p ∧
      Leaves first met₁ (.to (some m)) ∧ Walk (.label m :: second) met₂ p

theorem Leaves.mem_targetsOf {code met : List Instr} {u : Target} (h : Leaves code met (.to u)) :
    u ∈ targetsOf code := by
  cases h with
  | jump _ hi htarget _ => exact CMinusMinus.mem_targetsOf.mpr ⟨_, List.mem_of_getElem? hi, htarget⟩

/-- No walk runs off the end of code whose last instruction is a jump that is always taken. -/
theorem not_walk_behind_jump {front met : List Instr} {u : Target} :
    ¬ Walk (front ++ [.jump u]) met (front ++ [Instr.jump u]).length := by
  intro h
  have hlen : (front ++ [Instr.jump u]).length = front.length + 1 := by simp
  generalize hend : (front ++ [Instr.jump u]).length = q at h
  cases h with
  | start => omega
  | step hwalk hi hedge =>
    cases hedge with
    | next hfalls =>
      have hpc := Nat.add_right_cancel (hlen.symm.trans hend)
      rw [← hpc] at hi
      cases hi.symm.trans (getElem?_in_second front [.jump u] 0)
      exact Bool.noConfusion hfalls
    | jump _ hq =>
      have hlt := (List.getElem?_eq_some_iff.mp hq).1
      omega

/-- A walk through two pieces with a label between them is still in the first one, or has left it to
    the label; if the first one ends in a jump and knows no other label of the rest, and the second
    one knows none of the first one. -/
theorem Walk.split {first second front met : List Instr} {m : Label} {u : Target} {pc : Nat}
    (h : Walk (first ++ .label m :: second) met pc) (hlast : first = front ++ [.jump u])
    (hm : m ∉ labelsOf first)
    (hforth : ∀ i ∈ first, ∀ l, i.target? = some (some l) → l ∉ labelsOf second)
    (hback : ∀ i ∈ second, ∀ l, i.target? = some (some l) → l ∉ labelsOf first) :
    (pc < first.length ∧ Walk first met pc) ∨
    ∃ met₁ met₂ p, met = met₁ ++ met₂ ∧ pc = first.length + p ∧
      Leaves first met₁ (.to (some m)) ∧ Walk (.label m :: second) met₂ p := by
  induction h with
  | start =>
    refine .inl ⟨?_, .start⟩
    simp [hlast]
  | @step met pc q i hwalk hi hedge ih =>
    rcases ih with ⟨hpc, hin⟩ | ⟨met₁, met₂, p, rfl, rfl, hleft, hin⟩
    · rw [List.getElem?_append_left hpc] at hi
      cases hedge with
      | next hfalls =>
        have hnext : Walk first (met ++ [i]) (pc + 1) := hin.step hi (.next hfalls)
        by_cases hend : pc + 1 = first.length
        · -- the last instruction of the first piece does not go on to the next one
          rw [hend, hlast] at hnext
          exact absurd hnext not_walk_behind_jump
        · exact .inl ⟨by omega, hnext⟩
      | @jump _ l htarget hq =>
        by_cases hlt : q < first.length
        · rw [List.getElem?_append_left hlt] at hq
          exact .inl ⟨hlt, hin.step hi (.jump htarget hq)⟩
        · obtain ⟨p, rfl⟩ := Nat.exists_eq_add_of_le (Nat.le_of_not_lt hlt)
          rw [getElem?_in_second] at hq
          cases p with
          | zero =>
            cases hq
            refine .inr ⟨met ++ [i], [], 0, by simp, rfl, .jump hin hi htarget ?_, .start⟩
            exact fun l hl heq => hm (Option.some.inj heq ▸ hl)
          | succ p =>
            have hl : l ∈ labelsOf second := mem_labelsOf_of_getElem? (q := p) hq
            exact absurd hl (hforth i (List.mem_of_getElem? hi) l htarget)
    · rw [getElem?_in_second] at hi
      cases hedge with
      | next hfalls =>
        exact .inr ⟨met₁, met₂ ++ [i], p + 1, by simp, rfl, hleft, hin.step hi (.next hfalls)⟩
      | @jump _ l htarget hq =>
        by_cases hlt : q < first.length
        · rw [List.getElem?_append_left hlt] at hq
          rcases List.mem_cons.mp (List.mem_of_getElem? hi) with rfl | hmem
          · cases htarget
          · exact absurd (mem_labelsOf_of_getElem? hq) (hback i hmem l htarget)
        · obtain ⟨r, rfl⟩ := Nat.exists_eq_add_of_le (Nat.le_of_not_lt hlt)
          rw [getElem?_in_second] at hq
          exact .inr ⟨met₁, met₂ ++ [i], r, by simp, rfl, hleft, hin.step hi (.jump htarget hq)⟩

section Split

variable {lo mid hi n : Nat} {c c₁ c₂ : List Instr} {t f out : Label}

/-- **Split code is left to both its targets and in no other way.** -/
theorem Shaped.twoWay (h : Shaped (.split (some t) (some f)) lo hi c) (ht : t.number < lo)
    (hf : f.number < lo) : TwoWay c t f := by
  have hlow : ∀ l, some l ∈ (Outlet.split (some t) (some f)).targets → l.number < lo := by
    intro l hl
    rcases Outlet.mem_split.mp hl with rfl | rfl
    · exact ht
    · exact hf
  have hjumps : ∀ u ∈ targetsOf c, u = some t ∨ u = some f ∨ ∃ l ∈ labelsOf c, u = some l := by
    intro u hu
    simpa [Outlet.targets, or_assoc] using h.closed.known u hu
  obtain ⟨⟨metT, hmetT⟩, metF, hmetF⟩ := h.reaches hlow
  obtain ⟨front, g, hlast⟩ := h.last nofun
  refine ⟨fun w => ⟨fun ⟨met, hmet⟩ => ?_, fun hw => ?_⟩, ⟨front, g, hlast⟩, hjumps,
    hmetT.mem_targetsOf, hmetF.mem_targetsOf⟩
  · cases hmet with
    | behind hwalk =>
      rw [hlast] at hwalk
      exact absurd hwalk not_walk_behind_jump
    | @jump met pc i u hwalk hi htarget hout =>
      rcases hjumps u (mem_targetsOf.mpr ⟨i, List.mem_of_getElem? hi, htarget⟩) with
        hu | hu | ⟨l, hl, hu⟩
      · exact .inl (congrArg Way.to hu)
      · exact .inr (congrArg Way.to hu)
      · exact absurd hu (hout l hl)
    | back hwalk hi hreturns =>
      rw [h.closed.stays _ (List.mem_of_getElem? hi)] at hreturns
      exact Bool.noConfusion hreturns
  · rcases hw with rfl | rfl
    · exact ⟨metT, hmetT⟩
    · exact ⟨metF, hmetF⟩

/-- **The second piece is entered through the label alone**: in the first one all jumps go below
    the labels of the second one, and in the second one none goes back. -/
theorem Shaped.guards (h₁ : Shaped (.split (some ⟨n⟩) (some out)) (n + 1) mid c₁)
    (h₂ : Shaped (.split (some t) (some f)) mid hi c₂) (hout : out.number < n) (ht : t.number < n)
    (hf : f.number < n) : Guards c₁ ⟨n⟩ c₂ out := by
  have hle := h₁.le
  obtain ⟨front, u, hlast⟩ := h₁.last nofun
  refine ⟨fun met hmet => ?_, fun met pc hwalk => ?_⟩
  · rw [List.append_assoc]
    refine hmet.append_right fun l hl heq => ?_
    cases heq
    rcases List.mem_append.mp (labelsOf_append _ _ ▸ hl) with hl | hl
    · have hrange := h₁.closed.fresh out hl
      omega
    · rcases List.mem_cons.mp hl with rfl | hl
      · exact Nat.lt_irrefl n hout
      · have hrange := h₂.closed.fresh out hl
        omega
  · rw [List.append_assoc] at hwalk
    refine hwalk.split hlast (fun hm => ?_) (fun i hmem l htarget hl => ?_)
      (fun i hmem l htarget hl => ?_)
    · exact Nat.not_succ_le_self n (h₁.closed.fresh _ hm).1
    · have hrange := h₂.closed.fresh l hl
      rcases h₁.closed.target_cases hmem htarget with hnamed | hown
      · rcases Outlet.mem_split.mp hnamed with rfl | rfl
        · exact absurd (Nat.le_trans hle hrange.1) (Nat.not_succ_le_self n)
        · omega
      · omega
    · have hrange := h₁.closed.fresh l hl
      rcases h₂.closed.target_cases hmem htarget with hnamed | hown
      · rcases Outlet.mem_split.mp hnamed with rfl | rfl <;> omega
      · omega

end Split

/-! ## 6. Conditions -/

namespace Lower

/-- **Control leaves the code of a condition to its two labels and nowhere else**: labels that have
    been drawn before. A conjunction is the code of its left side, a new label and the code of its
    right side, which is entered through that label alone, so not when the left side has jumped to
    the label for false; a disjunction is the same with the label for true. A negation is the code
    of its operand with the labels exchanged. -/
theorem branch_two_way (Γ : Scope) (e : Expr) (t f : Label) (s : State)
    (ht : t.number < s.alloc.labels) (hf : f.number < s.alloc.labels) :
    TwoWay (branch Γ e ⟨some t, some f, none⟩ s).code t f ∧
    (∀ pos a b, e = .binary pos .and a b → ∃ first second,
      first = branch Γ a ⟨some s.label, some f, none⟩ s.afterLabel ∧
      second = branch Γ b ⟨some t, some f, none⟩ first.after ∧
      (branch Γ e ⟨some t, some f, none⟩ s).code =
        first.code ++ [.label s.label] ++ second.code ∧
      TwoWay first.code s.label f ∧ TwoWay second.code t f ∧
      Guards first.code s.label second.code f) ∧
    (∀ pos a b, e = .binary pos .or a b → ∃ first second,
      first = branch Γ a ⟨some t, some s.label, none⟩ s.afterLabel ∧
      second = branch Γ b ⟨some t, some f, none⟩ first.after ∧
      (branch Γ e ⟨some t, some f, none⟩ s).code =
        first.code ++ [.label s.label] ++ second.code ∧
      TwoWay first.code t s.label ∧ TwoWay second.code t f ∧
      Guards first.code s.label second.code t) ∧
    (∀ pos a, e = .unary pos .not a →
      branch Γ e ⟨some t, some f, none⟩ s = branch Γ a ⟨some f, some t, none⟩ s) := by
  have hsplit : ∀ (e : Expr) (t f : Label) (s : State),
      Shaped (.split (some t) (some f)) s.alloc.labels
        (branch Γ e ⟨some t, some f, none⟩ s).after.alloc.labels
        (branch Γ e ⟨some t, some f, none⟩ s).code :=
    fun e t f s => (modes_shapes Γ e).branch ⟨some t, some f, none⟩ s
  have hnew : s.label.number < s.afterLabel.alloc.labels := Nat.lt_succ_self _
  have ht' : t.number < s.afterLabel.alloc.labels := Nat.lt_succ_of_lt ht
  have hf' : f.number < s.afterLabel.alloc.labels := Nat.lt_succ_of_lt hf
  refine ⟨(hsplit e t f s).twoWay ht hf, ?_, ?_, ?_⟩
  · intro pos a b he
    subst he
    have hfirst := hsplit a s.label f s.afterLabel
    have hsecond := hsplit b t f (branch Γ a ⟨some s.label, some f, none⟩ s.afterLabel).after
    exact ⟨_, _, rfl, rfl, rfl, hfirst.twoWay hnew hf',
      hsecond.twoWay (Nat.lt_of_lt_of_le ht' hfirst.le) (Nat.lt_of_lt_of_le hf' hfirst.le),
      hfirst.guards hsecond hf ht hf⟩
  · intro pos a b he
    subst he
    have hfirst := hsplit a t s.label s.afterLabel
    have hsecond := hsplit b t f (branch Γ a ⟨some t, some s.label, none⟩ s.afterLabel).after
    exact ⟨_, _, rfl, rfl, rfl, hfirst.twoWay ht' hnew,
      hsecond.twoWay (Nat.lt_of_lt_of_le ht' hfirst.le) (Nat.lt_of_lt_of_le hf' hfirst.le),
      hfirst.swap.guards hsecond ht ht hf⟩
  · intro pos a he
    subst he
    rfl

/-- `odd(7) && !(2 < 3 || odd(2))`, where `odd` takes an integer. -/
def oddAndNot : Expr :=
  .binary {} .and (.call {} "odd" [.int {} 7])
    (.unary {} .not (.binary {} .or (.binary {} (.rel .lt) (.int {} 2) (.int {} 3))
      (.call {} "odd" [.int {} 2])))

theorem branch_two_way_oddAndNot :
    TwoWay [.arg (.literal 7) 0, .callValue (.temporary 0) "odd_int" 1,
      .branch .ne (.temporary 0) (.literal 0) (some ⟨2⟩), .jump (some ⟨1⟩), .label ⟨2⟩,
      .branch .lt (.literal 2) (.literal 3) (some ⟨1⟩), .jump (some ⟨3⟩), .label ⟨3⟩,
      .arg (.literal 2) 0, .callValue (.temporary 1) "odd_int" 1,
      .branch .ne (.temporary 1) (.literal 0) (some ⟨1⟩), .jump (some ⟨0⟩)] ⟨0⟩ ⟨1⟩ :=
  (branch_two_way { globals := [("odd", .function ⟨.bool, [.int], false⟩)] } oddAndNot ⟨0⟩ ⟨1⟩
    { alloc := { labels := 2 } } (by decide) (by decide)).1

end Lower

end CMinusMinus
