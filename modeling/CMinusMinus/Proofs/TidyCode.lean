/-
  File:      CMinusMinus/Proofs/TidyCode.lean
  Subject:   Labels of a piece of code: defined once, used, and none missing.

  A label is drawn by the code around, handed down through conditions that swap and split it, and
  defined elsewhere. A piece of code that is made while the label counter goes from `lo` to `hi` is
  TIDY when it defines labels of that range only, none of them twice and none in vain, and jumps to
  nothing but these and the targets that were handed down to it. Tidy pieces are put together by two
  rules: one after the other, and with the definition of one more label put between them.

  * `labelsOf`, `targetsOf` -- what code defines and where it jumps to;
  * `TidyCode`, `TidyCode.append`, `TidyCode.define` -- tidy code and its two rules;
  * `modes_tidy`, `stmt_tidy`, `block_tidy` -- the code of proper trees is tidy.
-/
import CMinusMinus.Lower.Program
import CMinusMinus.Proofs.LabelText
import CMinusMinus.Proofs.ProperTrees

namespace CMinusMinus

/-! ## 1. Definitions and targets -/

/-- The label that an instruction defines. -/
def Instr.label? : Instr → Option Label
  | .label l => some l
  | _ => none

/-- The labels that code defines, in order. -/
def labelsOf (code : List Instr) : List Label := code.filterMap Instr.label?

/-- The targets of the jumps in code, in order. -/
def targetsOf (code : List Instr) : List Target := code.filterMap Instr.target?

@[simp] theorem labelsOf_append (c₁ c₂ : List Instr) :
    labelsOf (c₁ ++ c₂) = labelsOf c₁ ++ labelsOf c₂ := List.filterMap_append

@[simp] theorem targetsOf_append (c₁ c₂ : List Instr) :
    targetsOf (c₁ ++ c₂) = targetsOf c₁ ++ targetsOf c₂ := List.filterMap_append

@[simp] theorem targetsOf_nil : targetsOf [] = [] := rfl

@[simp] theorem targetsOf_cons (i : Instr) (code : List Instr) :
    targetsOf (i :: code) = i.target?.toList ++ targetsOf code := by
  unfold targetsOf
  rw [List.filterMap_cons]
  cases i.target? <;> rfl

theorem mem_targetsOf {code : List Instr} {t : Target} :
    t ∈ targetsOf code ↔ ∃ i ∈ code, i.target? = some t := List.mem_filterMap

/-- Code of a function uses a label exactly if it jumps to it. -/
theorem any_uses_iff {code : List Instr} (h : ∀ i ∈ code, i.Inner) (l : Label) :
    code.any (·.uses l) = true ↔ some l ∈ targetsOf code := by
  rw [List.any_eq_true, mem_targetsOf]
  constructor
  · intro ⟨i, hi, huses⟩
    exact ⟨i, hi, (Instr.uses_iff (h i hi) l).mp huses⟩
  · intro ⟨i, hi, htarget⟩
    exact ⟨i, hi, (Instr.uses_iff (h i hi) l).mpr htarget⟩

/-! ## 2. Tidy code -/

/-- **Tidy code**, made while the label counter goes from `lo` to `hi`, with the targets `out`
    handed down to it. -/
structure TidyCode (code : List Instr) (lo hi : Nat) (out : List Target) : Prop where
  le : lo ≤ hi
  inner : ∀ i ∈ code, i.Inner
  nodup : (labelsOf code).Nodup
  fresh : ∀ l ∈ labelsOf code, lo ≤ l.number ∧ l.number < hi
  used : ∀ l ∈ labelsOf code, some l ∈ targetsOf code
  known : ∀ t ∈ targetsOf code, t ∈ out ∨ ∃ l ∈ labelsOf code, t = some l

namespace TidyCode

variable {code c₁ c₂ : List Instr} {lo mid hi n : Nat} {out out₁ out₂ : List Target}

theorem nil (n : Nat) : TidyCode [] n n [] where
  le := Nat.le_refl n
  inner _ h := absurd h List.not_mem_nil
  nodup := List.nodup_nil
  fresh _ h := absurd h List.not_mem_nil
  used _ h := absurd h List.not_mem_nil
  known _ h := absurd h List.not_mem_nil

/-- An instruction that is no label; its target, if it has one, was handed down. -/
theorem instr {i : Instr} (hinner : i.Inner) (hlabel : i.label? = none) (n : Nat) :
    TidyCode [i] n n i.target?.toList := by
  have hlabels : labelsOf [i] = [] := by simp [labelsOf, hlabel]
  refine ⟨Nat.le_refl n, ?_, ?_, ?_, ?_, ?_⟩
  · intro j hj
    rw [List.mem_singleton.mp hj]
    exact hinner
  · rw [hlabels]
    exact List.nodup_nil
  · intro l hl
    rw [hlabels] at hl
    exact absurd hl List.not_mem_nil
  · intro l hl
    rw [hlabels] at hl
    exact absurd hl List.not_mem_nil
  · intro t ht
    obtain ⟨j, hj, hjt⟩ := mem_targetsOf.mp ht
    rw [List.mem_singleton.mp hj] at hjt
    rw [hjt]
    exact Or.inl List.mem_cons_self

theorem jump (t : Target) (n : Nat) : TidyCode [.jump t] n n [t] :=
  instr (i := .jump t) trivial rfl n

/-- More targets may have been handed down than are used. -/
theorem weaken (h : TidyCode code lo hi out) (hout : ∀ t ∈ targetsOf code, t ∈ out → t ∈ out₁) :
    TidyCode code lo hi out₁ :=
  { h with known := fun t ht => (h.known t ht).imp (hout t ht) id }

theorem spare (h : TidyCode code lo hi []) (out : List Target) : TidyCode code lo hi out :=
  h.weaken fun _ _ hu => absurd hu List.not_mem_nil

/-- Fewer labels may have been drawn before. -/
theorem lower (h : TidyCode code lo hi out) (hle : n ≤ lo) : TidyCode code n hi out :=
  { h with
    le := Nat.le_trans hle h.le
    fresh := fun l hl => ⟨Nat.le_trans hle (h.fresh l hl).1, (h.fresh l hl).2⟩ }

/-- **Tidy pieces one after the other.** -/
theorem append (h₁ : TidyCode c₁ lo mid out₁) (h₂ : TidyCode c₂ mid hi out₂) :
    TidyCode (c₁ ++ c₂) lo hi (out₁ ++ out₂) := by
  refine ⟨Nat.le_trans h₁.le h₂.le, ?_, ?_, ?_, ?_, ?_⟩
  · exact fun i hi => (List.mem_append.mp hi).elim (h₁.inner i) (h₂.inner i)
  · rw [labelsOf_append]
    refine List.nodup_append.mpr ⟨h₁.nodup, h₂.nodup, ?_⟩
    -- the first piece's labels lie below the counter in the middle, the second one's do not
    intro l hl m hm heq
    have hlt := (h₁.fresh l hl).2
    have hge := (h₂.fresh m hm).1
    rw [← heq] at hge
    omega
  · intro l hl
    rw [labelsOf_append] at hl
    have hle₁ := h₁.le
    have hle₂ := h₂.le
    rcases List.mem_append.mp hl with hl | hl
    · have hfresh := h₁.fresh l hl
      omega
    · have hfresh := h₂.fresh l hl
      omega
  · intro l hl
    rw [labelsOf_append] at hl
    rw [targetsOf_append]
    exact List.mem_append.mpr ((List.mem_append.mp hl).imp (h₁.used l) (h₂.used l))
  · intro t ht
    rw [targetsOf_append] at ht
    rw [labelsOf_append]
    rcases List.mem_append.mp ht with ht | ht
    · rcases h₁.known t ht with hout | ⟨l, hl, hlt⟩
      · exact Or.inl (List.mem_append_left _ hout)
      · exact Or.inr ⟨l, List.mem_append_left _ hl, hlt⟩
    · rcases h₂.known t ht with hout | ⟨l, hl, hlt⟩
      · exact Or.inl (List.mem_append_right _ hout)
      · exact Or.inr ⟨l, List.mem_append_right _ hl, hlt⟩

/-- Tidiness does not depend on the order of the instructions. -/
theorem perm (h : TidyCode c₁ lo hi out) (hperm : c₁.Perm c₂) : TidyCode c₂ lo hi out := by
  have hlabels : (labelsOf c₁).Perm (labelsOf c₂) := hperm.filterMap _
  have htargets : (targetsOf c₁).Perm (targetsOf c₂) := hperm.filterMap _
  refine ⟨h.le, ?_, hlabels.nodup_iff.mp h.nodup, ?_, ?_, ?_⟩
  · exact fun i hi => h.inner i (hperm.mem_iff.mpr hi)
  · exact fun l hl => h.fresh l (hlabels.mem_iff.mpr hl)
  · exact fun l hl => htargets.mem_iff.mp (h.used l (hlabels.mem_iff.mpr hl))
  · intro t ht
    rcases h.known t (htargets.mem_iff.mpr ht) with hout | ⟨l, hl, hlt⟩
    · exact Or.inl hout
    · exact Or.inr ⟨l, hlabels.mem_iff.mp hl, hlt⟩

/-- **The definition of one more label**, drawn before all others of the code and used in it. -/
theorem define (h : TidyCode code (n + 1) hi out) (out₁ : List Target)
    (hused : some ⟨n⟩ ∈ targetsOf code) (hout : ∀ t ∈ out, t = some ⟨n⟩ ∨ t ∈ out₁) :
    TidyCode (.label ⟨n⟩ :: code) n hi out₁ := by
  refine ⟨Nat.le_of_succ_le h.le, ?_, ?_, ?_, ?_, ?_⟩
  · exact List.forall_mem_cons.mpr ⟨trivial, h.inner⟩
  · refine List.nodup_cons.mpr ⟨fun hmem => ?_, h.nodup⟩
    exact Nat.not_succ_le_self n (h.fresh _ hmem).1
  · intro l hl
    rcases List.mem_cons.mp hl with heq | hl
    · rw [heq]
      exact ⟨Nat.le_refl n, h.le⟩
    · have hfresh := h.fresh l hl
      omega
  · intro l hl
    rcases List.mem_cons.mp hl with heq | hl
    · rw [heq]
      exact hused
    · exact h.used l hl
  · intro t ht
    rcases h.known t ht with ho | ⟨l, hl, hlt⟩
    · rcases hout t ho with heq | ho
      · exact Or.inr ⟨⟨n⟩, List.mem_cons_self, heq⟩
      · exact Or.inl ho
    · exact Or.inr ⟨l, List.mem_cons_of_mem _ hl, hlt⟩

/-- Two pieces with a label between them that the first one jumps to. -/
theorem between (h₁ : TidyCode c₁ (n + 1) mid out₁) (h₂ : TidyCode c₂ mid hi out₂)
    (hused : some ⟨n⟩ ∈ targetsOf c₁) (hout : ∀ t ∈ out₁ ++ out₂, t = some ⟨n⟩ ∨ t ∈ out) :
    TidyCode (c₁ ++ [.label ⟨n⟩] ++ c₂) n hi out := by
  have hboth := (h₁.append h₂).define out (by simp [hused]) hout
  refine hboth.perm (List.perm_iff_count.mpr fun i => ?_)
  simp only [List.count_append, List.count_cons, List.count_nil]
  omega

/-- One more instruction behind, neither label nor jump. -/
theorem snoc {i : Instr} (h : TidyCode code lo hi out) (hinner : i.Inner)
    (hlabel : i.label? = none) (htarget : i.target? = none) :
    TidyCode (code ++ [i]) lo hi out := by
  have hboth := h.append (instr hinner hlabel _)
  rw [htarget, Option.toList_none, List.append_nil] at hboth
  exact hboth

/-- The two jumps at the end of a condition. -/
theorem branches (h : TidyCode code lo hi []) (test : Comparison) (left right : Operand)
    (t : Targets Target) :
    TidyCode (code ++ [.branch test left right t.onTrue, .jump t.onFalse]) lo hi
      [t.onTrue, t.onFalse] := by
  have hbranch := instr (i := .branch test left right t.onTrue) trivial rfl hi
  exact h.append (hbranch.append (jump t.onFalse hi))

end TidyCode

namespace Lower

/-! ## 3. Expressions -/

/-- Both modes of an expression make tidy code, and a branch uses both its targets. -/
structure Modes.Tidy (m : Modes) : Prop where
  value : ∀ s, TidyCode (m.value s).code s.alloc.labels (m.value s).after.alloc.labels []
  branch : ∀ t s, TidyCode (m.branch t s).code s.alloc.labels (m.branch t s).after.alloc.labels
    [t.onTrue, t.onFalse]
  onTrue : ∀ t s, t.onTrue ∈ targetsOf (m.branch t s).code
  onFalse : ∀ t s, t.onFalse ∈ targetsOf (m.branch t s).code

namespace Modes

theorem tidy_ofValue {value : State → Emitted}
    (h : ∀ s, TidyCode (value s).code s.alloc.labels (value s).after.alloc.labels []) :
    (ofValue value).Tidy where
  value := h
  branch t s := (h s).branches _ _ _ t
  onTrue t s := by
    change t.onTrue ∈ targetsOf (_ ++ _)
    rw [targetsOf_append]
    exact List.mem_append_right _ List.mem_cons_self
  onFalse t s := by
    change t.onFalse ∈ targetsOf (_ ++ _)
    rw [targetsOf_append]
    exact List.mem_append_right _ (List.mem_cons_of_mem _ List.mem_cons_self)

/-- The three labels of a materialised branch are defined behind it. -/
theorem tidy_materialise {branch : Targets Target → State → Lowered}
    (hbranch : ∀ t s, TidyCode (branch t s).code s.alloc.labels (branch t s).after.alloc.labels
      [t.onTrue, t.onFalse])
    (hTrue : ∀ t s, t.onTrue ∈ targetsOf (branch t s).code)
    (hFalse : ∀ t s, t.onFalse ∈ targetsOf (branch t s).code) (s : State) :
    TidyCode (materialise branch s).code s.alloc.labels (materialise branch s).after.alloc.labels
      [] := by
  let n := s.alloc.labels
  let s₃ := s.afterTemporary.afterLabel.afterLabel.afterLabel
  let t : Targets Target := ⟨some ⟨n⟩, some ⟨n + 1⟩, none⟩
  let one : Instr := .move s.temporary (.literal 1)
  let zero : Instr := .move s.temporary (.literal 0)
  let b := branch t s₃
  have hb : TidyCode b.code (n + 3) b.after.alloc.labels [some ⟨n⟩, some ⟨n + 1⟩] := hbranch t s₃
  have hno : some ⟨n + 1⟩ ∈ targetsOf b.code := hFalse t s₃
  have hyes : some ⟨n⟩ ∈ targetsOf b.code := hTrue t s₃
  -- the code without its labels, then these in the order opposite to their drawing
  have hjump := (hb.append (TidyCode.jump (some ⟨n + 2⟩) _)).snoc (i := one) trivial rfl rfl
  have hmove := hjump.snoc (i := zero) trivial rfl rfl
  have h₂ := hmove.define [some ⟨n⟩, some ⟨n + 1⟩] (by simp [Instr.target?]) (by simp)
  have h₁ := h₂.define [some ⟨n⟩] (by simp [hno]) (by simp)
  have h₀ := h₁.define [] (by simp [hyes]) (by simp)
  refine h₀.perm (List.perm_iff_count.mpr fun i => ?_)
  change _ = List.count i (b.code ++ ends s.temporary ⟨n⟩ ⟨n + 1⟩ ⟨n + 2⟩)
  simp only [one, zero, ends, List.count_append, List.count_cons, List.count_nil]
  omega

theorem tidy_ofBranch {branch : Targets Target → State → Lowered}
    (hbranch : ∀ t s, TidyCode (branch t s).code s.alloc.labels (branch t s).after.alloc.labels
      [t.onTrue, t.onFalse])
    (hTrue : ∀ t s, t.onTrue ∈ targetsOf (branch t s).code)
    (hFalse : ∀ t s, t.onFalse ∈ targetsOf (branch t s).code) : (ofBranch branch).Tidy :=
  ⟨tidy_materialise hbranch hTrue hFalse, hbranch, hTrue, hFalse⟩

/-- Code that is empty and draws no label. -/
theorem tidy_empty {value : State → Emitted} (hcode : ∀ s, (value s).code = [])
    (hlabels : ∀ s, (value s).after.alloc.labels = s.alloc.labels) : (ofValue value).Tidy := by
  refine tidy_ofValue fun s => ?_
  rw [hcode, hlabels]
  exact TidyCode.nil _

theorem tidy_ofVar (Γ : Scope) (name : String) : (ofVar Γ name).Tidy := by
  unfold ofVar
  split
  · exact tidy_empty (fun _ => rfl) (fun _ => rfl)
  · exact tidy_empty (fun _ => rfl) (fun _ => rfl)

section Operators

variable {left right operand : Modes} (hl : left.Tidy) (hr : right.Tidy)

include hl hr

theorem tidy_compute {instr : Operand → Operand → Operand → Instr}
    (hinner : ∀ d l r, (instr d l r).Inner) (hlabel : ∀ d l r, (instr d l r).label? = none)
    (htarget : ∀ d l r, (instr d l r).target? = none) : (compute left right instr).Tidy := by
  refine tidy_ofValue fun s => ?_
  have hoperands := (hl.value s).append (hr.value (left.value s).after)
  exact hoperands.snoc (hinner _ _ _) (hlabel _ _ _) (htarget _ _ _)

theorem tidy_compare (op : RelOp) : (compare op left right).Tidy := by
  -- whichever way round, a branch and a jump
  have hcode : ∀ (t : Targets Target) (s : State), ∃ test a b,
      ((compare op left right).branch t s).code = (left.value s).code ++
        (right.value (left.value s).after).code ++ [.branch test a b t.onTrue, .jump t.onFalse] := by
    intro t s
    cases op <;> exact ⟨_, _, _, rfl⟩
  refine tidy_ofBranch ?_ ?_ ?_
  · intro t s
    obtain ⟨test, a, b, h⟩ := hcode t s
    have hoperands := (hl.value s).append (hr.value (left.value s).after)
    exact h ▸ hoperands.branches test a b t
  · intro t s
    obtain ⟨test, a, b, h⟩ := hcode t s
    exact h ▸ (by simp [Instr.target?])
  · intro t s
    obtain ⟨test, a, b, h⟩ := hcode t s
    exact h ▸ (by simp [Instr.target?])

/-- A branch that may be decided by its left side, with a label for the right side. -/
theorem tidy_shortCircuit (first : Targets Target → Label → Targets Target)
    (hused : ∀ t (s : State),
      some s.label ∈ targetsOf (left.branch (first t s.label) s.afterLabel).code)
    (hout : ∀ t l, ∀ u ∈ [(first t l).onTrue, (first t l).onFalse],
      u = some l ∨ u ∈ [t.onTrue, t.onFalse]) :
    (ofBranch fun t s =>
      let l := left.branch (first t s.label) s.afterLabel
      let r := right.branch ⟨t.onTrue, t.onFalse, none⟩ l.after
      ⟨l.code ++ [.label s.label] ++ r.code, r.after⟩).Tidy := by
  refine tidy_ofBranch ?_ ?_ ?_
  · intro t s
    have hleft := hl.branch (first t s.label) s.afterLabel
    have hright := hr.branch ⟨t.onTrue, t.onFalse, none⟩
      (left.branch (first t s.label) s.afterLabel).after
    refine hleft.between hright (hused t s) fun u hu => ?_
    exact (List.mem_append.mp hu).elim (hout t s.label u) Or.inr
  · intro t s
    have hright := hr.onTrue ⟨t.onTrue, t.onFalse, none⟩
      (left.branch (first t s.label) s.afterLabel).after
    exact targetsOf_append _ _ ▸ List.mem_append_right _ hright
  · intro t s
    have hright := hr.onFalse ⟨t.onTrue, t.onFalse, none⟩
      (left.branch (first t s.label) s.afterLabel).after
    exact targetsOf_append _ _ ▸ List.mem_append_right _ hright

theorem tidy_conjunction : (conjunction left right).Tidy :=
  tidy_shortCircuit hl hr (fun t l => ⟨some l, t.onFalse, none⟩)
    (fun _ _ => hl.onTrue _ _) (by simp)

theorem tidy_disjunction : (disjunction left right).Tidy :=
  tidy_shortCircuit hl hr (fun t l => ⟨t.onTrue, some l, none⟩)
    (fun _ _ => hl.onFalse _ _) (by simp)

theorem tidy_unknown (text : String) : (unknown left right text).Tidy := by
  refine tidy_ofValue fun s => ?_
  have hle := Nat.le_trans (hl.value s).le (hr.value (left.value s).after).le
  exact (TidyCode.nil _).lower hle

end Operators

theorem tidy_negative {operand : Modes} (h : operand.Tidy) : (negative operand).Tidy :=
  tidy_ofValue fun s => (h.value s).snoc (i := .arith .sub _ (.literal 0) _) trivial rfl rfl

theorem tidy_negation {operand : Modes} (h : operand.Tidy) : (negation operand).Tidy := by
  refine tidy_ofBranch ?_ ?_ ?_
  · intro t s
    refine (h.branch t.swap s).weaken fun u _ hu => ?_
    simpa [Targets.swap, or_comm] using hu
  · exact fun t s => h.onFalse t.swap s
  · exact fun t s => h.onTrue t.swap s

theorem sequence_tidy : ∀ {ms : List Modes}, (∀ m ∈ ms, Tidy m) → ∀ s,
    TidyCode (sequence ms s).1 s.alloc.labels (sequence ms s).2.2.alloc.labels []
  | [], _, s => TidyCode.nil _
  | m :: ms, h, s => by
      obtain ⟨hm, hms⟩ := List.forall_mem_cons.mp h
      exact (hm.value s).append (sequence_tidy hms (m.value s).after)

theorem tidy_systemCall (name : String) {args : List Modes} (h : ∀ m ∈ args, Tidy m) :
    (systemCall name args).Tidy := by
  refine tidy_ofValue fun s => ?_
  have hargs := sequence_tidy h s
  dsimp only
  split
  · split
    · exact hargs.snoc (i := .read _) trivial rfl rfl
    · exact hargs.snoc (i := .write _) trivial rfl rfl
  · rw [List.append_nil]
    exact hargs

theorem handOver_tidy : ∀ {ms : List Modes} (place : Nat), (∀ m ∈ ms, Tidy m) → ∀ s,
    TidyCode (handOver place ms s).code s.alloc.labels (handOver place ms s).after.alloc.labels []
  | [], _, _, s => TidyCode.nil _
  | m :: ms, place, h, s => by
      obtain ⟨hm, hms⟩ := List.forall_mem_cons.mp h
      have hfirst := (hm.value s).snoc (i := .arg (m.value s).operand place) trivial rfl rfl
      exact hfirst.append (handOver_tidy (place + 1) hms (m.value s).after)

theorem tidy_functionCall (Γ : Scope) {name : String} (hname : IsName name)
    (types : Check.Verdicts) {args : List Modes} (h : ∀ m ∈ args, Tidy m) :
    (functionCall Γ name types args).Tidy := by
  refine tidy_ofValue fun s => ?_
  dsimp only
  split
  · exact TidyCode.nil _
  · rename_i f _
    have hargs := handOver_tidy 0 h (s.overhear types.journal)
    have hlabel := isCodeLabel_codeLabel hname f.params
    split
    · exact hargs.snoc (i := .call _ _) hlabel rfl rfl
    · exact hargs.snoc (i := .callValue _ _ _) hlabel rfl rfl

end Modes

mutual

/-- **The code of a proper expression is tidy** in both modes. -/
theorem modes_tidy (Γ : Scope) : ∀ e : Expr, e.Proper → (modes Γ e).Tidy
  | .int _ _, _ => Modes.tidy_empty (fun _ => rfl) (fun _ => rfl)
  | .str _ _, _ => Modes.tidy_empty (fun _ => rfl) (fun _ => rfl)
  | .var _ name, _ => Modes.tidy_ofVar Γ name
  | .index _ array i, he =>
      Modes.tidy_compute (modes_tidy Γ array he.1) (modes_tidy Γ i he.2)
        (fun _ _ _ => trivial) (fun _ _ _ => rfl) (fun _ _ _ => rfl)
  | .call _ name args, he => by
      have hargs := modesOf_tidy Γ args he.2
      rw [modes, Modes.call]
      split
      · exact Modes.tidy_systemCall name hargs
      · exact Modes.tidy_functionCall Γ he.1 _ hargs
  | .unary _ op operand, he => by
      have h := modes_tidy Γ operand he.2
      cases op with
      | neg => exact Modes.tidy_negative h
      | not => exact Modes.tidy_negation h
      | address => exact Modes.tidy_ofValue h.value
      | deref => exact Modes.tidy_ofValue h.value
      | other text => exact Modes.tidy_ofValue h.value
  | .binary _ op left right, he => by
      have hl := modes_tidy Γ left he.2.1
      have hr := modes_tidy Γ right he.2.2
      cases op with
      | arith op =>
        exact Modes.tidy_compute hl hr (fun _ _ _ => trivial) (fun _ _ _ => rfl) (fun _ _ _ => rfl)
      | rel op => exact Modes.tidy_compare hl hr op
      | and => exact Modes.tidy_conjunction hl hr
      | or => exact Modes.tidy_disjunction hl hr
      | other text => exact Modes.tidy_unknown hl hr text
  | .nameless _ _, he => he.elim
  | .misplaced _, he => he.elim

theorem modesOf_tidy (Γ : Scope) : ∀ es : List Expr, Expr.AllProper es →
    ∀ m ∈ modesOf Γ es, Modes.Tidy m
  | [], _ => fun _ h => absurd h List.not_mem_nil
  | e :: es, he => List.forall_mem_cons.mpr ⟨modes_tidy Γ e he.1, modesOf_tidy Γ es he.2⟩

end

/-! ## 4. Statements -/

theorem declare_labels (frame : Frame) (name : String) (entry : Entry) (s : State) :
    (declare frame name entry s).2.alloc.labels = s.alloc.labels := by
  unfold declare
  split <;> rfl

theorem place_labels (space : Space) (frame : Frame) (name : String) (ty : Ty) (s : State) :
    (place space frame name ty s).2.alloc.labels = s.alloc.labels := by
  unfold place
  rw [declare_labels]
  cases space <;> rfl

/-- Declarations draw no labels. -/
theorem placeDecls_labels (space : Space) : ∀ (ds : List Decl) (frame : Frame) (s : State),
    (placeDecls space frame ds s).2.alloc.labels = s.alloc.labels
  | [], _, _ => rfl
  | d :: ds, frame, s => by
      have hfirst : (placeDecl space frame d s).2.alloc.labels = s.alloc.labels := by
        unfold placeDecl
        split
        · exact place_labels space frame _ _ s
        · exact place_labels space frame _ _ s
        · rfl
      rw [placeDecls, placeDecls_labels space ds, hfirst]

section Statements

variable (label : String) (Γ : Scope)

theorem assignment_tidy {target exp : Expr} (htarget : target.Proper) (hexp : exp.Proper)
    (s : State) :
    TidyCode (assignment Γ target exp s).code s.alloc.labels
      (assignment Γ target exp s).after.alloc.labels [] := by
  unfold assignment
  split
  · rename_i array i
    have hbase := (modes_tidy Γ array htarget.1).value s
    have hi := (modes_tidy Γ i htarget.2).value (value Γ array s).after
    have hv := (modes_tidy Γ exp hexp).value (value Γ i (value Γ array s).after).after
    exact ((hbase.append hi).append hv).snoc (i := .store _ _ _) trivial rfl rfl
  · have hdest := (modes_tidy Γ target htarget).value s
    have hv := (modes_tidy Γ exp hexp).value (value Γ target s).after
    exact (hdest.append hv).snoc (i := .move _ _) trivial rfl rfl

/-- A clause of a `for` jumps to no target that was handed down. -/
theorem clause_tidy {st : Stmt} (h : st.IsClause) (next : Target) (s : State) :
    TidyCode (stmt label Γ st next s).code s.alloc.labels
      (stmt label Γ st next s).after.alloc.labels [] := by
  cases h with
  | assign _ htarget hvalue => exact assignment_tidy Γ htarget hvalue s
  | call hcall he =>
    rw [stmt, effect, if_pos hcall]
    exact (modes_tidy Γ _ he).value s

variable {label} in
theorem returned_tidy (hlabel : IsCodeLabel label) {exp : Option Expr}
    (hexp : ∀ e, exp = some e → e.Proper) (s : State) :
    TidyCode (returned label Γ exp s).code s.alloc.labels
      (returned label Γ exp s).after.alloc.labels [] := by
  cases exp with
  | none => exact (TidyCode.nil _).snoc (i := .ret label) hlabel rfl rfl
  | some e => exact ((modes_tidy Γ e (hexp e rfl)).value s).snoc (i := .retValue label _) hlabel rfl rfl

end Statements

mutual

/-- **The code of a proper statement is tidy**, and of what is handed down it uses `next` at most. -/
theorem stmt_tidy {label : String} (hlabel : IsCodeLabel label) (Γ : Scope) : ∀ st : Stmt,
    st.Proper → ∀ next s, TidyCode (stmt label Γ st next s).code s.alloc.labels
      (stmt label Γ st next s).after.alloc.labels [next]
  | .assign _ _ _, hst, next, s => (clause_tidy label Γ hst next s).spare _
  | .ifThen _ cond body, hst, next, s => by
      have hc := (modes_tidy Γ cond hst.1).branch (targets s.label next) s.afterLabel
      have hyes := (modes_tidy Γ cond hst.1).onTrue (targets s.label next) s.afterLabel
      have hb := block_tidy hlabel Γ [] body hst.2
        (branch Γ cond (targets s.label next) s.afterLabel).after
      refine hc.between hb hyes ?_
      simp [targets, State.label, Allocator.nextLabel]
  | .ifElse _ cond thenBody elseBody, hst, next, s => by
      let n := s.alloc.labels
      let c := branch Γ cond (targets ⟨n⟩ (some ⟨n + 1⟩)) s.afterLabel.afterLabel
      let a := block label Γ [] thenBody c.after
      let b := block label Γ [] elseBody a.after
      have hcond := modes_tidy Γ cond hst.1
      have hyes : some ⟨n⟩ ∈ targetsOf c.code := hcond.onTrue _ _
      have hno : some ⟨n + 1⟩ ∈ targetsOf c.code := hcond.onFalse _ _
      have hc : TidyCode c.code (n + 2) c.after.alloc.labels [some ⟨n⟩, some ⟨n + 1⟩] :=
        hcond.branch _ _
      have ha : TidyCode a.code c.after.alloc.labels a.after.alloc.labels [] :=
        block_tidy hlabel Γ [] thenBody hst.2.1 c.after
      have hb : TidyCode b.code a.after.alloc.labels b.after.alloc.labels [] :=
        block_tidy hlabel Γ [] elseBody hst.2.2 a.after
      have hca := hc.append (ha.append (TidyCode.jump next _))
      -- the code without its labels, then these in the order opposite to their drawing
      have h₁ := (hca.append hb).define [some ⟨n⟩, next] (by simp [hno]) (by simp)
      have h₀ := h₁.define [next] (by simp [Instr.target?, hyes]) (by simp)
      refine h₀.perm (List.perm_iff_count.mpr fun i => ?_)
      change _ = List.count i (c.code ++ [.label ⟨n⟩] ++ a.code ++ [.jump next, .label ⟨n + 1⟩] ++
        b.code)
      simp only [List.count_append, List.count_cons, List.count_nil]
      omega
  | .whileLoop _ cond body, hst, next, s => by
      let n := s.alloc.labels
      let c := branch Γ cond (targets ⟨n + 1⟩ next) s.afterLabel.afterLabel
      let b := block label Γ [] body c.after
      have hcond := modes_tidy Γ cond hst.1
      have hyes : some ⟨n + 1⟩ ∈ targetsOf c.code := hcond.onTrue _ _
      have hc : TidyCode c.code (n + 2) c.after.alloc.labels [some ⟨n + 1⟩, next] :=
        hcond.branch _ _
      have hb : TidyCode b.code c.after.alloc.labels b.after.alloc.labels [] :=
        block_tidy hlabel Γ [] body hst.2 c.after
      have hloop := (hc.append hb).append (TidyCode.jump (some ⟨n⟩) _)
      have h₁ := hloop.define [next, some ⟨n⟩] (by simp [hyes]) (by simp)
      have h₀ := h₁.define [next] (by simp [Instr.target?]) (by simp)
      refine h₀.perm (List.perm_iff_count.mpr fun i => ?_)
      change _ = List.count i ([.label ⟨n⟩] ++ c.code ++ [.label ⟨n + 1⟩] ++ b.code ++
        [.jump (some ⟨n⟩)])
      simp only [List.count_append, List.count_cons, List.count_nil]
      omega
  | .forLoop _ init cond step body, hst, next, s => by
      let n := s.alloc.labels
      let i := stmt label Γ init none s.afterLabel.afterLabel
      let c := branch Γ cond (targets ⟨n + 1⟩ next) i.after
      let b := block label Γ [] body c.after
      let e := stmt label Γ step none b.after
      have hcond := modes_tidy Γ cond hst.2.1
      have hyes : some ⟨n + 1⟩ ∈ targetsOf c.code := hcond.onTrue _ _
      have hi : TidyCode i.code (n + 2) i.after.alloc.labels [] := clause_tidy label Γ hst.1 none _
      have hc : TidyCode c.code i.after.alloc.labels c.after.alloc.labels [some ⟨n + 1⟩, next] :=
        hcond.branch _ _
      have hb : TidyCode b.code c.after.alloc.labels b.after.alloc.labels [] :=
        block_tidy hlabel Γ [] body hst.2.2.2 c.after
      have he : TidyCode e.code b.after.alloc.labels e.after.alloc.labels [] :=
        clause_tidy label Γ hst.2.2.1 none b.after
      have hloop := (hc.append (hb.append he)).append (TidyCode.jump (some ⟨n⟩) _)
      have h₁ := (hi.append hloop).define [next, some ⟨n⟩] (by simp [hyes]) (by simp)
      have h₀ := h₁.define [next] (by simp [Instr.target?]) (by simp)
      refine h₀.perm (List.perm_iff_count.mpr fun j => ?_)
      change _ = List.count j (i.code ++ [.label ⟨n⟩] ++ c.code ++ [.label ⟨n + 1⟩] ++ b.code ++
        e.code ++ [.jump (some ⟨n⟩)])
      simp only [List.count_append, List.count_cons, List.count_nil]
      omega
  | .call _ _, hst, next, s => (clause_tidy label Γ hst next s).spare _
  | .ret _ _, hst, next, s => (returned_tidy Γ hlabel hst s).spare _
  | .misplaced _, hst, _, _ => hst.elim
  | .missing _ _, hst, _, _ => hst.elim

theorem block_tidy {label : String} (hlabel : IsCodeLabel label) (Γ : Scope) (frame : Frame) :
    ∀ b : Block, b.Proper → ∀ s, TidyCode (block label Γ frame b s).code s.alloc.labels
      (block label Γ frame b s).after.alloc.labels []
  | .mk _ ds sts, hb, s => by
      have h := stmts_tidy hlabel (Γ.push (placeDecls .local frame ds s).1) sts hb.2
        (placeDecls .local frame ds s).2
      rw [placeDecls_labels] at h
      exact h

theorem stmts_tidy {label : String} (hlabel : IsCodeLabel label) (Γ : Scope) :
    ∀ sts : List Stmt, Stmt.AllProper sts → ∀ s, TidyCode (stmts label Γ sts s).code
      s.alloc.labels (stmts label Γ sts s).after.alloc.labels []
  | [], _, s => TidyCode.nil _
  | st :: sts, hsts, s => by
      have hfirst := stmt_tidy hlabel Γ st hsts.1 (some s.label) s.afterLabel
      have hothers := stmts_tidy hlabel Γ sts hsts.2
        (stmt label Γ st (some s.label) s.afterLabel).after
      rw [stmts]
      dsimp only
      split
      · -- the label for what follows is used, so it is defined
        rename_i huses
        exact hfirst.between hothers ((any_uses_iff hfirst.inner _).mp huses)
          (by simp [State.label, Allocator.nextLabel])
      · rename_i huses
        have hunused : some s.label ∉ targetsOf (stmt label Γ st (some s.label) s.afterLabel).code :=
          fun hmem => huses ((any_uses_iff hfirst.inner _).mpr hmem)
        have hfirst' : TidyCode _ _ _ [] := hfirst.weaken fun u hu hmem => by
          rw [List.mem_singleton.mp hmem] at hu
          exact absurd hu hunused
        rw [List.append_nil]
        exact (hfirst'.append hothers).lower (Nat.le_succ _)

end

end Lower

end CMinusMinus
