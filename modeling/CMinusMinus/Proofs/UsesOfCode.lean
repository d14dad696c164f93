/-
  File:      CMinusMinus/Proofs/UsesOfCode.lean
  Subject:   The operands of code are the uses of its source.

  Apart from temporaries and numbers, an operand stands for an occurrence in the source: an
  identifier, at the address of the innermost declaration of its name, or a string literal, at its
  place in the pool. In the code of a body these operands stand in the order of its uses, one for
  each, provided that lowering ran to its end: then every declaration was accepted, every name was
  found and every function chosen. Whether the program was accepted by the checker does not matter.

  * `Takes` -- operands that stand for uses;
  * `Grows` -- what lowering does to its counters and its pool;
  * `Scope.Names` -- a scope finds names where the source declares them;
  * `Lower.modes_serves`, `Lower.block_plays` -- the code of expressions and of bodies.
-/
import CMinusMinus.Proofs.Execution
import CMinusMinus.Proofs.Temporaries
import CMinusMinus.Proofs.Uses

namespace CMinusMinus

/-! ## 1. Operands and uses -/

/-- The address of an operand, unless it is a temporary by its number. -/
def Operand.leaf? : Operand → Option Address
  | .address ⟨.temporary, .ofNat _⟩ => none
  | .address a => some a
  | .literal _ | .absent => none

theorem Cell.leaf?_address (c : Cell) : (Operand.address c.address).leaf? = some c.address := by
  cases c <;> rfl

/-- The operands of code, in order. -/
def operandsOf (code : List Instr) : List Operand := code.flatMap Instr.operands

@[simp] theorem operandsOf_nil : operandsOf [] = [] := rfl

@[simp] theorem operandsOf_cons (i : Instr) (code : List Instr) :
    operandsOf (i :: code) = i.operands ++ operandsOf code := rfl

@[simp] theorem operandsOf_append (c₁ c₂ : List Instr) :
    operandsOf (c₁ ++ c₂) = operandsOf c₁ ++ operandsOf c₂ := List.flatMap_append

@[simp] theorem Instr.operands_label (l : Label) : (Instr.label l).operands = [] := rfl

@[simp] theorem Instr.operands_jump (t : Target) : (Instr.jump t).operands = [] := rfl

theorem Instr.Computes.operands_eq {d l r : Operand} {i : Instr} (h : i.Computes d l r) :
    i.operands = [d, l, r] := by
  cases h <;> rfl

/-- **Operands stand for uses**: temporaries, numbers and missing values aside, they are the
    addresses of the uses, one after the other. -/
def Takes (vs : List Operand) (us : List Use) : Prop :=
  (vs.filterMap Operand.leaf?).map some = us.map Use.address?

namespace Takes

variable {vs ws : List Operand} {us ts : List Use}

theorem nil : Takes [] [] := rfl

theorem append (h₁ : Takes vs us) (h₂ : Takes ws ts) : Takes (vs ++ ws) (us ++ ts) := by
  unfold Takes at *
  rw [List.filterMap_append, List.map_append, List.map_append, h₁, h₂]

theorem temporary (s : Lower.State) : Takes [s.temporary] [] := rfl

theorem literal (n : Int) : Takes [.literal n] [] := rfl

end Takes

namespace Lower

/-! ## 2. Counters -/

/-- **What lowering does to its counters**: so many locals are placed; and if it has run to its end,
    it had done so before, and the pool holds these texts more. -/
structure Grows (slots : Nat) (texts : List String) (s s' : State) : Prop where
  globals : s'.alloc.globals = s.alloc.globals
  params : s'.alloc.params = s.alloc.params
  locals : s'.alloc.locals = s.alloc.locals + slots
  before : s'.journal.Faultless → s.journal.Faultless
  pool : s'.journal.Faultless → s'.alloc.pool = s.alloc.pool ++ texts

namespace Grows

variable {k l : Nat} {ts₁ ts₂ : List String} {s s₁ s₂ : State}

theorem refl (s : State) : Grows 0 [] s s :=
  ⟨rfl, rfl, rfl, id, fun _ => (List.append_nil _).symm⟩

theorem trans (h₁ : Grows k ts₁ s s₁) (h₂ : Grows l ts₂ s₁ s₂) :
    Grows (k + l) (ts₁ ++ ts₂) s s₂ where
  globals := h₂.globals.trans h₁.globals
  params := h₂.params.trans h₁.params
  locals := by rw [h₂.locals, h₁.locals, Nat.add_assoc]
  before h := h₁.before (h₂.before h)
  pool h := by rw [h₂.pool h, h₁.pool (h₂.before h), List.append_assoc]

theorem afterTemporary (h : Grows k ts₁ s s₁) : Grows k ts₁ s s₁.afterTemporary :=
  ⟨h.1, h.2, h.3, h.4, h.5⟩

/-- A journal that is only written on. -/
theorem note (h : Grows k ts₁ s s₁) (e : Event) : Grows k ts₁ s (s₁.note e) :=
  ⟨h.1, h.2, h.3, fun hj => h.4 (Journal.faultless_append.mp hj).1,
    fun hj => h.5 (Journal.faultless_append.mp hj).1⟩

theorem overhear (h : Grows k ts₁ s s₁) (j : Journal) : Grows k ts₁ s (s₁.overhear j) :=
  ⟨h.1, h.2, h.3, fun hj => h.4 (Journal.faultless_append.mp hj).1,
    fun hj => h.5 (Journal.faultless_append.mp hj).1⟩

/-- After a fault nothing has to be shown. -/
theorem fail (h : Grows k ts₁ s s₁) (f : Fault) (ts : List String) :
    Grows k ts s (s₁.fail f) := by
  have hfault : ¬ (s₁.fail f).journal.Faultless := fun hj =>
    Journal.not_faultless_fault f (Journal.faultless_append.mp hj).2
  exact ⟨h.1, h.2, h.3, fun hj => absurd hj hfault, fun hj => absurd hj hfault⟩

end Grows

/-- Lowering goes from one state to another with operands that stand for uses, if it has run to its
    end and the scope is `ok`. -/
structure Yields (ok : Prop) (slots : Nat) (texts : List String) (us : List Use) (s s' : State)
    (vs : List Operand) : Prop where
  grows : Grows slots texts s s'
  takes : s'.journal.Faultless → ok → Takes vs us

namespace Yields

variable {ok : Prop} {k l : Nat} {ts₁ ts₂ : List String} {us₁ us₂ : List Use} {s s₁ s₂ : State}
  {vs₁ vs₂ : List Operand}

/-- **One after the other.** The uses of the second part depend on how many literals came before. -/
theorem append {u : Nat → List Use} (h₁ : Yields ok k ts₁ us₁ s s₁ vs₁)
    (h₂ : Yields ok l ts₂ (u s₁.alloc.pool.length) s₁ s₂ vs₂) :
    Yields ok (k + l) (ts₁ ++ ts₂) (us₁ ++ u (s.alloc.pool.length + ts₁.length)) s s₂
      (vs₁ ++ vs₂) := by
  refine ⟨h₁.grows.trans h₂.grows, fun hj hok => ?_⟩
  have hj₁ := h₂.grows.before hj
  have hpool : s₁.alloc.pool.length = s.alloc.pool.length + ts₁.length := by
    rw [h₁.grows.pool hj₁, List.length_append]
  rw [← hpool]
  exact (h₁.takes hj₁ hok).append (h₂.takes hj hok)

/-- A label is drawn first. -/
theorem label (h : Yields ok k ts₁ us₁ s.afterLabel s₁ vs₁) : Yields ok k ts₁ us₁ s s₁ vs₁ :=
  ⟨⟨h.grows.1, h.grows.2, h.grows.3, h.grows.4, h.grows.5⟩, h.takes⟩

/-- A temporary is drawn first. -/
theorem temporary (h : Yields ok k ts₁ us₁ s.afterTemporary s₁ vs₁) :
    Yields ok k ts₁ us₁ s s₁ vs₁ :=
  ⟨⟨h.grows.1, h.grows.2, h.grows.3, h.grows.4, h.grows.5⟩, h.takes⟩

/-- More operands that stand for uses. -/
theorem snoc (h : Yields ok k ts₁ us₁ s s₁ vs₁)
    (hmore : s₁.journal.Faultless → ok → Takes vs₂ us₂) :
    Yields ok k ts₁ (us₁ ++ us₂) s s₁ (vs₁ ++ vs₂) :=
  ⟨h.grows, fun hj hok => (h.takes hj hok).append (hmore hj hok)⟩

/-- More operands that stand for no uses. -/
theorem idle (h : Yields ok k ts₁ us₁ s s₁ vs₁) (hmore : Takes vs₂ []) :
    Yields ok k ts₁ us₁ s s₁ (vs₁ ++ vs₂) := by
  have hall := h.snoc fun _ _ => hmore
  rwa [List.append_nil] at hall

end Yields

/-! ## 3. Expressions -/

namespace Modes

/-- **The code of an expression stands for its uses**, `used` within its code and `own` as its
    operand; as a branch it takes both. -/
structure Serves (ok : Prop) (m : Modes) (texts : List String) (used own : Nat → List Use) :
    Prop where
  value : ∀ s, Yields ok 0 texts (used s.alloc.pool.length) s (m.value s).after
    (operandsOf (m.value s).code)
  operand : ∀ s, (m.value s).after.journal.Faultless → ok →
    Takes [(m.value s).operand] (own s.alloc.pool.length)
  branch : ∀ t s, Yields ok 0 texts (used s.alloc.pool.length ++ own s.alloc.pool.length) s
    (m.branch t s).after (operandsOf (m.branch t s).code)

variable {ok : Prop} {left right operand : Modes} {texts ts₁ ts₂ : List String}
  {used own both u₁ u₂ o₁ o₂ : Nat → List Use}

theorem serves_ofValue {value : State → Emitted}
    (hvalue : ∀ s, Yields ok 0 texts (used s.alloc.pool.length) s (value s).after
      (operandsOf (value s).code))
    (hoperand : ∀ s, (value s).after.journal.Faultless → ok →
      Takes [(value s).operand] (own s.alloc.pool.length)) :
    (ofValue value).Serves ok texts used own := by
  refine ⟨hvalue, hoperand, fun t s => ?_⟩
  have htest := ((hvalue s).snoc (hoperand s)).idle (.literal 0)
  rw [List.append_assoc] at htest
  show Yields _ _ _ _ _ _ (operandsOf ((value s).code ++ _))
  rw [operandsOf_append]
  exact htest

theorem serves_ofBranch {branch : Targets Target → State → Lowered}
    (h : ∀ t s, Yields ok 0 texts (both s.alloc.pool.length) s (branch t s).after
      (operandsOf (branch t s).code)) : (ofBranch branch).Serves ok texts both fun _ => [] := by
  refine ⟨fun s => ?_, fun s _ _ => .temporary s, fun t s => ?_⟩
  · -- a temporary and three labels are drawn, then comes the branch, then the two ends
    have hbranch := h ⟨some s.afterTemporary.label, some s.afterTemporary.afterLabel.label, none⟩
      s.afterTemporary.afterLabel.afterLabel.afterLabel
    have hends : Takes [s.temporary, .literal 1, s.temporary, .literal 0] [] := rfl
    have hall := hbranch.label.label.label.temporary.idle hends
    show Yields _ _ _ _ _ _ (operandsOf (_ ++ _))
    rw [operandsOf_append]
    exact hall
  · rw [List.append_nil]
    exact h t s

theorem serves_ofOperand {v : Operand} {us : List Use} (hv : ok → Takes [v] us) :
    (ofOperand v).Serves ok [] (fun _ => []) fun _ => us :=
  serves_ofValue (fun s => ⟨.refl s, fun _ _ => .nil⟩) fun _ _ hok => hv hok

/-- A fault has nothing to show. -/
theorem serves_ofFault (f : Fault) : (ofFault f).Serves ok [] used own :=
  serves_ofValue
    (fun s => ⟨(Grows.refl s).note (.fault f),
      fun hj => absurd (Journal.faultless_append.mp hj).2 (Journal.not_faultless_fault f)⟩)
    fun _ hj => absurd (Journal.faultless_append.mp hj).2 (Journal.not_faultless_fault f)

theorem serves_constant (text : String) :
    (constant text).Serves ok [text] (fun _ => []) fun n => [.text text n] :=
  serves_ofValue (fun _ => ⟨⟨rfl, rfl, rfl, id, fun _ => rfl⟩, fun _ _ => .nil⟩) fun _ _ _ => rfl

section Operators

variable (hl : left.Serves ok ts₁ u₁ o₁) (hr : right.Serves ok ts₂ u₂ o₂)

include hl hr

/-- Two values, and what an instruction takes of them. -/
theorem yields_both (s : State) :
    let l := left.value s
    let r := right.value l.after
    let n := s.alloc.pool.length
    Yields ok 0 (ts₁ ++ ts₂) (u₁ n ++ u₂ (n + ts₁.length)) s r.after
        (operandsOf l.code ++ operandsOf r.code) ∧
      (r.after.journal.Faultless → ok →
        Takes [l.operand] (o₁ n) ∧ Takes [r.operand] (o₂ (n + ts₁.length))) := by
  intro l r n
  have hvalues := (hl.value s).append (hr.value l.after)
  refine ⟨hvalues, fun hj hok => ⟨hl.operand s ((hr.value l.after).grows.before hj) hok, ?_⟩⟩
  have hpool : l.after.alloc.pool.length = n + ts₁.length := by
    rw [(hl.value s).grows.pool ((hr.value l.after).grows.before hj), List.length_append]
  rw [← hpool]
  exact hr.operand l.after hj hok

theorem serves_compute {instr : Operand → Operand → Operand → Instr}
    (hinstr : ∀ d l r, (instr d l r).Computes d l r) :
    (compute left right instr).Serves ok (ts₁ ++ ts₂)
      (fun n => u₁ n ++ u₂ (n + ts₁.length) ++ (o₁ n ++ o₂ (n + ts₁.length))) fun _ => [] := by
  refine serves_ofValue (fun s => ?_) fun s _ _ => .temporary _
  obtain ⟨hvalues, hoperands⟩ := yields_both hl hr s
  have hcode : ∀ c₁ c₂ d l r, operandsOf (c₁ ++ c₂ ++ [instr d l r]) =
      operandsOf c₁ ++ operandsOf c₂ ++ [d, l, r] := by
    intro c₁ c₂ d l r
    simp [(hinstr d l r).operands_eq]
  refine ⟨hvalues.grows.afterTemporary, fun hj hok => ?_⟩
  obtain ⟨hleft, hright⟩ := hoperands hj hok
  rw [hcode]
  exact (hvalues.takes hj hok).append ((Takes.temporary _).append (hleft.append hright))

theorem serves_compare (op : RelOp) :
    (compare op left right).Serves ok (ts₁ ++ ts₂)
      (fun n => u₁ n ++ u₂ (n + ts₁.length) ++
        if (comparison op).2 then o₂ (n + ts₁.length) ++ o₁ n else o₁ n ++ o₂ (n + ts₁.length))
      fun _ => [] := by
  refine serves_ofBranch fun t s => ?_
  obtain ⟨hvalues, hoperands⟩ := yields_both hl hr s
  refine ⟨hvalues.grows, fun hj hok => ?_⟩
  obtain ⟨hleft, hright⟩ := hoperands hj hok
  have hcode := hvalues.takes hj hok
  simp only [operandsOf_append]
  refine hcode.append ?_
  cases (comparison op).2 with
  | true => exact hright.append hleft
  | false => exact hleft.append hright

/-- Two conditions, with a label between them. -/
theorem yields_branches (t₁ t₂ : Targets Target) (mid : Label) (s : State) :
    let l := left.branch t₁ s.afterLabel
    let r := right.branch t₂ l.after
    let n := s.alloc.pool.length
    Yields ok 0 (ts₁ ++ ts₂) ((u₁ n ++ o₁ n) ++ (u₂ (n + ts₁.length) ++ o₂ (n + ts₁.length))) s
      r.after (operandsOf (l.code ++ [.label mid] ++ r.code)) := by
  intro l r n
  have hboth := ((hl.branch t₁ s.afterLabel).append
    (u := fun n => u₂ n ++ o₂ n) (hr.branch t₂ l.after)).label
  simp only [operandsOf_append, operandsOf_cons, operandsOf_nil, Instr.operands_label,
    List.append_nil]
  exact hboth

theorem serves_conjunction : (conjunction left right).Serves ok (ts₁ ++ ts₂)
    (fun n => (u₁ n ++ o₁ n) ++ (u₂ (n + ts₁.length) ++ o₂ (n + ts₁.length))) fun _ => [] :=
  serves_ofBranch fun _ s => yields_branches hl hr _ _ _ s

theorem serves_disjunction : (disjunction left right).Serves ok (ts₁ ++ ts₂)
    (fun n => (u₁ n ++ o₁ n) ++ (u₂ (n + ts₁.length) ++ o₂ (n + ts₁.length))) fun _ => [] :=
  serves_ofBranch fun _ s => yields_branches hl hr _ _ _ s

end Operators

theorem serves_negative (h : operand.Serves ok texts used own) :
    (negative operand).Serves ok texts (fun n => used n ++ own n) fun _ => [] := by
  refine serves_ofValue (fun s => ?_) fun s _ _ => .temporary _
  refine ⟨(h.value s).grows.afterTemporary, fun hj hok => ?_⟩
  have hinstr := ((Takes.temporary (operand.value s).after).append (Takes.literal 0)).append
    (h.operand s hj hok)
  rw [operandsOf_append]
  exact ((h.value s).takes hj hok).append hinstr

theorem serves_negation (h : operand.Serves ok texts used own) :
    (negation operand).Serves ok texts (fun n => used n ++ own n) fun _ => [] :=
  serves_ofBranch fun _ => h.branch _

/-- The code stands for the uses of the expression. -/
def Renders (ok : Prop) (ρ : Env) (m : Modes) (e : Expr) : Prop :=
  m.Serves ok e.literals (fun n => e.uses ρ n) fun n => e.own ρ n

/-- The same, place by place. -/
inductive AllRender (ok : Prop) (ρ : Env) : List Modes → List Expr → Prop where
  | nil : AllRender ok ρ [] []
  | cons {m : Modes} {e : Expr} {ms : List Modes} {es : List Expr} (h : m.Renders ok ρ e)
      (hs : AllRender ok ρ ms es) : AllRender ok ρ (m :: ms) (e :: es)

section Calls

variable {ρ : Env} {ms : List Modes} {es : List Expr}

theorem sequence_yields (h : AllRender ok ρ ms es) (s : State) :
    Yields ok 0 (Expr.literalsOf es) (Expr.usesInTurn ρ s.alloc.pool.length es) s
      (sequence ms s).2.2 (operandsOf (sequence ms s).1) := by
  induction h generalizing s with
  | nil => exact ⟨.refl s, fun _ _ => .nil⟩
  | @cons m e ms es hm _ ih =>
    have hall := (hm.value s).append (u := fun n => Expr.usesInTurn ρ n es) (ih (m.value s).after)
    rw [sequence, operandsOf_append]
    exact hall

theorem sequence_last_cons (m m' : Modes) (ms : List Modes) (s : State) :
    (sequence (m :: m' :: ms) s).2.1 = (sequence (m' :: ms) (m.value s).after).2.1 := by
  simp only [sequence]
  cases (sequence ms (m'.value (m.value s).after).after).2.1 <;> rfl

/-- The last value of a sequence stands for the use of the last expression. -/
theorem sequence_last (h : AllRender ok ρ ms es) (s : State) :
    (sequence ms s).2.2.journal.Faultless → ok →
      Takes (sequence ms s).2.1.toList (Expr.ownOfLast ρ s.alloc.pool.length es) := by
  induction h generalizing s with
  | nil => exact fun _ _ => .nil
  | @cons m e ms es hm hms ih =>
    cases hms with
    | nil => exact hm.operand s
    | @cons m' e' ms es hm' hms =>
      intro hj hok
      have hrest := sequence_yields (.cons hm' hms) (m.value s).after
      have hpool := (hm.value s).grows.pool (hrest.grows.before hj)
      have hlast := ih (m.value s).after hj hok
      rw [hpool, List.length_append] at hlast
      rw [sequence_last_cons]
      exact hlast

theorem serves_systemCall (name : String) (h : AllRender ok ρ ms es) :
    (systemCall name ms).Serves ok (Expr.literalsOf es)
      (fun n => Expr.usesInTurn ρ n es ++ Expr.ownOfLast ρ n es) fun _ => [] := by
  refine serves_ofValue (fun s => ?_) fun s _ _ => rfl
  have hall := (sequence_yields h s).snoc (sequence_last h s)
  have hinstr : operandsOf ((systemCall name ms).value s).code =
      operandsOf (sequence ms s).1 ++ (sequence ms s).2.1.toList := by
    simp only [systemCall, ofValue, operandsOf_append]
    cases (sequence ms s).2.1 with
    | none => rfl
    | some v =>
      by_cases hname : name = readCall <;>
        simp [hname, Instr.operands, Instr.dest?, Instr.reads]
  exact hinstr ▸ hall

theorem handOver_yields (h : AllRender ok ρ ms es) (place : Nat) (s : State) :
    Yields ok 0 (Expr.literalsOf es) (Expr.usesHandedOver ρ s.alloc.pool.length es) s
      (handOver place ms s).after (operandsOf (handOver place ms s).code) := by
  induction h generalizing place s with
  | nil => exact ⟨.refl s, fun _ _ => .nil⟩
  | @cons m e ms es hm _ ih =>
    have hfirst := (hm.value s).snoc (hm.operand s)
    have hall := hfirst.append (u := fun n => Expr.usesHandedOver ρ n es)
      (ih (place + 1) (m.value s).after)
    simp only [handOver, operandsOf_append]
    exact hall

theorem serves_functionCall (Γ : Scope) (name : String) (types : Check.Verdicts)
    (h : AllRender ok ρ ms es) : (functionCall Γ name types ms).Serves ok (Expr.literalsOf es)
      (fun n => Expr.usesHandedOver ρ n es) fun _ => [] := by
  have hgiven : ∀ s, Yields ok 0 (Expr.literalsOf es) (Expr.usesHandedOver ρ s.alloc.pool.length es)
      s (handOver 0 ms (s.overhear types.journal)).after
      (operandsOf (handOver 0 ms (s.overhear types.journal)).code) := by
    intro s
    have hheard : Yields ok 0 [] [] s (s.overhear types.journal) [] :=
      ⟨(Grows.refl s).overhear _, fun _ _ => .nil⟩
    exact hheard.append (u := fun n => Expr.usesHandedOver ρ n es) (handOver_yields h 0 _)
  unfold functionCall
  cases Γ.function? name types.tys with
  | none =>
    refine serves_ofValue (fun s => ⟨?_, fun hj => ?_⟩) fun s hj => ?_
    · exact ((Grows.refl s).overhear types.journal).fail _ _
    · exact absurd (Journal.faultless_append.mp hj).2 (Journal.not_faultless_fault _)
    · exact absurd (Journal.faultless_append.mp hj).2 (Journal.not_faultless_fault _)
  | some f =>
    dsimp only
    by_cases hvoid : f.ret.name = "void"
    · simp only [hvoid, if_true]
      refine serves_ofValue (fun s => ?_) fun _ _ _ => rfl
      simp only [operandsOf_append]
      exact (hgiven s).idle .nil
    · simp only [hvoid, if_false]
      refine serves_ofValue (fun s => ?_) fun _ _ _ => .temporary _
      have hall := (hgiven s).idle
        (Takes.temporary (handOver 0 ms (s.overhear types.journal)).after)
      simp only [operandsOf_append]
      exact ⟨hall.grows.afterTemporary, hall.takes⟩

end Calls

end Modes

end Lower

/-- **A scope finds names where the source declares them**: what it finds is stored where the
    innermost declaration of the name is. -/
def Scope.Names (Γ : Scope) (ρ : Env) : Prop :=
  ∀ x v, Γ.soundVar? x = some v → ∃ b, ρ.lookup x = some b ∧ v.home = some b.cell.address

namespace Lower

theorem Modes.serves_ofVar (Γ : Scope) (ρ : Env) (x : String) :
    (ofVar Γ x).Serves (Γ.Names ρ) [] (fun _ => []) fun _ => [.name x (ρ.home x)] := by
  unfold ofVar
  cases hv : Γ.soundVar? x with
  | none => exact serves_ofFault _
  | some v =>
    refine serves_ofOperand fun hok => ?_
    obtain ⟨b, hb, hhome⟩ := hok x v hv
    rw [hhome]
    show Takes [.address b.cell.address] _
    simp [Takes, Cell.leaf?_address, Use.address?, Env.home, hb]

section

variable (Γ : Scope) (ρ : Env)

mutual

/-- **The code of a proper expression stands for its uses**, in both modes. -/
theorem modes_serves : ∀ e : Expr, e.Proper → (modes Γ e).Renders (Γ.Names ρ) ρ e
  | .int _ n, _ => Modes.serves_ofOperand fun _ => .literal n
  | .str _ text, _ => Modes.serves_constant text
  | .var _ x, _ => Modes.serves_ofVar Γ ρ x
  | .index _ array i, h =>
      Modes.serves_compute (modes_serves array h.1) (modes_serves i h.2) fun _ _ _ => .load
  | .call _ name args, h => by
      have hargs := modesOf_serves args h.2
      unfold modes Modes.call Modes.Renders
      simp only [Expr.uses]
      split
      · exact Modes.serves_systemCall name hargs
      · exact Modes.serves_functionCall Γ name _ hargs
  | .unary _ op e, h => by
      have he := modes_serves e h.2
      cases op with
      | neg => exact Modes.serves_negative he
      | not => exact Modes.serves_negation he
      | address => exact Modes.serves_ofValue he.value he.operand
      | deref => exact Modes.serves_ofValue he.value he.operand
      | other _ => exact absurd rfl (h.1 _)
  | .binary _ op l r, h => by
      have hl := modes_serves l h.2.1
      have hr := modes_serves r h.2.2
      cases op with
      | arith op => exact Modes.serves_compute hl hr fun _ _ _ => .arith op
      | rel op => cases op <;> exact Modes.serves_compare hl hr _
      | and => exact Modes.serves_conjunction hl hr
      | or => exact Modes.serves_disjunction hl hr
      | other _ => exact absurd rfl (h.1 _)
  | .nameless _ _, h | .misplaced _, h => h.elim

theorem modesOf_serves : ∀ es : List Expr, Expr.AllProper es →
    Modes.AllRender (Γ.Names ρ) ρ (modesOf Γ es) es
  | [], _ => .nil
  | e :: es, h => .cons (modes_serves e h.1) (modesOf_serves es h.2)

end

end

end Lower

/-! ## 4. Declarations -/

theorem Decl.IsBinding.places {d : Decl} (h : d.IsBinding) : ∃ x ty, ty.Proper ∧
    d.placed? = some x ∧
    (∀ space frame s, Lower.placeDecl space frame d s = Lower.place space frame x ty s) ∧
    ∀ cell k ρ ds, Env.declare cell k ρ (d :: ds) =
      Env.declare cell (k + 1) (⟨x, cell k, ty.extent.isSome⟩ :: ρ) ds := by
  rcases h with h | h
  · cases h with
    | mk _ hty => exact ⟨_, _, hty, rfl, fun _ _ _ => rfl, fun _ _ _ _ => rfl⟩
  · cases h with
    | mk _ hty => exact ⟨_, _, hty, rfl, fun _ _ _ => rfl, fun _ _ _ _ => rfl⟩

theorem Scope.soundVar?_push (Γ : Scope) (frame : Frame) (x : String) : (Γ.push frame).soundVar? x =
    ((frame.var? x).filter fun v => !v.ty.isError).or (Γ.soundVar? x) := by
  change (frame :: Γ.frames).findSome? _ = _
  rw [List.findSome?_cons]
  cases (frame.var? x).filter fun v => !v.ty.isError <;> rfl

/-- One more variable on both sides. -/
theorem Scope.Names.cons {Γ : Scope} {frame : Frame} {ρ : Env} (h : (Γ.push frame).Names ρ)
    {x : String} {ty : Ty} (hty : ty.Proper) (hbinds : frame.binds x = false) (c : Cell)
    (array : Bool) :
    (Γ.push (frame ++ [(x, .variable ⟨ty, some c.address⟩)])).Names (⟨x, c, array⟩ :: ρ) := by
  intro y v hv
  rw [Scope.soundVar?_push, Frame.var?_snoc _ hbinds] at hv
  rw [Env.lookup, List.find?_cons]
  by_cases hy : y = x
  · rw [if_pos hy, Option.filter_some, hty.isError_eq] at hv
    cases hv
    rw [hy, beq_self_eq_true]
    exact ⟨_, rfl, rfl⟩
  · rw [if_neg hy, ← Scope.soundVar?_push] at hv
    rw [beq_eq_false_iff_ne.mpr fun heq => hy heq.symm]
    exact h y v hv

namespace Lower

theorem declare_before {frame : Frame} {name : String} {entry : Entry} {s : State}
    (h : (declare frame name entry s).2.journal.Faultless) : s.journal.Faultless := by
  unfold declare at h
  split at h
  · exact (Journal.faultless_append.mp h).1
  · exact (Journal.faultless_append.mp h).1

theorem place_before {space : Space} {frame : Frame} {x : String} {ty : Ty} {s : State}
    (h : (place space frame x ty s).2.journal.Faultless) : s.journal.Faultless :=
  declare_before (s := { s with alloc := s.alloc.bump space }) h

/-- A variable that is placed without a fault is new to its frame, and gets the next address. -/
theorem place_added {space : Space} {frame : Frame} {x : String} {ty : Ty} {s : State}
    (h : (place space frame x ty s).2.journal.Faultless) : frame.binds x = false ∧
      (place space frame x ty s).1 =
        frame ++ [(x, .variable ⟨ty, some (s.alloc.nextAddress space)⟩)] := by
  cases hbinds : frame.binds x with
  | false => simp [place, declare, Frame.add, Frame.addVariable, hbinds]
  | true =>
    simp only [place, declare, Frame.add, Frame.addVariable, hbinds, if_true] at h
    exact absurd (Journal.faultless_append.mp h).2 (Journal.not_faultless_fault _)

theorem placeDecls_before {space : Space} : ∀ {ds : List Decl} {frame : Frame} {s : State},
    (∀ d ∈ ds, d.IsBinding) → (placeDecls space frame ds s).2.journal.Faultless →
      s.journal.Faultless
  | [], _, _, _, h => h
  | d :: ds, frame, s, hds, h => by
      obtain ⟨hd, hrest⟩ := List.forall_mem_cons.mp hds
      obtain ⟨x, ty, -, -, hplace, -⟩ := hd.places
      have hfirst := placeDecls_before hrest h
      rw [hplace] at hfirst
      exact place_before hfirst

/-- The declarations of a block take a local each. -/
theorem placeDecls_grows {ds : List Decl} (hds : ∀ d ∈ ds, d.IsBinding) (frame : Frame)
    (s : State) : Grows ds.length [] s (placeDecls .local frame ds s).2 where
  globals := placeDecls_keeps (π := Allocator.globals) (fun _ => rfl) ds frame s
  params := placeDecls_keeps (π := Allocator.params) (fun _ => rfl) ds frame s
  locals := by
    induction ds generalizing frame s with
    | nil => rfl
    | cons d ds ih =>
      obtain ⟨hd, hrest⟩ := List.forall_mem_cons.mp hds
      obtain ⟨x, ty, -, -, hplace, -⟩ := hd.places
      rw [placeDecls, ih hrest, hplace, place_alloc, List.length_cons]
      show s.alloc.locals + 1 + ds.length = _
      omega
  before := placeDecls_before hds
  pool _ := by
    rw [List.append_nil]
    exact placeDecls_keeps (π := Allocator.pool) (fun _ => rfl) ds frame s

end Lower

/-- **Declarations that are placed without a fault are found where the source declares them.** -/
theorem Scope.Names.placeDecls {Γ : Scope} {space : Space} {cell : Nat → Cell}
    (hcell : ∀ k, (cell k).address = ⟨space, k⟩) : ∀ {ds : List Decl} {frame : Frame} {ρ : Env}
      {s : Lower.State}, (∀ d ∈ ds, d.IsBinding) →
      (Lower.placeDecls space frame ds s).2.journal.Faultless → (Γ.push frame).Names ρ →
      (Γ.push (Lower.placeDecls space frame ds s).1).Names
        (Env.declare cell (s.alloc.count space) ρ ds)
  | [], _, _, _, _, _, h => h
  | d :: ds, frame, ρ, s, hds, hj, h => by
      obtain ⟨hd, hrest⟩ := List.forall_mem_cons.mp hds
      obtain ⟨x, ty, hty, -, hplace, hdeclare⟩ := hd.places
      rw [Lower.placeDecls, hplace] at hj ⊢
      obtain ⟨hbinds, hadded⟩ := Lower.place_added (Lower.placeDecls_before hrest hj)
      have hnext : (Lower.place space frame x ty s).2.alloc.count space =
          s.alloc.count space + 1 := by
        rw [Lower.place_alloc]
        cases space <;> rfl
      rw [hdeclare, ← hnext]
      refine Scope.Names.placeDecls hcell hrest hj ?_
      have haddress : s.alloc.nextAddress space = (cell (s.alloc.count space)).address :=
        (hcell _).symm
      rw [hadded, haddress]
      exact h.cons hty hbinds _ _

namespace Lower

/-! ## 5. Statements -/

/-- **The code of statements stands for the uses of their acts**, and so many locals are placed. -/
def Plays (ok : Prop) (cs : List Scene) (slots : Nat) (s : State) (l : Lowered) : Prop :=
  Yields ok slots (literalsOf cs) (usesOf s.alloc.pool.length cs) s l.after (operandsOf l.code)

section Plays

variable {ok : Prop} {cs₁ cs₂ : List Scene} {k j : Nat} {s : State} {l l₁ l₂ : Lowered}

theorem Plays.append (h₁ : Plays ok cs₁ k s l₁) (h₂ : Plays ok cs₂ j l₁.after l₂) :
    Plays ok (cs₁ ++ cs₂) (k + j) s ⟨l₁.code ++ l₂.code, l₂.after⟩ := by
  have hall := Yields.append (u := fun n => usesOf n cs₂) h₁ h₂
  unfold Plays
  rw [operandsOf_append, literalsOf_append, usesOf_append]
  exact hall

/-- Other code with the same operands. -/
theorem Plays.recode (h : Plays ok cs₁ k s l) {code : List Instr}
    (hcode : operandsOf code = operandsOf l.code) : Plays ok cs₁ k s ⟨code, l.after⟩ := by
  unfold Plays
  rw [hcode]
  exact h

theorem Plays.nil (ok : Prop) (s : State) : Plays ok [] 0 s ⟨[], s⟩ := ⟨.refl s, fun _ _ => .nil⟩

/-- One act. -/
theorem plays_act {ρ : Env} {a : Act} (h : Yields ok 0 a.literals (a.uses ρ s.alloc.pool.length) s
    l.after (operandsOf l.code)) : Plays ok [⟨ρ, a⟩] 0 s l := by
  have hliterals : literalsOf [⟨ρ, a⟩] = a.literals := List.append_nil _
  have huses : usesOf s.alloc.pool.length [⟨ρ, a⟩] = a.uses ρ s.alloc.pool.length :=
    List.append_nil _
  unfold Plays
  rw [hliterals, huses]
  exact h

end Plays

section Statements

variable (Γ : Scope) (ρ : Env)

theorem condition_plays {e : Expr} (he : e.Proper) (t : Targets Target) (s : State) :
    Plays (Γ.Names ρ) [⟨ρ, .ask e⟩] 0 s (branch Γ e t s) := by
  have hliterals : (Act.ask e).literals = e.literals := List.append_nil _
  refine plays_act ?_
  rw [hliterals]
  exact (modes_serves Γ ρ e he).branch t s

/-- A target that is computed, then the value: both are taken together. -/
theorem move_yields {target exp : Expr} (htarget : target.Proper) (hexp : exp.Proper) (s : State) :
    let dest := value Γ target s
    let v := value Γ exp dest.after
    let n := s.alloc.pool.length
    let m := n + target.literals.length
    Yields (Γ.Names ρ) 0 (target.literals ++ exp.literals)
      (target.uses ρ n ++ exp.uses ρ m ++ (target.own ρ n ++ exp.own ρ m)) s v.after
      (operandsOf (dest.code ++ v.code ++ [.move dest.operand v.operand])) := by
  intro dest v n m
  obtain ⟨hvalues, hoperands⟩ :=
    Modes.yields_both (modes_serves Γ ρ target htarget) (modes_serves Γ ρ exp hexp) s
  have hall := hvalues.snoc fun hj hok => (hoperands hj hok).1.append (hoperands hj hok).2
  simp only [operandsOf_append]
  exact hall

/-- The array, the index and the value of an element are taken together. -/
theorem store_yields {array i exp : Expr} (harray : array.Proper) (hi : i.Proper)
    (hexp : exp.Proper) (s : State) :
    let base := value Γ array s
    let index := value Γ i base.after
    let v := value Γ exp index.after
    let n := s.alloc.pool.length
    let m := n + array.literals.length
    let k := m + i.literals.length
    Yields (Γ.Names ρ) 0 (array.literals ++ i.literals ++ exp.literals)
      (array.uses ρ n ++ i.uses ρ m ++ exp.uses ρ k ++ (array.own ρ n ++ i.own ρ m ++ exp.own ρ k))
      s v.after (operandsOf (base.code ++ index.code ++ v.code ++
        [.store base.operand index.operand v.operand])) := by
  intro base index v n m k
  obtain ⟨hparts, hoperands⟩ :=
    Modes.yields_both (modes_serves Γ ρ array harray) (modes_serves Γ ρ i hi) s
  have hserves := modes_serves Γ ρ exp hexp
  have hall := hparts.append (u := fun n => exp.uses ρ n) (hserves.value index.after)
  have hk : n + (array.literals ++ i.literals).length = k := by
    rw [List.length_append, ← Nat.add_assoc]
  rw [hk] at hall
  simp only [operandsOf_append]
  refine hall.snoc fun hj hok => ?_
  have hj' := (hserves.value index.after).grows.before hj
  have hpool : index.after.alloc.pool.length = k :=
    (congrArg List.length (hparts.grows.pool hj')).trans (List.length_append.trans hk)
  have hlast := hserves.operand index.after hj hok
  rw [hpool] at hlast
  exact ((hoperands hj' hok).1.append (hoperands hj' hok).2).append hlast

theorem assignment_plays {target exp : Expr} (htarget : target.Proper) (hexp : exp.Proper)
    (s : State) : Plays (Γ.Names ρ) [⟨ρ, .assign target exp⟩] 0 s (assignment Γ target exp s) := by
  have hliterals : (Act.assign target exp).literals = target.literals ++ exp.literals :=
    congrArg (target.literals ++ ·) (List.append_nil _)
  refine plays_act ?_
  rw [hliterals]
  cases target with
  | index _ array i => exact store_yields Γ ρ htarget.1 htarget.2 hexp s
  | _ => exact move_yields Γ ρ htarget hexp s

theorem returned_plays (label : String) {e : Option Expr} (he : ∀ v, e = some v → v.Proper)
    (s : State) :
    Plays (Γ.Names ρ) (e.toList.map fun v => ⟨ρ, .ask v⟩) 0 s (returned label Γ e s) := by
  cases e with
  | none => exact .nil _ s
  | some v =>
    have hserves := modes_serves Γ ρ v (he v rfl)
    have hliterals : (Act.ask v).literals = v.literals := List.append_nil _
    refine plays_act ?_
    rw [hliterals, returned, operandsOf_append]
    exact (hserves.value s).snoc (hserves.operand s)

theorem clause_plays (label : String) {st : Stmt} (hst : st.IsClause) (next : Target) (k : Nat)
    (s : State) : Plays (Γ.Names ρ) (st.scenes ρ k) 0 s (stmt label Γ st next s) := by
  cases hst with
  | assign _ htarget hexp => exact assignment_plays Γ ρ htarget hexp s
  | @call _ e hcall he =>
    have hliterals : (Act.run e).literals = e.literals := List.append_nil _
    refine plays_act ?_
    rw [hliterals, stmt, effect, if_pos hcall]
    exact (modes_serves Γ ρ e he).value s

end Statements

mutual

/-- **The code of a proper statement stands for its uses.** -/
theorem stmt_plays (label : String) (Γ : Scope) (ρ : Env) : ∀ st : Stmt, st.Proper →
    ∀ {k : Nat} (next : Target) (s : State), s.alloc.locals = k →
      Plays (Γ.Names ρ) (st.scenes ρ k) st.slots s (stmt label Γ st next s)
  | .assign _ _ _, hst, _, next, s, _ | .call _ _, hst, _, next, s, _ =>
      clause_plays Γ ρ label hst next _ s
  | .ifThen _ cond body, hst, k, next, s, hk => by
      have hc := condition_plays Γ ρ hst.1 (targets s.label next) s.afterLabel
      have hb := block_plays label Γ ρ [] body hst.2 _ (hc.grows.locals.trans hk)
      rw [Stmt.slots, ← Nat.zero_add body.slots]
      exact ((hc.append hb).recode (by simp)).label
  | .ifElse _ cond thenBody elseBody, hst, k, next, s, hk => by
      have hc := condition_plays Γ ρ hst.1
        (targets s.label (some s.afterLabel.label)) s.afterLabel.afterLabel
      have ha := block_plays label Γ ρ [] thenBody hst.2.1 _ (hc.grows.locals.trans hk)
      have hlocals := ha.grows.locals
      rw [hc.grows.locals.trans hk] at hlocals
      have hb := block_plays label Γ ρ [] elseBody hst.2.2 _ hlocals
      rw [Stmt.slots, ← Nat.zero_add (thenBody.slots + elseBody.slots)]
      exact ((hc.append (ha.append hb)).recode (by simp)).label.label
  | .whileLoop _ cond body, hst, k, next, s, hk => by
      have hc := condition_plays Γ ρ hst.1 (targets s.afterLabel.label next)
        s.afterLabel.afterLabel
      have hb := block_plays label Γ ρ [] body hst.2 _ (hc.grows.locals.trans hk)
      rw [Stmt.slots, ← Nat.zero_add body.slots]
      exact ((hc.append hb).recode (by simp)).label.label
  | .forLoop pos init cond step body, hst, k, next, s, hk => by
      have hi := clause_plays Γ ρ label hst.1 none k s.afterLabel.afterLabel
      have hc := condition_plays Γ ρ hst.2.1 (targets s.afterLabel.label next)
        (stmt label Γ init none s.afterLabel.afterLabel).after
      -- clauses and conditions place nothing
      have hlocals := hc.grows.locals.trans (hi.grows.locals.trans hk)
      have hinit : k + init.slots = k := by rw [hst.1.slots_eq, Nat.add_zero]
      have hb := block_plays label Γ ρ [] body hst.2.2.2 _ hlocals
      have hn := clause_plays Γ ρ label hst.2.2.1 none (k + body.slots)
        (block label Γ [] body (branch Γ cond (targets s.afterLabel.label next)
          (stmt label Γ init none s.afterLabel.afterLabel).after).after).after
      have hall := hi.append (hc.append (hb.append hn))
      have hslots : (Stmt.forLoop pos init cond step body).slots = 0 + (0 + (body.slots + 0)) := by
        rw [Stmt.slots, hst.1.slots_eq, hst.2.2.1.slots_eq]
        omega
      rw [hslots, Stmt.scenes, hinit]
      exact (hall.recode (by simp)).label.label
  | .ret _ e, hst, _, _, s, _ => returned_plays Γ ρ label hst s
  | .misplaced _, hst, _, _, _, _ | .missing _ _, hst, _, _, _, _ => hst.elim

theorem block_plays (label : String) (Γ : Scope) (ρ : Env) (frame : Frame) : ∀ b : Block, b.Proper →
    ∀ {k : Nat} (s : State), s.alloc.locals = k →
      Plays ((Γ.push frame).Names ρ) (b.scenes ρ k) b.slots s (block label Γ frame b s)
  | .mk _ ds sts, hb, k, s, hk => by
      have hds := binding_of_variables hb.1
      have hgrows := placeDecls_grows hds frame s
      have hstmts := stmts_plays label (Γ.push (placeDecls .local frame ds s).1)
        (Env.declare .local k ρ ds) sts hb.2 (placeDecls .local frame ds s).2
        (hgrows.locals.trans (congrArg (· + ds.length) hk))
      have hplaced : Plays ((Γ.push frame).Names ρ) [] ds.length s
          ⟨[], (placeDecls .local frame ds s).2⟩ := ⟨hgrows, fun _ _ => .nil⟩
      -- without a fault the declarations are found in the new frame
      refine hplaced.append ⟨hstmts.grows, fun hj hok => hstmts.takes hj ?_⟩
      rw [← hk]
      exact hok.placeDecls (fun _ => rfl) hds (hstmts.grows.before hj)

theorem stmts_plays (label : String) (Γ : Scope) (ρ : Env) : ∀ sts : List Stmt,
    Stmt.AllProper sts → ∀ {k : Nat} (s : State), s.alloc.locals = k →
      Plays (Γ.Names ρ) (Stmt.scenesOf ρ k sts) (Stmt.slotsOf sts) s (stmts label Γ sts s)
  | [], _, _, s, _ => .nil _ s
  | st :: sts, hsts, k, s, hk => by
      have hfirst := stmt_plays label Γ ρ st hsts.1 (some s.label) s.afterLabel hk
      have hrest := stmts_plays label Γ ρ sts hsts.2 _
        (hfirst.grows.locals.trans (congrArg (· + st.slots) hk))
      refine ((hfirst.append hrest).recode ?_).label
      split <;> simp

end

end Lower

end CMinusMinus
