/-
  File:      CMinusMinus/Proofs/FactsOfCode.lean
  Subject:   The facts that the code of a tree carries from its beginning to its end.

  The code of an expression as a value may start from any fact; at its end the fact is the same, and
  the operand that it leaves is known to be written. As a branch it brings the fact that it started
  from to both its targets. Statements start and end with nothing: no argument waits, and no operand
  of one statement is of use to another one.

  Labels are drawn by the code around and get their facts there, so a piece of code is annotated for
  all facts of the labels that are handed down to it, and chooses the facts of those that it draws.

  * `Scope.Stored` -- variables have addresses, and these are not temporaries;
  * `Flows`, `Flows.append`, `Flows.bind` -- annotated pieces of code and how they are put
    together;
  * `Lower.modes_traced`, `Lower.stmt_traced`, `Lower.block_traced` -- the code of all trees is
    annotated;
  * `Lower.block_facts` -- the facts on all walks through the body of a function.
-/
import CMinusMinus.Proofs.Walks
import CMinusMinus.Proofs.WellTyped

namespace CMinusMinus

/-! ## 1. Scopes with addresses -/

/-- A variable has an address that is no temporary. -/
def Entry.Stored : Entry → Prop
  | .variable v => ∃ a, v.home = some a ∧ a.space ≠ .temporary
  | .function _ => True

/-- All variables of a frame have addresses. -/
def Frame.Stored (frame : Frame) : Prop := ∀ b ∈ frame, b.2.Stored

/-- All variables in a scope have addresses. -/
def Scope.Stored (Γ : Scope) : Prop := ∀ frame ∈ Γ.frames, Frame.Stored frame

theorem Frame.stored_nil : Frame.Stored [] := fun _ h => absurd h List.not_mem_nil

theorem Frame.stored_add {frame frame' : Frame} {name : String} {entry : Entry}
    (h : frame.add name entry = .ok frame') (hframe : Frame.Stored frame) (hentry : entry.Stored) :
    Frame.Stored frame' := by
  intro b hb
  rcases Frame.mem_of_add h b hb with hold | hnew
  · exact hframe b hold
  · rw [hnew]
    exact hentry

theorem Frame.Stored.var? {frame : Frame} (h : Frame.Stored frame) {name : String} {v : Variable}
    (hv : frame.var? name = some v) : ∃ a, v.home = some a ∧ a.space ≠ .temporary := by
  unfold Frame.var? at hv
  obtain ⟨⟨n, e⟩, hb, hf⟩ := List.exists_of_findSome?_eq_some hv
  rcases e with w | f
  · dsimp only at hf
    split at hf
    · cases hf
      exact h _ hb
    · cases hf
  · cases hf

theorem Scope.Stored.soundVar? {Γ : Scope} (h : Γ.Stored) {name : String} {v : Variable}
    (hv : Γ.soundVar? name = some v) : ∃ a, v.home = some a ∧ a.space ≠ .temporary := by
  obtain ⟨frame, hframe, hf⟩ := List.exists_of_findSome?_eq_some hv
  exact (h frame hframe).var? (Option.filter_eq_some_iff.mp hf).1

theorem Scope.stored_globals {globals : Frame} (h : Frame.Stored globals) :
    Scope.Stored { globals := globals } := by
  intro frame hframe
  rw [List.mem_singleton.mp hframe]
  exact h

theorem Scope.Stored.push {Γ : Scope} (hΓ : Γ.Stored) {frame : Frame}
    (hframe : Frame.Stored frame) :
    (Γ.push frame).Stored := by
  intro f hf
  rcases List.mem_cons.mp hf with hhead | htail
  · rw [hhead]
    exact hframe
  · exact hΓ f htail

namespace Lower

theorem declare_stored {frame : Frame} (hframe : Frame.Stored frame) (name : String) {entry : Entry}
    (hentry : entry.Stored) (s : State) : Frame.Stored (declare frame name entry s).1 := by
  unfold declare
  split
  · rename_i hadd
    exact Frame.stored_add hadd hframe hentry
  · exact hframe

theorem declare_function_stored {frame : Frame} (hframe : Frame.Stored frame) (name : String)
    (f : Signature) (s : State) : Frame.Stored (declare frame name (.function f) s).1 := by
  have hentry : Entry.Stored (.function f) := trivial
  exact declare_stored hframe name hentry s

theorem place_stored {space : Space} (hspace : space ≠ .temporary) {frame : Frame}
    (hframe : Frame.Stored frame) (name : String) (ty : Ty) (s : State) :
    Frame.Stored (place space frame name ty s).1 := by
  have hentry : Entry.Stored (.variable ⟨ty, some (s.alloc.nextAddress space)⟩) :=
    ⟨_, rfl, hspace⟩
  exact declare_stored hframe name hentry _

/-- Declarations are placed at addresses. -/
theorem placeDecls_stored {space : Space} (hspace : space ≠ .temporary) : ∀ (ds : List Decl)
    {frame : Frame} (s : State), Frame.Stored frame → Frame.Stored (placeDecls space frame ds s).1
  | [], _, _, hframe => hframe
  | d :: ds, frame, s, hframe => by
      have hfirst : Frame.Stored (placeDecl space frame d s).1 := by
        unfold placeDecl
        split
        · exact place_stored hspace hframe _ _ s
        · exact place_stored hspace hframe _ _ s
        · exact hframe
      exact placeDecls_stored hspace ds _ hfirst

end Lower

/-! ## 2. Annotated pieces -/

theorem Operand.literal_ne_temporary (x : Int) (n : Nat) : Operand.literal x ≠ .temporary n :=
  Operand.noConfusion

theorem Operand.absent_ne_temporary (n : Nat) : Operand.absent ≠ .temporary n :=
  Operand.noConfusion

/-- The operand may be read: it has been written, or it is no temporary. -/
def Fact.Knows (k : Fact) (v : Operand) : Prop := v ∈ k.written ∨ ∀ n, v ≠ .temporary n

theorem Fact.knows_last (k : Fact) (v : Operand) : (k.learn v).Knows v := .inl List.mem_cons_self

theorem Fact.Knows.learn {k : Fact} {v : Operand} (h : k.Knows v) (w : Operand) :
    (k.learn w).Knows v := h.imp (List.mem_cons_of_mem _) id

theorem Fact.knows_literal (k : Fact) (x : Int) : k.Knows (.literal x) :=
  .inr (Operand.literal_ne_temporary x)

theorem Fact.reads_written {k : Fact} {vs : List Operand} (h : ∀ v ∈ vs, k.Knows v) (n : Nat)
    (hn : .temporary n ∈ vs) : .temporary n ∈ k.written :=
  (h _ hn).resolve_right fun hne => hne n rfl

/-- An instruction that is neither a call nor a return may stand where its operands are known. -/
theorem Fact.admits_of_reads {k : Fact} {i : Instr} (htakes : i.takes? = none)
    (hreturns : i.returns = false) (hreads : ∀ v ∈ i.reads, k.Knows v) : k.Admits i where
  reads := reads_written hreads
  takes n hn := by rw [htakes] at hn; cases hn
  returns hr := by rw [hreturns] at hr; cases hr

/-- The labels have the facts that were handed down. -/
def Meets (L : Label → Fact) (out : List (Target × Fact)) : Prop :=
  ∀ o ∈ out, ∀ l, o.1 = some l → L l = o.2

/-- **A piece of code that is annotated**, made while the label counter goes from `lo` to `hi`, for
    the facts `out` of the targets that are handed down to it. -/
structure Flows (lo hi : Nat) (out : List (Target × Fact)) (k : Fact) (code : List Instr)
    (q : Fact) : Prop where
  le : lo ≤ hi
  annotated : ∃ A : Label → Fact, ∀ L : Label → Fact,
    (∀ l : Label, lo ≤ l.number → l.number < hi → L l = A l) → Meets L out → Flow L k code q

namespace Flows

variable {lo mid hi n : Nat} {out out₁ : List (Target × Fact)} {k m q : Fact}
  {code c₁ c₂ : List Instr} {i : Instr}

theorem nil (hle : lo ≤ hi) (h : q.Weaker k) : Flows lo hi out k [] q :=
  ⟨hle, fun _ => .nothing, fun _ _ _ => .nil h⟩

theorem weaken (h : Flows lo hi out k code m) (hq : q.Weaker m) : Flows lo hi out k code q := by
  obtain ⟨hle, A, hA⟩ := h
  exact ⟨hle, A, fun L hL hout => (hA L hL hout).weaken hq⟩

/-- More may be handed down than is used. -/
theorem widen (h : Flows lo hi out k code q) (hout : ∀ o ∈ out, o ∈ out₁) :
    Flows lo hi out₁ k code q := by
  obtain ⟨hle, A, hA⟩ := h
  exact ⟨hle, A, fun L hL hmeets => hA L hL fun o ho => hmeets o (hout o ho)⟩

/-- Where no target is handed down, its fact is of no use. -/
theorem unhand {f : Fact} (h : Flows lo hi [(none, f)] k code q) : Flows lo hi [] k code q := by
  obtain ⟨hle, A, hA⟩ := h
  refine ⟨hle, A, fun L hL _ => hA L hL fun o ho l hl => ?_⟩
  rw [List.mem_singleton.mp ho] at hl
  cases hl

theorem spare (h : Flows lo hi [] k code q) (out : List (Target × Fact)) :
    Flows lo hi out k code q := h.widen fun _ ho => absurd ho List.not_mem_nil

/-- **Annotated pieces one after the other.** -/
theorem append (h₁ : Flows lo mid out k c₁ m) (h₂ : Flows mid hi out m c₂ q) :
    Flows lo hi out k (c₁ ++ c₂) q := by
  obtain ⟨hle₁, A₁, hA₁⟩ := h₁
  obtain ⟨hle₂, A₂, hA₂⟩ := h₂
  refine ⟨Nat.le_trans hle₁ hle₂, fun l => if l.number < mid then A₁ l else A₂ l, ?_⟩
  intro L hL hout
  have hL₁ : ∀ l : Label, lo ≤ l.number → l.number < mid → L l = A₁ l := by
    intro l hlo hmid
    exact (hL l hlo (Nat.lt_of_lt_of_le hmid hle₂)).trans (if_pos hmid)
  have hL₂ : ∀ l : Label, mid ≤ l.number → l.number < hi → L l = A₂ l := by
    intro l hmid hhi
    exact (hL l (Nat.le_trans hle₁ hmid) hhi).trans (if_neg (Nat.not_lt.mpr hmid))
  exact (hA₁ L hL₁ hout).append (hA₂ L hL₂ hout)

/-- **The label drawn before all others of the piece gets its fact.** -/
theorem bind {f : Fact} (h : Flows (n + 1) hi ((some ⟨n⟩, f) :: out) k code q) :
    Flows n hi out k code q := by
  obtain ⟨hle, A, hA⟩ := h
  refine ⟨Nat.le_of_succ_le hle, fun l => if l.number = n then f else A l, ?_⟩
  intro L hL hout
  refine hA L (fun l hlo hhi => ?_) (List.forall_mem_cons.mpr ⟨fun l hl => ?_, hout⟩)
  · exact (hL l (Nat.le_of_succ_le hlo) hhi).trans (if_neg (Nat.ne_of_gt hlo))
  · cases hl
    exact (hL ⟨n⟩ (Nat.le_refl n) hle).trans (if_pos rfl)

theorem instr (h : ∀ L, Meets L out → Fact.Step L k i q) : Flows n n out k [i] q :=
  ⟨Nat.le_refl n, fun _ => .nothing, fun L _ hout =>
    .cons (.refl k) (h L hout) (.nil (.refl q))⟩

/-- One more instruction behind, neither label nor jump. -/
theorem snoc (h : Flows lo hi out k code m) (hlabel : i.label? = none) (htarget : i.target? = none)
    (hadmits : m.Admits i) (hq : q.Weaker (m.after i)) : Flows lo hi out k (code ++ [i]) q := by
  refine h.append (instr fun L _ => ⟨hadmits, fun l hl => ?_, fun l hl => ?_, fun _ => hq⟩)
  · rw [hlabel] at hl
    cases hl
  · rw [htarget] at hl
    cases hl

/-- A value computed from two known operands. -/
theorem compute {d l r : Operand} (h : Flows lo hi out k code m) (hinstr : i.Computes d l r)
    (hl : m.Knows l) (hr : m.Knows r) : Flows lo hi out k (code ++ [i]) (m.learn d) := by
  have hboth : ∀ v ∈ [l, r], m.Knows v := by simp [hl, hr]
  cases hinstr with
  | arith op =>
    exact h.snoc rfl rfl (Fact.admits_of_reads rfl rfl hboth) (.refl _)
  | load =>
    exact h.snoc rfl rfl (Fact.admits_of_reads rfl rfl hboth) (.refl _)

/-- A label whose fact holds already. -/
theorem define {l : Label} (h : Flows lo hi out k code q) (hl : (some l, q) ∈ out) :
    Flows lo hi out k (code ++ [.label l]) q := by
  have hadmits : q.Admits (.label l) := Fact.admits_of_reads rfl rfl (by simp [Instr.reads])
  refine h.append (instr fun L hout => ⟨hadmits, fun l' hl' => ?_, fun l' hl' => ?_, fun _ => ?_⟩)
  · cases hl'
    exact hout _ hl l rfl
  · cases hl'
  · exact .refl q

/-- A jump; what stands behind it is not reached from here. -/
theorem jump {t : Target} (h : Flows lo hi out k code m) (ht : (t, m) ∈ out) :
    Flows lo hi out k (code ++ [.jump t]) q := by
  have hadmits : m.Admits (.jump t) := Fact.admits_of_reads rfl rfl (by simp [Instr.reads])
  refine h.append (instr fun L hout => ⟨hadmits, fun l hl => ?_, fun l hl => ?_, fun hf => ?_⟩)
  · cases hl
  · rw [hout _ ht l (Option.some.inj hl)]
    exact .refl m
  · cases hf

/-- The two jumps at the end of a condition bring a fact to both targets. -/
theorem branches {test : Comparison} {left right : Operand} {t : Targets Target} {f : Fact}
    (h : Flows lo hi [] k code m) (hf : f.Weaker m) (hleft : m.Knows left)
    (hright : m.Knows right) :
    Flows lo hi [(t.onTrue, f), (t.onFalse, f)] k
      (code ++ [.branch test left right t.onTrue, .jump t.onFalse]) q := by
  let out : List (Target × Fact) := [(t.onTrue, f), (t.onFalse, f)]
  have hbranch : Flows hi hi out m [.branch test left right t.onTrue] f := by
    have hadmits : m.Admits (.branch test left right t.onTrue) :=
      Fact.admits_of_reads rfl rfl (by simp [Instr.reads, hleft, hright])
    refine instr fun L hout => ⟨hadmits, fun l hl => ?_, fun l hl => ?_, fun _ => hf⟩
    · cases hl
    · rw [hout _ List.mem_cons_self l (Option.some.inj hl)]
      exact hf
  exact (h.spare out).append (hbranch.jump (List.mem_cons_of_mem _ List.mem_cons_self))

end Flows

/-! ## 3. Expressions -/

namespace Lower

namespace Modes

/-- **The code of an expression is annotated from any fact on**: as a value it ends with the same
    fact and its own operand, as a branch it brings the fact to both targets. -/
structure Traced (m : Modes) : Prop where
  value : ∀ s k, Flows s.alloc.labels (m.value s).after.alloc.labels [] k (m.value s).code
    (k.learn (m.value s).operand)
  branch : ∀ t s k q, Flows s.alloc.labels (m.branch t s).after.alloc.labels
    [(t.onTrue, k), (t.onFalse, k)] k (m.branch t s).code q

theorem traced_ofValue {value : State → Emitted}
    (hvalue : ∀ s k, Flows s.alloc.labels (value s).after.alloc.labels [] k (value s).code
      (k.learn (value s).operand)) : (ofValue value).Traced where
  value := hvalue
  branch _ s k _ :=
    (hvalue s k).branches (.learn k _) (k.knows_last _) ((k.knows_literal 0).learn _)

/-- Both ends of a materialised branch write its temporary. -/
theorem traced_materialise {branch : Targets Target → State → Lowered}
    (hbranch : ∀ t s k q, Flows s.alloc.labels (branch t s).after.alloc.labels
      [(t.onTrue, k), (t.onFalse, k)] k (branch t s).code q) (s : State) (k : Fact) :
    Flows s.alloc.labels (materialise branch s).after.alloc.labels [] k (materialise branch s).code
      (k.learn (materialise branch s).operand) := by
  let n := s.alloc.labels
  let s₃ := s.afterTemporary.afterLabel.afterLabel.afterLabel
  let b := branch ⟨some ⟨n⟩, some ⟨n + 1⟩, none⟩ s₃
  let k' := k.learn s.temporary
  let out : List (Target × Fact) := [(some ⟨n + 2⟩, k'), (some ⟨n + 1⟩, k), (some ⟨n⟩, k)]
  have hb : Flows (n + 3) b.after.alloc.labels out k b.code k :=
    (hbranch ⟨some ⟨n⟩, some ⟨n + 1⟩, none⟩ s₃ k k).widen (by simp [out])
  have hmove : ∀ x, k.Admits (.move s.temporary (.literal x)) := fun x =>
    Fact.admits_of_reads rfl rfl (by simp [Instr.reads, k.knows_literal x])
  have hyes := (hb.define (l := ⟨n⟩) (by simp [out])).snoc rfl rfl (hmove 1) (.refl k')
  have hdone : Flows _ _ out k _ k := hyes.jump (t := some ⟨n + 2⟩) (by simp [out])
  have hno := (hdone.define (l := ⟨n + 1⟩) (by simp [out])).snoc rfl rfl (hmove 0) (.refl k')
  have hall := hno.define (l := ⟨n + 2⟩) (by simp [out])
  have hcode : b.code ++ ends s.temporary ⟨n⟩ ⟨n + 1⟩ ⟨n + 2⟩ =
      b.code ++ [.label ⟨n⟩] ++ [.move s.temporary (.literal 1)] ++ [.jump (some ⟨n + 2⟩)] ++
      [.label ⟨n + 1⟩] ++ [.move s.temporary (.literal 0)] ++ [.label ⟨n + 2⟩] := by
    simp only [List.append_assoc]
    rfl
  change Flows _ _ _ _ (b.code ++ ends s.temporary ⟨n⟩ ⟨n + 1⟩ ⟨n + 2⟩) _
  rw [hcode]
  exact hall.bind.bind.bind

theorem traced_ofBranch {branch : Targets Target → State → Lowered}
    (hbranch : ∀ t s k q, Flows s.alloc.labels (branch t s).after.alloc.labels
      [(t.onTrue, k), (t.onFalse, k)] k (branch t s).code q) : (ofBranch branch).Traced :=
  ⟨traced_materialise hbranch, hbranch⟩

/-- An operand that is there already and is no temporary. -/
theorem traced_empty {value : State → Emitted} (hcode : ∀ s, (value s).code = [])
    (hlabels : ∀ s, (value s).after.alloc.labels = s.alloc.labels)
    (hoperand : ∀ s n, (value s).operand ≠ .temporary n) : (ofValue value).Traced := by
  refine traced_ofValue fun s k => ?_
  rw [hcode, hlabels]
  exact .nil (Nat.le_refl _) (Fact.learn_weaker (hoperand s))

/-- A variable needs no code and draws nothing, and its operand is no temporary. -/
theorem ofVar_eq {Γ : Scope} (hΓ : Γ.Stored) (name : String) : ∃ value : State → Emitted,
    ofVar Γ name = ofValue value ∧ (∀ s, (value s).code = []) ∧
      (∀ s, (value s).after.alloc = s.alloc) ∧ ∀ s n, (value s).operand ≠ .temporary n := by
  unfold ofVar
  split
  · rename_i v hv
    obtain ⟨a, ha, hspace⟩ := hΓ.soundVar? hv
    rw [ha]
    refine ⟨_, rfl, fun _ => rfl, fun _ => rfl, fun _ n heq => hspace ?_⟩
    cases heq
    rfl
  · exact ⟨_, rfl, fun _ => rfl, fun _ => rfl, fun _ => Operand.absent_ne_temporary⟩

theorem traced_ofVar {Γ : Scope} (hΓ : Γ.Stored) (name : String) : (ofVar Γ name).Traced := by
  obtain ⟨value, heq, hcode, halloc, hoperand⟩ := ofVar_eq hΓ name
  rw [heq]
  exact traced_empty hcode (fun s => congrArg Allocator.labels (halloc s)) hoperand

section Operators

variable {left right operand : Modes} (hl : left.Traced) (hr : right.Traced)

include hl hr

/-- Two values one after the other; both operands are known then. -/
theorem both_traced (s : State) (k : Fact) :
    Flows s.alloc.labels (right.value (left.value s).after).after.alloc.labels [] k
      ((left.value s).code ++ (right.value (left.value s).after).code)
      ((k.learn (left.value s).operand).learn (right.value (left.value s).after).operand) :=
  (hl.value s k).append (hr.value (left.value s).after _)

theorem traced_compute {instr : Operand → Operand → Operand → Instr}
    (hinstr : ∀ d l r, (instr d l r).Computes d l r) : (compute left right instr).Traced := by
  refine traced_ofValue fun s k => ?_
  let l := (left.value s).operand
  let r := (right.value (left.value s).after).operand
  let d := (right.value (left.value s).after).after.temporary
  have hall := (both_traced hl hr s k).compute (hinstr d l r)
    ((k.knows_last l).learn r) ((k.learn l).knows_last r)
  exact hall.weaken (((Fact.Weaker.learn k l).trans (.learn _ r)).both_learn _)

theorem traced_compare (op : RelOp) : (compare op left right).Traced := by
  refine traced_ofBranch fun t s k q => ?_
  let l := (left.value s).operand
  let r := (right.value (left.value s).after).operand
  have hboth := both_traced hl hr s k
  have hk : k.Weaker ((k.learn l).learn r) := (Fact.Weaker.learn k l).trans (.learn _ r)
  have hleft : ((k.learn l).learn r).Knows l := (k.knows_last l).learn r
  have hright : ((k.learn l).learn r).Knows r := (k.learn l).knows_last r
  cases op with
  | lt | le | eq | ne => exact hboth.branches hk hleft hright
  | gt | ge => exact hboth.branches hk hright hleft

/-- A branch that may be decided by its left side: the label of the right side has the fact that
    both sides start from. -/
theorem traced_shortCircuit (first : Targets Target → Label → Targets Target)
    (hout : ∀ t l (k : Fact), ∀ o ∈ [((first t l).onTrue, k), ((first t l).onFalse, k)],
      o ∈ [(some l, k), (t.onTrue, k), (t.onFalse, k)]) :
    (ofBranch fun t s =>
      let l := left.branch (first t s.label) s.afterLabel
      let r := right.branch ⟨t.onTrue, t.onFalse, none⟩ l.after
      ⟨l.code ++ [.label s.label] ++ r.code, r.after⟩).Traced := by
  refine traced_ofBranch fun t s k q => ?_
  let out : List (Target × Fact) := [(some s.label, k), (t.onTrue, k), (t.onFalse, k)]
  have hleft : Flows _ _ out k _ k :=
    (hl.branch (first t s.label) s.afterLabel k k).widen (hout t s.label k)
  have hright : Flows _ _ out k _ q :=
    (hr.branch ⟨t.onTrue, t.onFalse, none⟩
      (left.branch (first t s.label) s.afterLabel).after k q).widen
      fun o ho => List.mem_cons_of_mem _ ho
  exact ((hleft.define (l := s.label) List.mem_cons_self).append hright).bind

theorem traced_conjunction : (conjunction left right).Traced :=
  traced_shortCircuit hl hr (fun t l => ⟨some l, t.onFalse, none⟩) (by simp)

theorem traced_disjunction : (disjunction left right).Traced :=
  traced_shortCircuit hl hr (fun t l => ⟨t.onTrue, some l, none⟩) (by simp)

theorem traced_unknown (text : String) : (unknown left right text).Traced := by
  refine traced_ofValue fun s k => ?_
  exact .nil (both_traced hl hr s k).le (Fact.learn_weaker Operand.absent_ne_temporary)

end Operators

theorem traced_negative {operand : Modes} (h : operand.Traced) : (negative operand).Traced := by
  refine traced_ofValue fun s k => ?_
  let v := operand.value s
  have hall := (h.value s k).compute (d := v.after.temporary) (.arith .sub)
    ((k.knows_literal 0).learn v.operand) (k.knows_last v.operand)
  exact hall.weaken ((Fact.Weaker.learn k v.operand).both_learn _)

theorem traced_negation {operand : Modes} (h : operand.Traced) : (negation operand).Traced := by
  refine traced_ofBranch fun t s k q => (h.branch t.swap s k q).widen ?_
  simp [Targets.swap]

/-- What is known after several values: the operand of the last one. -/
theorem sequence_traced : ∀ {ms : List Modes}, (∀ m ∈ ms, Traced m) → ∀ s k,
    Flows s.alloc.labels (sequence ms s).2.2.alloc.labels [] k (sequence ms s).1
      ((sequence ms s).2.1.elim k k.learn)
  | [], _, s, k => .nil (Nat.le_refl _) (.refl k)
  | m :: ms, h, s, k => by
      obtain ⟨hm, hms⟩ := List.forall_mem_cons.mp h
      let v := m.value s
      have hall := (hm.value s k).append (sequence_traced hms v.after (k.learn v.operand))
      refine hall.weaken ?_
      change Fact.Weaker (((sequence ms v.after).2.1 <|> some v.operand).elim k k.learn) _
      cases (sequence ms v.after).2.1 with
      | none => exact .refl _
      | some last => exact (Fact.Weaker.learn k v.operand).both_learn last

theorem traced_systemCall (name : String) {args : List Modes} (h : ∀ m ∈ args, Traced m) :
    (systemCall name args).Traced := by
  refine traced_ofValue fun s k => ?_
  have hargs := sequence_traced h s k
  have habsent : (k.learn .absent).Weaker k := Fact.learn_weaker Operand.absent_ne_temporary
  dsimp only
  cases hlast : (sequence args s).2.1 with
  | none =>
    rw [hlast] at hargs
    rw [List.append_nil]
    exact hargs.weaken habsent
  | some v =>
    rw [hlast] at hargs
    dsimp only
    split
    · exact hargs.snoc (i := .read v) rfl rfl
        (Fact.admits_of_reads rfl rfl (by simp [Instr.reads]))
        (habsent.trans ((Fact.Weaker.learn k v).trans (.learn _ v)))
    · exact hargs.snoc (i := .write v) rfl rfl
        (Fact.admits_of_reads rfl rfl (by simp [Instr.reads, k.knows_last v]))
        (habsent.trans (.learn k v))

/-- Arguments are handed over in order, and nothing that waited before is touched. -/
theorem handOver_traced : ∀ {ms : List Modes} (place : Nat), (∀ m ∈ ms, Traced m) → ∀ s k,
    ∃ given : List (Operand × Nat), given.map Prod.snd = (List.range' place ms.length).reverse ∧
      Flows s.alloc.labels (handOver place ms s).after.alloc.labels [] k (handOver place ms s).code
        { k with waiting := given ++ k.waiting }
  | [], _, _, s, k => ⟨[], rfl, .nil (Nat.le_refl _) (.refl k)⟩
  | m :: ms, place, h, s, k => by
      obtain ⟨hm, hms⟩ := List.forall_mem_cons.mp h
      let v := m.value s
      let k' : Fact := { k with waiting := (v.operand, place) :: k.waiting }
      obtain ⟨given, hplaces, hothers⟩ := handOver_traced (place + 1) hms v.after k'
      have hreads : ∀ w ∈ [v.operand], (k.learn v.operand).Knows w := by simp [Fact.knows_last]
      have hfirst := (hm.value s k).snoc (i := .arg v.operand place) (q := k') rfl rfl
        (Fact.admits_of_reads rfl rfl hreads) ⟨rfl, fun n hn => List.mem_cons_of_mem _ hn⟩
      refine ⟨given ++ [(v.operand, place)], ?_, ?_⟩
      · rw [List.map_append, hplaces, List.length_cons, List.range'_succ, List.reverse_cons]
        rfl
      · have hall := hfirst.append hothers
        rw [List.append_assoc]
        exact hall

/-- A call finds its own arguments and takes all of them. -/
theorem call_traced {ms : List Modes} (h : ∀ m ∈ ms, Traced m) (s : State) (k : Fact) {i : Instr}
    (htakes : i.takes? = some ms.length) (hreads : i.reads = []) (hreturns : i.returns = false)
    (hlabel : i.label? = none) (htarget : i.target? = none)
    (hafter : ∀ waiting, i.handOver waiting = waiting.drop ms.length) :
    Flows s.alloc.labels (handOver 0 ms s).after.alloc.labels [] k ((handOver 0 ms s).code ++ [i])
      ⟨k.waiting, i.dest?.toList ++ k.written⟩ := by
  obtain ⟨given, hplaces, hargs⟩ := handOver_traced 0 h s k
  have hlength : given.length = ms.length := by
    have := congrArg List.length hplaces
    simpa using this
  refine hargs.snoc hlabel htarget ⟨?_, ?_, ?_⟩ ⟨?_, fun n hn => hn⟩
  · intro n hn
    rw [hreads] at hn
    cases hn
  · intro n hn
    rw [htakes] at hn
    cases hn
    rw [← hlength, List.take_left, hplaces, ← hlength, List.range_eq_range']
  · intro hr
    rw [hreturns] at hr
    cases hr
  · change _ = i.handOver (given ++ k.waiting)
    rw [hafter, ← hlength, List.drop_left]

theorem traced_functionCall (Γ : Scope) (name : String) (types : Check.Verdicts)
    {args : List Modes} (h : ∀ m ∈ args, Traced m) :
    (functionCall Γ name types args).Traced := by
  refine traced_ofValue fun s k => ?_
  have habsent : (k.learn .absent).Weaker k := Fact.learn_weaker Operand.absent_ne_temporary
  dsimp only
  split
  · exact .nil (Nat.le_refl _) habsent
  · rename_i f _
    split
    · exact (call_traced h (s.overhear types.journal) k (i := .call _ _) rfl rfl rfl rfl rfl
        fun _ => rfl).weaken habsent
    · exact call_traced h (s.overhear types.journal) k (i := .callValue _ _ _) rfl rfl rfl rfl rfl
        fun _ => rfl

end Modes

mutual

/-- **The code of every expression is annotated** in both modes. -/
theorem modes_traced {Γ : Scope} (hΓ : Γ.Stored) : ∀ e : Expr, (modes Γ e).Traced
  | .int _ n =>
      Modes.traced_empty (fun _ => rfl) (fun _ => rfl) fun _ => Operand.literal_ne_temporary n
  | .str _ text => Modes.traced_empty (fun _ => rfl) (fun _ => rfl) fun _ _ heq => by cases heq
  | .var _ name => Modes.traced_ofVar hΓ name
  | .index _ array i =>
      Modes.traced_compute (modes_traced hΓ array) (modes_traced hΓ i) fun _ _ _ => .load
  | .call _ name args => by
      have hargs := modesOf_traced hΓ args
      rw [modes, Modes.call]
      split
      · exact Modes.traced_systemCall name hargs
      · exact Modes.traced_functionCall Γ name _ hargs
  | .unary _ op operand => by
      have h := modes_traced hΓ operand
      cases op with
      | neg => exact Modes.traced_negative h
      | not => exact Modes.traced_negation h
      | address | deref | other text => exact Modes.traced_ofValue h.value
  | .binary _ op left right => by
      have hl := modes_traced hΓ left
      have hr := modes_traced hΓ right
      cases op with
      | arith op => exact Modes.traced_compute hl hr fun _ _ _ => .arith op
      | rel op => exact Modes.traced_compare hl hr op
      | and => exact Modes.traced_conjunction hl hr
      | or => exact Modes.traced_disjunction hl hr
      | other text => exact Modes.traced_unknown hl hr text
  | .nameless _ _ =>
      Modes.traced_empty (fun _ => rfl) (fun _ => rfl) fun _ => Operand.absent_ne_temporary
  | .misplaced _ =>
      Modes.traced_empty (fun _ => rfl) (fun _ => rfl) fun _ => Operand.absent_ne_temporary

theorem modesOf_traced {Γ : Scope} (hΓ : Γ.Stored) : ∀ es : List Expr,
    ∀ m ∈ modesOf Γ es, Modes.Traced m
  | [] => fun _ h => absurd h List.not_mem_nil
  | e :: es => List.forall_mem_cons.mpr ⟨modes_traced hΓ e, modesOf_traced hΓ es⟩

end

/-! ## 4. Statements -/

/-- Code of statements: nothing waits in front of it and behind it. -/
abbrev Quiet (lo hi : Nat) (out : List (Target × Fact)) (code : List Instr) : Prop :=
  Flows lo hi out .nothing code .nothing

section Statements

variable (label : String) {Γ : Scope} (hΓ : Γ.Stored)

include hΓ

theorem assignment_traced (target exp : Expr) (s : State) :
    Quiet s.alloc.labels (assignment Γ target exp s).after.alloc.labels []
      (assignment Γ target exp s).code := by
  unfold assignment
  split
  · rename_i array index
    let base := value Γ array s
    let i := value Γ index base.after
    let v := value Γ exp i.after
    let k := ((Fact.nothing.learn base.operand).learn i.operand).learn v.operand
    have hparts : Flows _ _ [] .nothing _ k :=
      (((modes_traced hΓ array).value s .nothing).append
        ((modes_traced hΓ index).value base.after _)).append ((modes_traced hΓ exp).value i.after _)
    have hreads : ∀ w ∈ [base.operand, i.operand, v.operand], k.Knows w := by
      simp [k, Fact.knows_last, Fact.Knows.learn]
    exact hparts.snoc (i := .store _ _ _) rfl rfl (Fact.admits_of_reads rfl rfl hreads)
      ⟨rfl, fun _ h => absurd h List.not_mem_nil⟩
  · let dest := value Γ target s
    let v := value Γ exp dest.after
    let k := (Fact.nothing.learn dest.operand).learn v.operand
    have hparts : Flows _ _ [] .nothing _ k :=
      ((modes_traced hΓ target).value s .nothing).append ((modes_traced hΓ exp).value dest.after _)
    have hreads : ∀ w ∈ [v.operand], k.Knows w := by simp [k, Fact.knows_last]
    exact hparts.snoc (i := .move _ _) rfl rfl (Fact.admits_of_reads rfl rfl hreads)
      ⟨rfl, fun _ h => absurd h List.not_mem_nil⟩

theorem effect_traced (e : Expr) (s : State) :
    Quiet s.alloc.labels (effect Γ e s).after.alloc.labels [] (effect Γ e s).code := by
  unfold effect
  split
  · exact ((modes_traced hΓ e).value s .nothing).weaken (.learn _ _)
  · exact .nil (Nat.le_refl _) (.refl _)

theorem returned_traced (exp : Option Expr) (s : State) :
    Quiet s.alloc.labels (returned label Γ exp s).after.alloc.labels []
      (returned label Γ exp s).code := by
  cases exp with
  | none =>
    have hadmits : Fact.nothing.Admits (.ret label) :=
      ⟨fun _ h => absurd h List.not_mem_nil, fun _ h => (nomatch h), fun _ => rfl⟩
    exact (Flows.nil (Nat.le_refl _) (.refl _)).snoc rfl rfl hadmits (.refl _)
  | some e =>
    let v := value Γ e s
    have hreads : ∀ w ∈ [v.operand], (Fact.nothing.learn v.operand).Knows w := by
      simp [Fact.knows_last]
    have hadmits : (Fact.nothing.learn v.operand).Admits (.retValue label v.operand) :=
      ⟨Fact.reads_written hreads, fun _ h => (nomatch h), fun _ => rfl⟩
    exact ((modes_traced hΓ e).value s .nothing).snoc rfl rfl hadmits (.learn _ _)

end Statements

mutual

/-- **The code of every statement is annotated**: nothing waits, neither behind it nor where it
    goes on. -/
theorem stmt_traced (label : String) {Γ : Scope} (hΓ : Γ.Stored) : ∀ (st : Stmt) next s,
    Quiet s.alloc.labels (stmt label Γ st next s).after.alloc.labels [(next, .nothing)]
      (stmt label Γ st next s).code
  | .assign _ target exp, next, s => (assignment_traced hΓ target exp s).spare _
  | .ifThen _ cond body, next, s => by
      let n := s.alloc.labels
      let c := branch Γ cond (targets ⟨n⟩ next) s.afterLabel
      let out : List (Target × Fact) := [(some ⟨n⟩, .nothing), (next, .nothing)]
      have hc : Quiet (n + 1) c.after.alloc.labels out c.code :=
        (modes_traced hΓ cond).branch (targets ⟨n⟩ next) s.afterLabel .nothing .nothing
      have hb := block_traced label hΓ Frame.stored_nil body c.after
      exact ((hc.define (l := ⟨n⟩) (by simp [out])).append (hb.spare out)).bind
  | .ifElse _ cond thenBody elseBody, next, s => by
      let n := s.alloc.labels
      let c := branch Γ cond (targets ⟨n⟩ (some ⟨n + 1⟩)) s.afterLabel.afterLabel
      let a := block label Γ [] thenBody c.after
      let b := block label Γ [] elseBody a.after
      let out : List (Target × Fact) :=
        [(some ⟨n + 1⟩, .nothing), (some ⟨n⟩, .nothing), (next, .nothing)]
      have hc : Quiet (n + 2) c.after.alloc.labels out c.code :=
        ((modes_traced hΓ cond).branch (targets ⟨n⟩ (some ⟨n + 1⟩)) s.afterLabel.afterLabel .nothing
          .nothing).widen (by simp [out, targets])
      have ha : Quiet _ a.after.alloc.labels out a.code :=
        (block_traced label hΓ Frame.stored_nil thenBody c.after).spare out
      have hb : Quiet _ b.after.alloc.labels out b.code :=
        (block_traced label hΓ Frame.stored_nil elseBody a.after).spare out
      have hyes := (hc.define (l := ⟨n⟩) (by simp [out])).append ha
      have hjump : Quiet _ _ out _ := hyes.jump (t := next) (by simp [out])
      have hall := ((hjump.define (l := ⟨n + 1⟩) (by simp [out])).append hb).bind.bind
      rw [List.append_assoc _ [Instr.jump next]] at hall
      exact hall
  | .whileLoop _ cond body, next, s => by
      let n := s.alloc.labels
      let c := branch Γ cond (targets ⟨n + 1⟩ next) s.afterLabel.afterLabel
      let out : List (Target × Fact) :=
        [(some ⟨n + 1⟩, .nothing), (some ⟨n⟩, .nothing), (next, .nothing)]
      have hc : Quiet (n + 2) c.after.alloc.labels out c.code :=
        ((modes_traced hΓ cond).branch (targets ⟨n + 1⟩ next) s.afterLabel.afterLabel .nothing
          .nothing).widen (by simp [out, targets])
      have hb := (block_traced label hΓ Frame.stored_nil body c.after).spare out
      have htop : Quiet (n + 2) (n + 2) out [.label ⟨n⟩] :=
        (Flows.nil (Nat.le_refl _) (.refl _)).define (by simp [out])
      have hloop := ((htop.append hc).define (l := ⟨n + 1⟩) (by simp [out])).append hb
      exact (hloop.jump (t := some ⟨n⟩) (by simp [out])).bind.bind
  | .forLoop _ init cond step body, next, s => by
      let n := s.alloc.labels
      let i := stmt label Γ init none s.afterLabel.afterLabel
      let c := branch Γ cond (targets ⟨n + 1⟩ next) i.after
      let b := block label Γ [] body c.after
      let out : List (Target × Fact) :=
        [(some ⟨n + 1⟩, .nothing), (some ⟨n⟩, .nothing), (next, .nothing)]
      have hi : Quiet (n + 2) i.after.alloc.labels out i.code :=
        (stmt_traced label hΓ init none s.afterLabel.afterLabel).unhand.spare out
      have hc : Quiet _ c.after.alloc.labels out c.code :=
        ((modes_traced hΓ cond).branch (targets ⟨n + 1⟩ next) i.after .nothing .nothing).widen
          (by simp [out, targets])
      have hb : Quiet _ b.after.alloc.labels out b.code :=
        (block_traced label hΓ Frame.stored_nil body c.after).spare out
      have he := (stmt_traced label hΓ step none b.after).unhand.spare out
      have htop := (hi.define (l := ⟨n⟩) (by simp [out])).append hc
      have hloop := ((htop.define (l := ⟨n + 1⟩) (by simp [out])).append hb).append he
      exact (hloop.jump (t := some ⟨n⟩) (by simp [out])).bind.bind
  | .call _ e, next, s => (effect_traced hΓ e s).spare _
  | .ret _ exp, next, s => (returned_traced label hΓ exp s).spare _
  | .misplaced _, _, _ => .nil (Nat.le_refl _) (.refl _)
  | .missing _ _, _, _ => .nil (Nat.le_refl _) (.refl _)

theorem block_traced (label : String) {Γ : Scope} (hΓ : Γ.Stored) {frame : Frame}
    (hframe : Frame.Stored frame) : ∀ (b : Block) s,
    Quiet s.alloc.labels (block label Γ frame b s).after.alloc.labels []
      (block label Γ frame b s).code
  | .mk _ ds sts, s => by
      have hdeclared : Frame.Stored (placeDecls .local frame ds s).1 :=
        placeDecls_stored Space.noConfusion ds s hframe
      have h := stmts_traced label (hΓ.push hdeclared) sts (placeDecls .local frame ds s).2
      rw [placeDecls_labels] at h
      exact h

theorem stmts_traced (label : String) {Γ : Scope} (hΓ : Γ.Stored) : ∀ (sts : List Stmt) s,
    Quiet s.alloc.labels (stmts label Γ sts s).after.alloc.labels [] (stmts label Γ sts s).code
  | [], s => .nil (Nat.le_refl _) (.refl _)
  | st :: sts, s => by
      let next := s.label
      let first := stmt label Γ st (some next) s.afterLabel
      let out : List (Target × Fact) := [(some next, .nothing)]
      have hfirst : Quiet _ first.after.alloc.labels out first.code :=
        stmt_traced label hΓ st (some next) s.afterLabel
      have hothers := (stmts_traced label hΓ sts first.after).spare out
      have hmark : Quiet (s.alloc.labels + 1) first.after.alloc.labels out
          (first.code ++ if first.code.any fun i => i.uses next then [.label next] else []) := by
        split
        · exact hfirst.define List.mem_cons_self
        · rw [List.append_nil]
          exact hfirst
      exact (hmark.append hothers).bind

end

/-- **The facts on all walks through the body of a function.** -/
theorem block_facts (label : String) {Γ : Scope} (hΓ : Γ.Stored) {frame : Frame}
    (hframe : Frame.Stored frame) (b : Block) (s : State) : ∃ F : Nat → Fact,
    (F (block label Γ frame b s).code.length).waiting = [] ∧
    (∀ pc i, (block label Γ frame b s).code[pc]? = some i → (F pc).Admits i) ∧
    ∀ {met pc}, Walk (block label Γ frame b s).code met pc → (F pc).Holds met := by
  obtain ⟨A, hA⟩ := (block_traced label hΓ hframe b s).annotated
  have hflow := hA A (fun _ _ _ => rfl) fun _ h => absurd h List.not_mem_nil
  obtain ⟨F, hend, hadmits, hholds⟩ := hflow.facts_hold Fact.nothing_holds
  exact ⟨F, hend.waiting.symm, hadmits, hholds⟩

end Lower

end CMinusMinus
