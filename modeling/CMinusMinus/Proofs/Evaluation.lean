/-
  File:      CMinusMinus/Proofs/Evaluation.lean
  Subject:   The code of an expression computes its value.

  A memory AGREES with the cells when it holds at each cell's address what the cell holds. Code of
  expressions writes nothing but temporaries that were not drawn before it, so a memory that agrees
  keeps agreeing, and the operands of an expression stay what they are while the code of the next
  one runs. As a value the code leaves an operand that reads as the value; as a branch it goes to
  the one target or the other, by whether the value is 0.

  * `Agrees`, `Scope.Follows` -- memories and cells, scopes and names;
  * `Lower.Modes.Denotes` -- both modes of an expression have a value;
  * `Lower.modes_denotes` -- they have the value of the expression.
-/
import CMinusMinus.Proofs.Machine

namespace CMinusMinus

open Machine

/-! ## 1. Memories and cells -/

/-- The same location under another name. -/
def Location.map {α β : Type} (f : α → β) : Location α → Location β
  | .scalar a => .scalar (f a)
  | .element a i => .element (f a) i

/-- Where a cell is stored. -/
def Cell.address : Cell → Address
  | .global k => ⟨.global, k⟩
  | .param k => ⟨.param, k⟩
  | .local k => ⟨.local, k⟩

theorem Cell.address_inj {c d : Cell} (h : c.address = d.address) : c = d := by
  have hspace := congrArg Address.space h
  have hslot := congrArg Address.slot h
  cases c <;> cases d <;> first | exact congrArg _ (Int.ofNat.inj hslot) | cases hspace

theorem Cell.address_ne_temporary (c : Cell) (k : Int) : c.address ≠ ⟨.temporary, k⟩ := by
  cases c <;> simp [Cell.address]

theorem Location.map_address_inj {p q : Location Cell}
    (h : p.map Cell.address = q.map Cell.address) : p = q := by
  cases p <;> cases q <;> simp only [Location.map, Location.scalar.injEq, Location.element.injEq,
    reduceCtorEq] at h
  · rw [Cell.address_inj h]
  · rw [Cell.address_inj h.1, h.2]

@[simp] theorem Contents.set_self {α : Type} [DecidableEq α] (m : Contents α) (p : Location α)
    (v : Int) : m.set p v p = some v := if_pos rfl

theorem Contents.set_ne {α : Type} [DecidableEq α] (m : Contents α) {p q : Location α} (v : Int)
    (h : q ≠ p) : m.set p v q = m q := if_neg h

/-- The memory holds at each cell's address what the cell holds. -/
def Agrees (m : Contents Address) (σ : Contents Cell) : Prop :=
  ∀ p : Location Cell, m (p.map Cell.address) = σ p

theorem Agrees.set {m : Contents Address} {σ : Contents Cell} (h : Agrees m σ) (p : Location Cell)
    (v : Int) : Agrees (m.set (p.map Cell.address) v) (σ.set p v) := by
  intro q
  by_cases hq : q = p
  · rw [hq, Contents.set_self, Contents.set_self]
  · rw [Contents.set_ne σ v hq, Contents.set_ne m v (fun heq => hq (Location.map_address_inj heq))]
    exact h q

/-- Two memories differ in temporaries from number `n` on only. -/
def SameBelow (n : Nat) (m m' : Contents Address) : Prop :=
  ∀ p, (∀ k : Nat, n ≤ k → p ≠ .scalar ⟨.temporary, k⟩) → m' p = m p

namespace SameBelow

variable {n k : Nat} {m m₁ m₂ : Contents Address} {σ : Contents Cell}

theorem refl (n : Nat) (m : Contents Address) : SameBelow n m m := fun _ _ => rfl

theorem weaken (h : SameBelow k m m₁) (hle : n ≤ k) : SameBelow n m m₁ :=
  fun p hp => h p fun j hj => hp j (Nat.le_trans hle hj)

theorem trans (h₁ : SameBelow n m m₁) (h₂ : SameBelow k m₁ m₂) (hle : n ≤ k) :
    SameBelow n m m₂ := by
  intro p hp
  rw [h₂.weaken hle p hp, h₁ p hp]

theorem set (h : SameBelow n m m₁) (hle : n ≤ k) (v : Int) :
    SameBelow n m (m₁.set (.scalar ⟨.temporary, k⟩) v) := by
  intro p hp
  rw [Contents.set_ne m₁ v (hp k hle), h p hp]

theorem agrees (h : SameBelow n m m₁) (hm : Agrees m σ) : Agrees m₁ σ := by
  intro p
  rw [h _ fun k _ heq => ?_, hm p]
  cases p with
  | scalar c => exact c.address_ne_temporary k (Location.scalar.inj heq)
  | element c i => cases heq

end SameBelow

/-- The operand reads as the value, whatever temporaries from number `n` on become. -/
def Operand.Keeps (n : Nat) (m : Contents Address) (v : Operand) (a : Int) : Prop :=
  ∀ m', SameBelow n m m' → v.read m' = some a

namespace Operand.Keeps

variable {n k : Nat} {m m₁ : Contents Address} {v : Operand} {a : Int}

theorem read (h : v.Keeps n m a) : v.read m = some a := h m (.refl n m)

theorem later (h : v.Keeps n m a) (hm : SameBelow n m m₁) (hle : n ≤ k) : v.Keeps k m₁ a :=
  fun _ h' => h _ (hm.trans h' hle)

/-- A temporary that was drawn before. -/
theorem temporary (m : Contents Address) (a : Int) (hlt : k < n) :
    (Operand.address ⟨.temporary, k⟩).Keeps n (m.set (.scalar ⟨.temporary, k⟩) a) a := by
  intro m' h
  change m' (.scalar ⟨.temporary, k⟩) = some a
  rw [h, Contents.set_self]
  intro j hj heq
  cases heq
  omega

/-- A cell that holds the value. -/
theorem cell {σ : Contents Cell} {c : Cell} (hm : Agrees m σ) (h : σ (.scalar c) = some a) :
    (Operand.address c.address).Keeps n m a := by
  intro m' hm'
  rw [← h]
  exact hm'.agrees hm (.scalar c)

end Operand.Keeps

/-- **Names mean in the scope what they mean in the environment**, and their variables are stored
    where the cells are. -/
def Scope.Follows (Γ : Scope) (ρ : Env) : Prop :=
  ∀ name b, ρ.lookup name = some b → ∃ v, Γ.var? name = some v ∧ v.home = some b.cell.address

theorem Scope.Follows.scalar? {Γ : Scope} {ρ : Env} (h : Γ.Follows ρ) {name : String} {c : Cell}
    (hc : ρ.scalar? name = some c) : ∃ v, Γ.var? name = some v ∧ v.home = some c.address := by
  obtain ⟨b, hb, hcell⟩ := Option.bind_eq_some_iff.mp hc
  split at hcell
  · cases hcell
  · cases hcell
    exact h name b hb

theorem Scope.Follows.array? {Γ : Scope} {ρ : Env} (h : Γ.Follows ρ) {name : String} {c : Cell}
    (hc : ρ.array? name = some c) : ∃ v, Γ.var? name = some v ∧ v.home = some c.address := by
  obtain ⟨b, hb, hcell⟩ := Option.bind_eq_some_iff.mp hc
  split at hcell
  · cases hcell
    exact h name b hb
  · cases hcell

/-- An element that has a value is one of an array that is named. -/
theorem Expr.eval_index {ρ : Env} {σ : Contents Cell} {pos : Position} {array i : Expr} {a : Int}
    (h : (Expr.index pos array i).eval ρ σ = some a) : ∃ pos' name c j, array = .var pos' name ∧
      ρ.array? name = some c ∧ i.eval ρ σ = some j ∧ σ (.element c j) = some a := by
  cases array with
  | var pos' name =>
    obtain ⟨c, hc, h⟩ := Option.bind_eq_some_iff.mp h
    obtain ⟨j, hj, h⟩ := Option.bind_eq_some_iff.mp h
    exact ⟨pos', name, c, j, rfl, hc, hj, h⟩
  | _ => cases h

namespace Lower

/-- The counters after some code that places variables: temporaries only grow. -/
structure Later (placed : Nat) (s s' : State) : Prop where
  globals : s'.alloc.globals = s.alloc.globals
  locals : s'.alloc.locals = s.alloc.locals + placed
  temporaries : s.alloc.temporaries ≤ s'.alloc.temporaries

theorem passage_later : Passage Later where
  refl _ := ⟨rfl, rfl, Nat.le_refl _⟩
  trans h₁ h₂ :=
    ⟨h₂.globals.trans h₁.globals, by rw [h₂.locals, h₁.locals, Nat.add_assoc],
      Nat.le_trans h₁.temporaries h₂.temporaries⟩
  label _ := ⟨rfl, rfl, Nat.le_refl _⟩
  temporary _ := ⟨rfl, rfl, Nat.le_succ _⟩
  constant _ _ := ⟨rfl, rfl, Nat.le_refl _⟩
  placed _ _ := ⟨rfl, rfl, Nat.le_refl _⟩

/-! ## 2. Values and branches -/

/-- Code that leaves an operand with the value. -/
def Computes (σ : Contents Cell) (value : State → Emitted) (a : Int) : Prop :=
  ∀ ⦃code : List Instr⦄ ⦃pc : Nat⦄ ⦃s : State⦄ ⦃m : Contents Address⦄ (input output : List Int),
    (labelsOf code).Nodup → Placed code pc (value s).code → Agrees m σ →
    ∃ m', Reaches code ⟨pc, m, input, output⟩ ⟨pc + (value s).code.length, m', input, output⟩ ∧
      SameBelow s.alloc.temporaries m m' ∧
      (value s).operand.Keeps (value s).after.alloc.temporaries m' a

/-- Code that goes to its first target if the condition holds, and to its second one if not. -/
def Decides (σ : Contents Cell) (branch : Targets Target → State → Lowered) (b : Bool) : Prop :=
  ∀ ⦃code : List Instr⦄ ⦃pc q : Nat⦄ ⦃t : Targets Target⦄ ⦃l : Label⦄ ⦃s : State⦄
    ⦃m : Contents Address⦄ (input output : List Int), (labelsOf code).Nodup →
    Placed code pc (branch t s).code → (if b then t.onTrue else t.onFalse) = some l →
    code[q]? = some (.label l) → Agrees m σ →
    ∃ m', Reaches code ⟨pc, m, input, output⟩ ⟨q, m', input, output⟩ ∧
      SameBelow s.alloc.temporaries m m'

/-- **Both modes of an expression have the value.** -/
structure Modes.Denotes (σ : Contents Cell) (modes : Modes) (a : Int) : Prop where
  value : Computes σ modes.value a
  branch : Decides σ modes.branch (decide (a ≠ 0))

/-- The operands of two expressions, one after the other. -/
theorem Computes.both {σ : Contents Cell} {left right : State → Emitted} {a b : Int}
    (hl : Computes σ left a) (hr : Computes σ right b) (hlater : ∀ s, Later 0 s (left s).after)
    (hlater' : ∀ s, Later 0 s (right s).after) {code : List Instr} {pc : Nat} {s : State}
    {m : Contents Address} (input output : List Int) (hcode : (labelsOf code).Nodup)
    (hplaced : Placed code pc ((left s).code ++ (right (left s).after).code)) (hm : Agrees m σ) :
    ∃ m', Reaches code ⟨pc, m, input, output⟩
        ⟨pc + ((left s).code ++ (right (left s).after).code).length, m', input, output⟩ ∧
      SameBelow s.alloc.temporaries m m' ∧
      (left s).operand.Keeps (right (left s).after).after.alloc.temporaries m' a ∧
      (right (left s).after).operand.Keeps (right (left s).after).after.alloc.temporaries m' b := by
  obtain ⟨m₁, hreach₁, hsame₁, ha⟩ := hl input output hcode hplaced.left hm
  obtain ⟨m₂, hreach₂, hsame₂, hb⟩ := hr input output hcode hplaced.right (hsame₁.agrees hm)
  refine ⟨m₂, ?_, hsame₁.trans hsame₂ (hlater s).temporaries, ?_, hb⟩
  · rw [List.length_append, ← Nat.add_assoc]
    exact hreach₁.trans hreach₂
  · exact ha.later hsame₂ (hlater' _).temporaries

namespace Modes

variable {σ : Contents Cell} {left right operand : Modes} {a b : Int}

theorem decides_test {value : State → Emitted} (h : Computes σ value a) :
    Decides σ (test value) (decide (a ≠ 0)) := by
  intro code pc q t l s m input output hcode hplaced htarget hq hm
  have hplaced : Placed code pc ((value s).code ++
    [.branch .ne (value s).operand (.literal 0) t.onTrue, .jump t.onFalse]) := hplaced
  obtain ⟨m', hreach, hsame, hkeeps⟩ := h input output hcode hplaced.left hm
  refine ⟨m', hreach.trans ?_, hsame⟩
  have hbranch := hplaced.right.head
  by_cases ha : a = 0
  · rw [ha] at hkeeps
    rw [if_neg (by rw [ha]; decide)] at htarget
    have hjump := hplaced.right.tail.head
    rw [htarget] at hjump
    exact (Reaches.one (step_branch_false hbranch hkeeps.read rfl rfl)).trans
      (.one (step_jump hcode hjump hq))
  · rw [if_pos (decide_eq_true ha)] at htarget
    rw [htarget] at hbranch
    exact .one (step_branch_true hcode hbranch hq hkeeps.read rfl (decide_eq_true ha))

theorem denotes_ofValue {value : State → Emitted} (h : Computes σ value a) :
    (ofValue value).Denotes σ a := ⟨h, decides_test h⟩

theorem truth_ne_zero (b : Bool) : decide (truth b ≠ 0) = b := by cases b <;> rfl

/-- The temporary of a materialised branch is 1 or 0. -/
theorem computes_materialise {branch : Targets Target → State → Lowered} {b : Bool}
    (h : Decides σ branch b) (hlater : ∀ t s, Later 0 s (branch t s).after) :
    Computes σ (materialise branch) (truth b) := by
  intro code pc s m input output hcode hplaced hm
  let n := s.alloc.labels
  let k := s.alloc.temporaries
  let s₃ := s.afterTemporary.afterLabel.afterLabel.afterLabel
  let t : Targets Target := ⟨some ⟨n⟩, some ⟨n + 1⟩, none⟩
  let dest : Address := ⟨.temporary, k⟩
  have hplaced : Placed code pc
      ((branch t s₃).code ++ ends (.address dest) ⟨n⟩ ⟨n + 1⟩ ⟨n + 2⟩) := hplaced
  let q := pc + (branch t s₃).code.length
  have hbehind : Placed code q _ := hplaced.right
  have hdone : code[q + 5]? = some (.label ⟨n + 2⟩) := hbehind.tail.tail.tail.tail.tail.head
  -- both ends of the branch meet behind the last label
  suffices hend : ∃ m', Reaches code ⟨pc, m, input, output⟩
      ⟨q + 5, m'.set (.scalar dest) (truth b), input, output⟩ ∧ SameBelow k m m' by
    obtain ⟨m', hreach, hsame⟩ := hend
    have hlen : pc + (materialise branch s).code.length = q + 5 + 1 := by
      change pc + ((branch t s₃).code ++ _).length = _
      rw [List.length_append, ← Nat.add_assoc]
      rfl
    have hlt : k < (branch t s₃).after.alloc.temporaries := (hlater t s₃).temporaries
    rw [hlen]
    exact ⟨_, hreach.trans (.one (step_label hdone)), hsame.set (Nat.le_refl k) _,
      .temporary m' _ hlt⟩
  cases b with
  | true =>
    obtain ⟨m', hreach, hsame⟩ := h input output hcode hplaced.left rfl hbehind.head hm
    have hmove : Reaches code ⟨q, m', input, output⟩
        ⟨q + 1 + 1, m'.set (.scalar dest) 1, input, output⟩ :=
      .step (step_label hbehind.head) (.one (step_move hbehind.tail.head rfl))
    have hjump := hmove.trans (.one (step_jump hcode hbehind.tail.tail.head hdone))
    exact ⟨m', hreach.trans hjump, hsame.weaken (Nat.le_succ k)⟩
  | false =>
    have hno : code[q + 3]? = some (.label ⟨n + 1⟩) := hbehind.tail.tail.tail.head
    obtain ⟨m', hreach, hsame⟩ := h input output hcode hplaced.left rfl hno hm
    have hmove : Reaches code ⟨q + 3, m', input, output⟩
        ⟨q + 5, m'.set (.scalar dest) 0, input, output⟩ :=
      .step (step_label hno) (.one (step_move hbehind.tail.tail.tail.tail.head rfl))
    exact ⟨m', hreach.trans hmove, hsame.weaken (Nat.le_succ k)⟩

theorem denotes_ofBranch {branch : Targets Target → State → Lowered} {b : Bool}
    (h : Decides σ branch b) (hlater : ∀ t s, Later 0 s (branch t s).after) :
    (ofBranch branch).Denotes σ (truth b) := by
  refine ⟨computes_materialise h hlater, ?_⟩
  rw [truth_ne_zero]
  exact h

theorem denotes_ofOperand {v : Operand} (h : ∀ m n, Agrees m σ → v.Keeps n m a) :
    (ofOperand v).Denotes σ a :=
  denotes_ofValue fun _ _ _ _ _ _ _ _ hm => ⟨_, .refl _, .refl _ _, h _ _ hm⟩

/-! ## 3. The operators -/

/-- Code that ends with an instruction that fills a new temporary. -/
theorem fills {code : List Instr} {pc pc' n k : Nat} {m m' : Contents Address}
    {input output : List Int}
    (hreach : Reaches code ⟨pc, m, input, output⟩ ⟨pc', m', input, output⟩)
    (hsame : SameBelow n m m') (hle : n ≤ k)
    (hstep : step code ⟨pc', m', input, output⟩ =
      some ⟨pc' + 1, m'.set (.scalar ⟨.temporary, k⟩) a, input, output⟩) :
    ∃ m'', Reaches code ⟨pc, m, input, output⟩ ⟨pc' + 1, m'', input, output⟩ ∧ SameBelow n m m'' ∧
      (Operand.address ⟨.temporary, k⟩).Keeps (k + 1) m'' a :=
  ⟨_, hreach.trans (.one hstep), hsame.set hle _, .temporary m' a (Nat.lt_succ_self k)⟩

theorem denotes_arith {op : ArithOp} {c : Int} (hl : left.Denotes σ a) (hr : right.Denotes σ b)
    (hl' : left.Along Later) (hr' : right.Along Later) (hc : op.apply a b = some c) :
    (compute left right (.arith op)).Denotes σ c := by
  refine denotes_ofValue fun code pc s m input output hcode hplaced hm => ?_
  let l := left.value s
  let r := right.value l.after
  have hplaced : Placed code pc (l.code ++ r.code ++
    [.arith op r.after.temporary l.operand r.operand]) := hplaced
  obtain ⟨m', hreach, hsame, hu, hv⟩ :=
    hl.value.both hr.value hl'.value hr'.value input output hcode hplaced.left hm
  have hle := (passage_later.trans (hl'.value s) (hr'.value l.after)).temporaries
  change ∃ m', Reaches code _ ⟨pc + (l.code ++ r.code ++ _).length, m', input, output⟩ ∧ _
  rw [List.length_append, ← Nat.add_assoc]
  exact fills hreach hsame hle (step_arith hplaced.right.head hu.read hv.read hc)

theorem denotes_negative (h : operand.Denotes σ a) (h' : operand.Along Later) :
    (negative operand).Denotes σ (-a) := by
  refine denotes_ofValue fun code pc s m input output hcode hplaced hm => ?_
  let v := operand.value s
  have hplaced : Placed code pc (v.code ++
    [.arith .sub v.after.temporary (.literal 0) v.operand]) := hplaced
  obtain ⟨m', hreach, hsame, hv⟩ := h.value input output hcode hplaced.left hm
  have hsub : ArithOp.sub.apply 0 a = some (-a) := congrArg some (Int.zero_sub a)
  change ∃ m', Reaches code _ ⟨pc + (v.code ++ _).length, m', input, output⟩ ∧ _
  rw [List.length_append, ← Nat.add_assoc]
  exact fills hreach hsame (h'.value s).temporaries
    (step_arith hplaced.right.head rfl hv.read hsub)

/-- An element of an array whose name stands for a cell. -/
theorem denotes_load {c : Cell} (h : operand.Denotes σ a) (h' : operand.Along Later)
    (hb : σ (.element c a) = some b) :
    (compute (ofOperand (.address c.address)) operand .load).Denotes σ b := by
  refine denotes_ofValue fun code pc s m input output hcode hplaced hm => ?_
  let v := operand.value s
  have hplaced : Placed code pc (v.code ++
    [.load v.after.temporary (.address c.address) v.operand]) := hplaced
  obtain ⟨m', hreach, hsame, hv⟩ := h.value input output hcode hplaced.left hm
  have helement : m' (.element c.address a) = some b := by
    rw [← hb]
    exact hsame.agrees hm (.element c a)
  change ∃ m', Reaches code _ ⟨pc + (v.code ++ _).length, m', input, output⟩ ∧ _
  rw [List.length_append, ← Nat.add_assoc]
  exact fills hreach hsame (h'.value s).temporaries
    (step_load hplaced.right.head hv.read helement)

/-- The jump that makes a comparison, with its operands in the order it takes them, compares as the
    operator does. -/
theorem comparison_holds (op : RelOp) (a b : Int) :
    (if (comparison op).2 then (comparison op).1.holds b a else (comparison op).1.holds a b) =
      op.holds a b := by
  cases op <;> rfl

theorem denotes_compare (op : RelOp) (hl : left.Denotes σ a) (hr : right.Denotes σ b)
    (hl' : left.Along Later) (hr' : right.Along Later) :
    (compare op left right).Denotes σ (truth (op.holds a b)) := by
  refine denotes_ofBranch ?_ fun _ s => passage_later.trans (hl'.value s) (hr'.value _)
  intro code pc q t l s m input output hcode hplaced htarget hq hm
  let x := left.value s
  let y := right.value x.after
  -- the operands of the jump, in reverse or not
  obtain ⟨u, v, i, j, hjump, hholds, hoperands⟩ : ∃ u v i j,
      (if (comparison op).2 then Instr.branch (comparison op).1 y.operand x.operand t.onTrue
        else .branch (comparison op).1 x.operand y.operand t.onTrue) =
          .branch (comparison op).1 u v t.onTrue ∧
      (comparison op).1.holds i j = op.holds a b ∧
      ∀ m', x.operand.read m' = some a → y.operand.read m' = some b →
        u.read m' = some i ∧ v.read m' = some j := by
    have hholds := comparison_holds op a b
    by_cases hreversed : (comparison op).2 = true
    · rw [if_pos hreversed] at hholds ⊢
      exact ⟨_, _, b, a, rfl, hholds, fun _ hx hy => ⟨hy, hx⟩⟩
    · rw [if_neg hreversed] at hholds ⊢
      exact ⟨_, _, a, b, rfl, hholds, fun _ hx hy => ⟨hx, hy⟩⟩
  have hplaced : Placed code pc (x.code ++ y.code ++
      [.branch (comparison op).1 u v t.onTrue, .jump t.onFalse]) := by
    rw [← hjump]
    exact hplaced
  obtain ⟨m', hreach, hsame, hx, hy⟩ :=
    hl.value.both hr.value hl'.value hr'.value input output hcode hplaced.left hm
  obtain ⟨hu, hv⟩ := hoperands m' hx.read hy.read
  refine ⟨m', hreach.trans ?_, hsame⟩
  have hbranch := hplaced.right.head
  cases hop : op.holds a b with
  | true =>
    rw [hop] at htarget hholds
    rw [show t.onTrue = some l from htarget] at hbranch
    exact .one (step_branch_true hcode hbranch hq hu hv hholds)
  | false =>
    rw [hop] at htarget hholds
    have hjump' := hplaced.right.tail.head
    rw [show t.onFalse = some l from htarget] at hjump'
    exact (Reaches.one (step_branch_false hbranch hu hv hholds)).trans
      (.one (step_jump hcode hjump' hq))

/-- The right side of `&&` or `||` is reached through the label between the two sides. -/
theorem reaches_right {first second : Targets Target → State → Lowered} (t₁ t₂ : Targets Target)
    {x y : Bool} {code : List Instr} {pc q : Nat} {l mid : Label} {s : State} {m : Contents Address}
    {input output : List Int} (hfirst : Decides σ first x) (hsecond : Decides σ second y)
    (hlater : ∀ t s, Later 0 s (first t s).after) (hcode : (labelsOf code).Nodup)
    (hplaced : Placed code pc ((first t₁ s).code ++ [.label mid] ++
      (second t₂ (first t₁ s).after).code))
    (hmid : (if x then t₁.onTrue else t₁.onFalse) = some mid)
    (htarget : (if y then t₂.onTrue else t₂.onFalse) = some l)
    (hq : code[q]? = some (.label l)) (hm : Agrees m σ) :
    ∃ m', Reaches code ⟨pc, m, input, output⟩ ⟨q, m', input, output⟩ ∧
      SameBelow s.alloc.temporaries m m' := by
  have hlabel := hplaced.left.right.head
  obtain ⟨m₁, hreach₁, hsame₁⟩ :=
    hfirst input output hcode hplaced.left.left hmid hlabel hm
  have hright := hplaced.right
  rw [List.length_append, ← Nat.add_assoc] at hright
  obtain ⟨m₂, hreach₂, hsame₂⟩ :=
    hsecond input output hcode hright htarget hq (hsame₁.agrees hm)
  exact ⟨m₂, hreach₁.trans (.step (step_label hlabel) hreach₂),
    hsame₁.trans hsame₂ (hlater t₁ s).temporaries⟩

theorem denotes_conjunction_true (ha : a ≠ 0) (hl : left.Denotes σ a) (hr : right.Denotes σ b)
    (hl' : left.Along Later) (hr' : right.Along Later) :
    (conjunction left right).Denotes σ (truth (decide (b ≠ 0))) := by
  refine denotes_ofBranch ?_ (along_conjunction passage_later hl' hr').branch
  intro code pc q t l s m input output hcode hplaced htarget hq hm
  have hmid : (if decide (a ≠ 0) = true then some s.label else t.onFalse) = some s.label :=
    if_pos (decide_eq_true ha)
  have hs : s.afterLabel.alloc.temporaries = s.alloc.temporaries := rfl
  rw [← hs]
  exact reaches_right ⟨some s.label, t.onFalse, none⟩ ⟨t.onTrue, t.onFalse, none⟩
    hl.branch hr.branch hl'.branch hcode hplaced hmid htarget hq hm

theorem denotes_conjunction_false (hl : left.Denotes σ 0) (hl' : left.Along Later)
    (hr' : right.Along Later) : (conjunction left right).Denotes σ 0 := by
  refine denotes_ofBranch (b := false) ?_ (along_conjunction passage_later hl' hr').branch
  intro code pc q t l s m input output hcode hplaced htarget hq hm
  have hplaced : Placed code pc ((left.branch ⟨some s.label, t.onFalse, none⟩ s.afterLabel).code ++
    [.label s.label] ++ _) := hplaced
  exact hl.branch (s := s.afterLabel) input output hcode hplaced.left.left htarget hq hm

theorem denotes_disjunction_false (hl : left.Denotes σ 0) (hr : right.Denotes σ b)
    (hl' : left.Along Later) (hr' : right.Along Later) :
    (disjunction left right).Denotes σ (truth (decide (b ≠ 0))) := by
  refine denotes_ofBranch ?_ (along_disjunction passage_later hl' hr').branch
  intro code pc q t l s m input output hcode hplaced htarget hq hm
  have hs : s.afterLabel.alloc.temporaries = s.alloc.temporaries := rfl
  rw [← hs]
  exact reaches_right ⟨t.onTrue, some s.label, none⟩ ⟨t.onTrue, t.onFalse, none⟩
    hl.branch hr.branch hl'.branch hcode hplaced rfl htarget hq hm

theorem denotes_disjunction_true (ha : a ≠ 0) (hl : left.Denotes σ a) (hl' : left.Along Later)
    (hr' : right.Along Later) : (disjunction left right).Denotes σ 1 := by
  refine denotes_ofBranch (b := true) ?_ (along_disjunction passage_later hl' hr').branch
  intro code pc q t l s m input output hcode hplaced htarget hq hm
  have hplaced : Placed code pc ((left.branch ⟨t.onTrue, some s.label, none⟩ s.afterLabel).code ++
    [.label s.label] ++ _) := hplaced
  refine hl.branch (s := s.afterLabel) input output hcode hplaced.left.left ?_ hq hm
  rw [if_pos (decide_eq_true ha)]
  exact htarget

theorem denotes_negation (h : operand.Denotes σ a) (h' : operand.Along Later) :
    (negation operand).Denotes σ (truth (decide (a = 0))) := by
  refine denotes_ofBranch ?_ fun _ _ => h'.branch _ _
  intro code pc q t l s m input output hcode hplaced htarget hq hm
  refine h.branch input output hcode hplaced ?_ hq hm
  by_cases ha : a = 0
  · rw [ha] at htarget ⊢
    exact htarget
  · rw [if_pos (decide_eq_true ha)]
    rw [if_neg (by simpa using ha)] at htarget
    exact htarget

end Modes

/-! ## 4. Expressions -/

section Expressions

variable {Γ : Scope} {ρ : Env} {σ : Contents Cell} (hΓ : Γ.Proper) (hρ : Γ.Follows ρ)

include hΓ

/-- A variable with an address needs no code. -/
theorem modes_var (pos : Position) {name : String} {v : Variable} {a : Address}
    (hv : Γ.var? name = some v) (ha : v.home = some a) :
    modes Γ (.var pos name) = .ofOperand (.address a) := by
  rw [modes, Modes.ofVar, hΓ.soundVar?, hv]
  dsimp only
  rw [ha]

include hρ

/-- **The code of an expression with a type and a value has the value, in both modes.** -/
theorem modes_denotes : ∀ {e : Expr} {τ : Ty}, HasType Γ e τ → ∀ {a : Int}, e.eval ρ σ = some a →
    (modes Γ e).Denotes σ a
  | _, _, .int, _, ha => by
      cases ha
      exact Modes.denotes_ofOperand fun _ _ _ _ _ => rfl
  | _, _, .str, _, ha => by cases ha
  | .var pos name, _, .var _, _, ha => by
      obtain ⟨c, hc, ha⟩ := Option.bind_eq_some_iff.mp ha
      obtain ⟨v, hv, hhome⟩ := hρ.scalar? hc
      rw [modes_var hΓ pos hv hhome]
      exact Modes.denotes_ofOperand fun _ _ hm => .cell hm ha
  | _, _, .index _ hi _, _, ha => by
      obtain ⟨pos, name, c, j, rfl, hc, hj, ha⟩ := Expr.eval_index ha
      obtain ⟨v, hv, hhome⟩ := hρ.array? hc
      rw [modes, modes_var hΓ pos hv hhome]
      exact Modes.denotes_load (modes_denotes hi hj) (modes_along passage_later hΓ hi) ha
  | _, _, .system _ _ _, _, ha => by cases ha
  | _, _, .call _ _ _, _, ha => by cases ha
  | _, _, .neg he _, _, ha => by
      obtain ⟨b, hb, ha⟩ := Option.map_eq_some_iff.mp ha
      rw [← ha]
      exact Modes.denotes_negative (modes_denotes he hb) (modes_along passage_later hΓ he)
  | _, _, .not he _, _, ha => by
      obtain ⟨b, hb, ha⟩ := Option.map_eq_some_iff.mp ha
      rw [← ha]
      exact Modes.denotes_negation (modes_denotes he hb) (modes_along passage_later hΓ he)
  | _, _, .address _ _, _, ha => by cases ha
  | _, _, .deref _ _, _, ha => by cases ha
  | _, _, .arith hl hr _ _, _, ha => by
      obtain ⟨b, hb, ha⟩ := Option.bind_eq_some_iff.mp ha
      obtain ⟨c, hc, ha⟩ := Option.bind_eq_some_iff.mp ha
      exact Modes.denotes_arith (modes_denotes hl hb) (modes_denotes hr hc)
        (modes_along passage_later hΓ hl) (modes_along passage_later hΓ hr) ha
  | _, _, .rel hl hr _ _, _, ha => by
      obtain ⟨b, hb, ha⟩ := Option.bind_eq_some_iff.mp ha
      obtain ⟨c, hc, ha⟩ := Option.map_eq_some_iff.mp ha
      rw [← ha]
      exact Modes.denotes_compare _ (modes_denotes hl hb) (modes_denotes hr hc)
        (modes_along passage_later hΓ hl) (modes_along passage_later hΓ hr)
  | _, _, .and hl hr _ _, _, ha => by
      have hl' := modes_along passage_later hΓ hl
      have hr' := modes_along passage_later hΓ hr
      obtain ⟨b, hb, ha⟩ := Option.bind_eq_some_iff.mp ha
      by_cases hzero : b = 0
      · rw [if_pos hzero] at ha
        cases ha
        rw [hzero] at hb
        exact Modes.denotes_conjunction_false (modes_denotes hl hb) hl' hr'
      · rw [if_neg hzero] at ha
        obtain ⟨c, hc, ha⟩ := Option.map_eq_some_iff.mp ha
        rw [← ha]
        exact Modes.denotes_conjunction_true hzero (modes_denotes hl hb) (modes_denotes hr hc) hl'
          hr'
  | _, _, .or hl hr _ _, _, ha => by
      have hl' := modes_along passage_later hΓ hl
      have hr' := modes_along passage_later hΓ hr
      obtain ⟨b, hb, ha⟩ := Option.bind_eq_some_iff.mp ha
      by_cases hzero : b = 0
      · rw [if_neg (Decidable.not_not.mpr hzero)] at ha
        rw [hzero] at hb
        obtain ⟨c, hc, ha⟩ := Option.map_eq_some_iff.mp ha
        rw [← ha]
        exact Modes.denotes_disjunction_false (modes_denotes hl hb) (modes_denotes hr hc) hl' hr'
      · rw [if_pos hzero] at ha
        cases ha
        exact Modes.denotes_disjunction_true hzero (modes_denotes hl hb) hl' hr'

end Expressions

end Lower

end CMinusMinus
