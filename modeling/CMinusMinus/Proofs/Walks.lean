/-
  File:      CMinusMinus/Proofs/Walks.lean
  Subject:   Walks through code, and what is known on all of them.

  From an instruction control goes on to the next one, or to a label that it jumps to. A WALK is
  any way through code from its beginning; it remembers the instructions that it has met. Nothing
  is said of values: a comparison may come out either way.

  What every walk knows that comes to a place is a FACT: which arguments have been handed over and
  wait for their call, and which temporaries have been written. Code is annotated with a fact at
  each place, and each label with the fact that every jump to it must bring. If the annotation is
  right at each single instruction, it is right on all walks.

  * `Edge`, `Walk` -- where control can go;
  * `Instr.reads`, `Instr.dest?`, `handedOver` -- what instructions do to operands and arguments;
  * `Fact`, `Fact.Step` -- facts, and when an annotation is right at an instruction;
  * `Flow.facts_hold` -- then it is right on all walks.
-/
import CMinusMinus.Proofs.TidyCode

namespace CMinusMinus

/-! ## 1. Instructions -/

/-- A temporary as an operand. -/
def Operand.temporary (n : Nat) : Operand := .address ⟨.temporary, n⟩

@[simp] theorem Operand.temporary_inj {m n : Nat} :
    Operand.temporary m = Operand.temporary n ↔ m = n := by
  simp only [Operand.temporary, Operand.address.injEq, Address.mk.injEq, true_and]
  exact Int.ofNat_inj

namespace Instr

/-- The operands that an instruction reads. -/
def reads : Instr → List Operand
  | .move _ source => [source]
  | .arith _ _ left right => [left, right]
  | .load _ base index => [base, index]
  | .store base index source => [base, index, source]
  | .branch _ left right _ => [left, right]
  | .arg value _ | .retValue _ value | .write value => [value]
  | _ => []

/-- The operand that an instruction writes. An element of an array is none. -/
def dest? : Instr → Option Operand
  | .move dest _ | .arith _ dest _ _ | .load dest _ _ => some dest
  | .callValue dest _ _ | .read dest => some dest
  | _ => none

/-- How many arguments an instruction takes, if it is a call. -/
def takes? : Instr → Option Nat
  | .call _ args | .callValue _ _ args => some args
  | _ => none

/-- The instruction returns from the function. -/
def returns : Instr → Bool
  | .ret _ | .retValue _ _ => true
  | _ => false

/-- Control can go on to the next instruction. -/
def falls : Instr → Bool
  | .jump _ | .ret _ | .retValue _ _ | .endFunc _ => false
  | _ => true

/-- The instruction computes a value from two operands into a third one. -/
inductive Computes (dest left right : Operand) : Instr → Prop where
  | arith (op : ArithOp) : Computes dest left right (.arith op dest left right)
  | load : Computes dest left right (.load dest left right)

/-- What an instruction does to the arguments that wait, the last one first. -/
def handOver (waiting : List (Operand × Nat)) : Instr → List (Operand × Nat)
  | .arg value place => (value, place) :: waiting
  | .call _ args | .callValue _ _ args => waiting.drop args
  | _ => waiting

end Instr

/-! ## 2. Walks -/

/-- Where control can go from an instruction at a place. -/
inductive Edge (code : List Instr) (pc : Nat) (i : Instr) : Nat → Prop where
  | next (h : i.falls = true) : Edge code pc i (pc + 1)
  | jump {q : Nat} {l : Label} (h : i.target? = some (some l)) (hq : code[q]? = some (.label l)) :
      Edge code pc i q

/-- **A walk through code from its beginning**: the instructions that it has met, in order, and the
    place that it has come to. -/
inductive Walk (code : List Instr) : List Instr → Nat → Prop where
  | start : Walk code [] 0
  | step {met : List Instr} {pc q : Nat} {i : Instr} (h : Walk code met pc)
      (hi : code[pc]? = some i) (hedge : Edge code pc i q) : Walk code (met ++ [i]) q

/-- The arguments that wait for their call after a walk, the last one first. -/
def handedOver (met : List Instr) : List (Operand × Nat) := met.foldl Instr.handOver []

theorem handedOver_snoc (met : List Instr) (i : Instr) :
    handedOver (met ++ [i]) = i.handOver (handedOver met) := by
  unfold handedOver
  rw [List.foldl_append]
  rfl

/-! ## 3. Facts -/

/-- What is known on every walk that comes to a place. -/
structure Fact where
  /-- The arguments that wait for their call, the last one first. -/
  waiting : List (Operand × Nat)
  /-- Operands whose temporaries have been written; of other operands nothing is said. -/
  written : List Operand

namespace Fact

variable {k q : Fact} {met : List Instr}

/-- Nothing waits, nothing is known. -/
def nothing : Fact := ⟨[], []⟩

/-- One more operand. -/
def learn (k : Fact) (v : Operand) : Fact := { k with written := v :: k.written }

/-- The fact is right about a walk. -/
structure Holds (k : Fact) (met : List Instr) : Prop where
  waiting : handedOver met = k.waiting
  written : ∀ n, .temporary n ∈ k.written → ∃ i ∈ met, i.dest? = some (.temporary n)

/-- The first fact says no more than the second one. -/
structure Weaker (q k : Fact) : Prop where
  waiting : q.waiting = k.waiting
  written : ∀ n, .temporary n ∈ q.written → .temporary n ∈ k.written

theorem Weaker.refl (k : Fact) : k.Weaker k := ⟨rfl, fun _ h => h⟩

theorem Weaker.trans {k₁ k₂ k₃ : Fact} (h₁ : k₁.Weaker k₂) (h₂ : k₂.Weaker k₃) : k₁.Weaker k₃ :=
  ⟨h₁.waiting.trans h₂.waiting, fun n h => h₂.written n (h₁.written n h)⟩

theorem Weaker.learn (k : Fact) (v : Operand) : k.Weaker (k.learn v) :=
  ⟨rfl, fun _ h => List.mem_cons_of_mem _ h⟩

theorem Weaker.both_learn (h : q.Weaker k) (v : Operand) : (q.learn v).Weaker (k.learn v) := by
  refine ⟨h.waiting, fun n hn => ?_⟩
  rcases List.mem_cons.mp hn with heq | hn
  · exact List.mem_cons.mpr (.inl heq)
  · exact List.mem_cons_of_mem _ (h.written n hn)

/-- An operand that is no temporary teaches nothing. -/
theorem learn_weaker {v : Operand} (hv : ∀ n, v ≠ .temporary n) : (k.learn v).Weaker k := by
  refine ⟨rfl, fun n h => ?_⟩
  rcases List.mem_cons.mp h with heq | h
  · exact absurd heq.symm (hv n)
  · exact h

theorem Holds.weaken (h : k.Holds met) (hq : q.Weaker k) : q.Holds met :=
  ⟨h.waiting.trans hq.waiting.symm, fun n hn => h.written n (hq.written n hn)⟩

theorem nothing_holds : nothing.Holds [] := ⟨rfl, fun _ h => absurd h List.not_mem_nil⟩

/-- The fact behind an instruction. -/
def after (k : Fact) (i : Instr) : Fact := ⟨i.handOver k.waiting, i.dest?.toList ++ k.written⟩

theorem Holds.after (h : k.Holds met) (i : Instr) : (k.after i).Holds (met ++ [i]) := by
  refine ⟨?_, fun n hn => ?_⟩
  · rw [handedOver_snoc, h.waiting]
    rfl
  · rcases List.mem_append.mp hn with hdest | hold
    · exact ⟨i, List.mem_append_right _ List.mem_cons_self, Option.mem_toList.mp hdest⟩
    · obtain ⟨j, hj, hwrites⟩ := h.written n hold
      exact ⟨j, List.mem_append_left _ hj, hwrites⟩

/-- **An instruction may stand where the fact holds**: it reads no temporary that may be unwritten,
    a call finds its arguments on top, and a return leaves none behind. -/
structure Admits (k : Fact) (i : Instr) : Prop where
  reads : ∀ n, .temporary n ∈ i.reads → .temporary n ∈ k.written
  takes : ∀ n, i.takes? = some n →
    (k.waiting.take n).map Prod.snd = (List.range n).reverse
  returns : i.returns = true → k.waiting = []

/-- The annotation is right at an instruction, given the facts of the labels. -/
structure Step (L : Label → Fact) (k : Fact) (i : Instr) (q : Fact) : Prop where
  admits : k.Admits i
  label : ∀ l, i.label? = some l → L l = k
  jumps : ∀ l, i.target? = some (some l) → (L l).Weaker (k.after i)
  falls : i.falls = true → q.Weaker (k.after i)

end Fact

/-! ## 4. Annotated code -/

/-- Code that is annotated from a fact at its beginning to one at its end. What is known may be
    forgotten in front of each instruction, and at the end. -/
inductive Flow (L : Label → Fact) : Fact → List Instr → Fact → Prop where
  | nil {k q : Fact} (h : q.Weaker k) : Flow L k [] q
  | cons {k h m q : Fact} {i : Instr} {code : List Instr} (hforget : h.Weaker k)
      (hstep : Fact.Step L h i m) (hrest : Flow L m code q) : Flow L k (i :: code) q

namespace Flow

variable {L : Label → Fact} {k m q : Fact} {code c₁ c₂ : List Instr}

theorem strengthen (h : Flow L k code q) (hm : k.Weaker m) : Flow L m code q := by
  cases h with
  | nil hq => exact .nil (hq.trans hm)
  | cons hforget hstep hrest => exact .cons (hforget.trans hm) hstep hrest

theorem weaken (h : Flow L k code m) (hq : q.Weaker m) : Flow L k code q := by
  induction h with
  | nil hm => exact .nil (hq.trans hm)
  | cons hforget hstep _ ih => exact .cons hforget hstep (ih hq)

theorem append (h₁ : Flow L k c₁ m) (h₂ : Flow L m c₂ q) : Flow L k (c₁ ++ c₂) q := by
  induction h₁ with
  | nil hm => exact h₂.strengthen hm
  | cons hforget hstep _ ih => exact .cons hforget hstep (ih h₂)

/-- The fact at each place of the code. -/
theorem facts (h : Flow L k code q) : ∃ F : Nat → Fact, (F 0).Weaker k ∧
    q.Weaker (F code.length) ∧
    ∀ pc i, code[pc]? = some i → ∃ m, (F (pc + 1)).Weaker m ∧ Fact.Step L (F pc) i m := by
  induction h with
  | @nil k q h => exact ⟨fun _ => k, .refl k, h, fun pc i hi => by simp at hi⟩
  | @cons k h m q i code hforget hstep _ ih =>
    obtain ⟨F, hstart, hend, hsteps⟩ := ih
    refine ⟨fun pc => if pc = 0 then h else F (pc - 1), hforget, hend, fun pc j hj => ?_⟩
    cases pc with
    | zero =>
      cases hj
      exact ⟨m, hstart, hstep⟩
    | succ pc => exact hsteps pc j hj

/-- **An annotation that is right at each instruction is right on all walks.** -/
theorem facts_hold (h : Flow L k code q) (hk : k.Holds []) : ∃ F : Nat → Fact,
    q.Weaker (F code.length) ∧ (∀ pc i, code[pc]? = some i → (F pc).Admits i) ∧
      ∀ {met pc}, Walk code met pc → (F pc).Holds met := by
  obtain ⟨F, hstart, hend, hsteps⟩ := h.facts
  have hadmits : ∀ pc i, code[pc]? = some i → (F pc).Admits i := by
    intro pc i hi
    obtain ⟨m, -, hstep⟩ := hsteps pc i hi
    exact hstep.admits
  refine ⟨F, hend, hadmits, fun {met pc} hwalk => ?_⟩
  induction hwalk with
  | start => exact hk.weaken hstart
  | @step met pc q i _ hi hedge ih =>
    obtain ⟨m, hm, hstep⟩ := hsteps pc i hi
    cases hedge with
    | next hfalls => exact (ih.after i).weaken (hm.trans (hstep.falls hfalls))
    | @jump _ l htarget hq =>
      -- at a label stands the fact that all jumps to it bring
      obtain ⟨_, -, hlabel⟩ := hsteps q _ hq
      rw [← hlabel.label l rfl]
      exact (ih.after i).weaken (hstep.jumps l htarget)

end Flow

end CMinusMinus
