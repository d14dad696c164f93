/-
  File:      CMinusMinus/Proofs/Temporaries.lean
  Subject:   Temporaries: written before they are read, and filled once.

  A temporary is drawn for the result of an operator, an element or a call, and filled by the one
  instruction that computes it; the temporary of a condition is drawn before the code of the
  condition and filled at both its ends. Until it is used any code may stand in between, with loops
  and jumps; even so it has been written on every walk that comes to its use, and nothing else
  fills it. A `read` into a computed value is the exception: it writes a temporary that was filled
  before.

  * `writersOf`, `Filled` -- the instructions that fill a temporary, and the two ways to do it;
  * `Fills`, `Fills.append` -- pieces of code that fill the temporaries drawn meanwhile;
  * `Lower.modes_fills`, `Lower.block_fills` -- the code of proper trees does;
  * `temporaries_written_before_read` -- temporaries in accepted programs.
-/
import CMinusMinus.Proofs.FunctionSites

namespace CMinusMinus

/-! ## 1. Writers -/

/-- The instruction reads a value from outside. -/
def Instr.isRead : Instr → Bool
  | .read _ => true
  | _ => false

/-- The operands of an instruction, written and read. -/
def Instr.operands (i : Instr) : List Operand := i.dest?.toList ++ i.reads

theorem Instr.forall_operands {i : Instr} {P : Operand → Prop} : (∀ v ∈ i.operands, P v) ↔
    (∀ v, i.dest? = some v → P v) ∧ ∀ v ∈ i.reads, P v := by
  simp [Instr.operands, or_imp, forall_and]

/-- The instruction fills the temporary: it writes it, and not from outside. -/
def Instr.fills (i : Instr) (n : Nat) : Bool := i.dest? = some (.temporary n) && !i.isRead

/-- **The instructions that fill a temporary**, in order. -/
def writersOf (n : Nat) (code : List Instr) : List Instr := code.filter (·.fills n)

@[simp] theorem writersOf_append (n : Nat) (c₁ c₂ : List Instr) :
    writersOf n (c₁ ++ c₂) = writersOf n c₁ ++ writersOf n c₂ := List.filter_append c₁ c₂

/-- **How a temporary is filled**: by the one instruction that computes it, or at the two ends of a
    condition. -/
inductive Filled (n : Nat) : List Instr → Prop where
  | computed {i : Instr} {left right : Operand} (h : i.Computes (.temporary n) left right) :
      Filled n [i]
  | called {label : String} {args : Nat} : Filled n [.callValue (.temporary n) label args]
  | decided : Filled n [.move (.temporary n) (.literal 1), .move (.temporary n) (.literal 0)]

mutual

/-- The expression contains a call that the system answers. -/
def Expr.callsSystem : Expr → Bool
  | .index _ array i => array.callsSystem || i.callsSystem
  | .call _ name args => isSystemCall name || Expr.anyCallsSystem args
  | .unary _ _ e => e.callsSystem
  | .binary _ _ l r => l.callsSystem || r.callsSystem
  | .int _ _ | .str _ _ | .var _ _ | .nameless _ _ | .misplaced _ => false

/-- One of the expressions contains a call that the system answers. -/
def Expr.anyCallsSystem : List Expr → Bool
  | [] => false
  | e :: es => e.callsSystem || Expr.anyCallsSystem es

end

/-! ## 2. Pieces of code -/

/-- The operand is no temporary from the number on. -/
def Operand.Below (v : Operand) (n : Nat) : Prop := ∀ m, v = .temporary m → m < n

theorem Operand.Below.mono {v : Operand} {m n : Nat} (h : v.Below m) (hle : m ≤ n) : v.Below n :=
  fun k hk => Nat.lt_of_lt_of_le (h k hk) hle

theorem Operand.below_literal (x : Int) (n : Nat) : (Operand.literal x).Below n :=
  fun m hm => absurd hm (Operand.literal_ne_temporary x m)

theorem Operand.below_absent (n : Nat) : Operand.absent.Below n :=
  fun m hm => absurd hm (Operand.absent_ne_temporary m)

theorem Operand.below_temporary (n : Nat) : (Operand.temporary n).Below (n + 1) := by
  intro m hm
  rw [Operand.temporary_inj.mp hm]
  exact Nat.lt_succ_self m

section Ends

open Lower

variable {n : Nat} {yes no done : Label}

theorem writersOf_ends (m : Nat) : writersOf m (ends (.temporary n) yes no done) =
    if n = m then [.move (.temporary n) (.literal 1), .move (.temporary n) (.literal 0)]
    else [] := by
  by_cases hm : n = m
  · simp [ends, writersOf, Instr.fills, Instr.dest?, Instr.isRead, hm]
  · simp [ends, writersOf, Instr.fills, Instr.dest?, hm]

theorem ends_dest :
    ∀ i ∈ ends (.temporary n) yes no done, ∀ v, i.dest? = some v → v = .temporary n := by
  simp [ends, Instr.dest?, eq_comm]

theorem ends_below :
    ∀ i ∈ ends (.temporary n) yes no done, ∀ v ∈ i.operands, v.Below (n + 1) := by
  simp [ends, Instr.forall_operands, Instr.dest?, Instr.reads, Operand.below_temporary,
    Operand.below_literal]

end Ends

/-- The instruction fills no temporary at all. -/
def Instr.Harmless (i : Instr) : Prop := ∀ n, i.fills n = false

/-- **Code that fills the temporaries from `lo` to `hi`**, each as it should be, and writes nothing
    else, apart from instructions that are `free` to write. -/
structure Fills (free : Instr → Prop) (lo hi : Nat) (code : List Instr) : Prop where
  le : lo ≤ hi
  filled : ∀ n, lo ≤ n → n < hi → Filled n (writersOf n code)
  own : ∀ i ∈ code, ∀ v, i.dest? = some v → (∃ n, v = .temporary n ∧ lo ≤ n ∧ n < hi) ∨ free i
  below : ∀ i ∈ code, ∀ v ∈ i.operands, v.Below hi

namespace Fills

variable {free : Instr → Prop} {lo mid hi n : Nat} {code c₁ c₂ : List Instr} {i : Instr}

theorem nil : Fills free n n [] where
  le := Nat.le_refl n
  filled _ hlo hhi := absurd (Nat.lt_of_le_of_lt hlo hhi) (Nat.lt_irrefl n)
  own _ hi := absurd hi List.not_mem_nil
  below _ hi := absurd hi List.not_mem_nil

section Harmless

variable (hfree : ∀ i, free i → i.Harmless)

include hfree

/-- A temporary drawn before or after is not filled. -/
theorem outside (h : Fills free lo hi code) (hn : n < lo ∨ hi ≤ n) : writersOf n code = [] := by
  rw [writersOf, List.filter_eq_nil_iff]
  intro i hi hfills
  unfold Instr.fills at hfills
  rw [Bool.and_eq_true, decide_eq_true_eq] at hfills
  rcases h.own i hi _ hfills.1 with ⟨m, hm, hlo, hhi⟩ | hfree'
  · have hmn : n = m := Operand.temporary_inj.mp hm
    omega
  · have hfills' := hfree i hfree' n
    unfold Instr.fills at hfills'
    rw [hfills.1, hfills.2] at hfills'
    simp at hfills'

/-- **Pieces one after the other.** -/
theorem append (h₁ : Fills free lo mid c₁) (h₂ : Fills free mid hi c₂) :
    Fills free lo hi (c₁ ++ c₂) := by
  have hle₁ := h₁.le
  have hle₂ := h₂.le
  refine ⟨Nat.le_trans hle₁ hle₂, fun n hlo hhi => ?_, fun i hi v hv => ?_, fun i hi v hv => ?_⟩
  · rw [writersOf_append]
    by_cases hn : n < mid
    · rw [h₂.outside hfree (.inl hn), List.append_nil]
      exact h₁.filled n hlo hn
    · rw [h₁.outside hfree (.inr (Nat.not_lt.mp hn)), List.nil_append]
      exact h₂.filled n (Nat.not_lt.mp hn) hhi
  · rcases List.mem_append.mp hi with hi | hi
    · rcases h₁.own i hi v hv with ⟨n, hn, hlo, hhi⟩ | hf
      · exact .inl ⟨n, hn, hlo, by omega⟩
      · exact .inr hf
    · rcases h₂.own i hi v hv with ⟨n, hn, hlo, hhi⟩ | hf
      · exact .inl ⟨n, hn, by omega, hhi⟩
      · exact .inr hf
  · rcases List.mem_append.mp hi with hi | hi
    · exact (h₁.below i hi v hv).mono hle₂
    · exact h₂.below i hi v hv

/-- More instructions that write nothing, or are free to write. -/
theorem extend {c : List Instr} (h : Fills free lo hi code)
    (hdest : ∀ i ∈ c, ∀ v, i.dest? = some v → free i)
    (hbelow : ∀ i ∈ c, ∀ v ∈ i.operands, v.Below hi) : Fills free lo hi (code ++ c) := by
  have hmore : Fills free hi hi c :=
    ⟨Nat.le_refl hi, fun n hlo hhi => absurd hhi (Nat.not_lt.mpr hlo),
      fun i hi v hv => .inr (hdest i hi v hv), hbelow⟩
  exact h.append hfree hmore

/-- **The next temporary is drawn and filled.** -/
theorem fill (h : Fills free lo hi code) (hfilled : Filled hi [i])
    (hdest : i.dest? = some (.temporary hi)) (hreads : ∀ v ∈ i.reads, v.Below hi) :
    Fills free lo (hi + 1) (code ++ [i]) := by
  have hwriters : writersOf hi [i] = [i] := by
    have hread : i.isRead = false := by
      cases hfilled with
      | computed hc => cases hc <;> rfl
      | called => rfl
    simp [writersOf, Instr.fills, hdest, hread]
  have hone : Fills free hi (hi + 1) [i] := by
    refine ⟨Nat.le_succ hi, fun n hlo hhi => ?_, fun j hj v hv => ?_, fun j hj v hv => ?_⟩
    · have hn : n = hi := by omega
      rw [hn, hwriters]
      exact hfilled
    · rw [List.mem_singleton.mp hj, hdest] at hv
      exact .inl ⟨hi, (Option.some.inj hv).symm, Nat.le_refl hi, Nat.lt_succ_self hi⟩
    · rw [List.mem_singleton.mp hj, Instr.operands, hdest] at hv
      rcases List.mem_cons.mp hv with hv | hv
      · rw [hv]
        exact Operand.below_temporary hi
      · exact (hreads v hv).mono (Nat.le_succ hi)
  exact h.append hfree hone

/-- **A temporary is drawn before some code and filled behind it, at two ends.** -/
theorem decide (yes no done : Label) (h : Fills free (n + 1) hi code) :
    Fills free n hi (code ++ Lower.ends (.temporary n) yes no done) := by
  have hle := h.le
  refine ⟨by omega, fun m hlo hhi => ?_, fun i hmem v hv => ?_, fun i hmem v hv => ?_⟩
  · rw [writersOf_append, writersOf_ends]
    by_cases hm : n = m
    · rw [if_pos hm, ← hm, h.outside hfree (.inl (Nat.lt_succ_self n))]
      exact .decided
    · rw [if_neg hm, List.append_nil]
      exact h.filled m (by omega) hhi
  · rcases List.mem_append.mp hmem with hmem | hmem
    · rcases h.own i hmem v hv with ⟨m, hm, hlo, hhi⟩ | hf
      · exact .inl ⟨m, hm, by omega, hhi⟩
      · exact .inr hf
    · exact .inl ⟨n, ends_dest i hmem v hv, Nat.le_refl n, hle⟩
  · rcases List.mem_append.mp hmem with hmem | hmem
    · exact h.below i hmem v hv
    · exact (ends_below i hmem v hv).mono hle

end Harmless

end Fills

/-- The code of statements fills the temporaries drawn meanwhile; otherwise it writes variables and
    what is read from outside. -/
abbrev FillsOwn (lo hi : Nat) (code : List Instr) : Prop := Fills Instr.Harmless lo hi code

theorem harmless_id (i : Instr) (h : i.Harmless) : i.Harmless := h

namespace Fills

variable {lo mid hi : Nat} {code c c₁ c₂ : List Instr}

theorem chain (h₁ : FillsOwn lo mid c₁) (h₂ : FillsOwn mid hi c₂) : FillsOwn lo hi (c₁ ++ c₂) :=
  h₁.append harmless_id h₂

/-- Instructions that write nothing and read nothing. -/
theorem idle (h : FillsOwn lo hi code) (hc : ∀ i ∈ c, i.dest? = none ∧ i.reads = []) :
    FillsOwn lo hi (code ++ c) := by
  refine h.extend harmless_id (fun i hi v hv => ?_) fun i hi => ?_
  · rw [(hc i hi).1] at hv
    cases hv
  · rw [Instr.forall_operands, (hc i hi).1, (hc i hi).2]
    simp

theorem label (h : FillsOwn lo hi code) (l : Label) : FillsOwn lo hi (code ++ [.label l]) :=
  h.idle (by simp [Instr.dest?, Instr.reads])

theorem jump (h : FillsOwn lo hi code) (t : Target) : FillsOwn lo hi (code ++ [.jump t]) :=
  h.idle (by simp [Instr.dest?, Instr.reads])

end Fills

/-! ## 3. Expressions -/

theorem Instr.Computes.dest?_eq {d l r : Operand} {i : Instr} (h : i.Computes d l r) :
    i.dest? = some d := by
  cases h <;> rfl

theorem Instr.Computes.reads_eq {d l r : Operand} {i : Instr} (h : i.Computes d l r) :
    i.reads = [l, r] := by
  cases h <;> rfl

namespace Lower

namespace Modes

/-- **The code of an expression fills the temporaries that it draws**, in both modes. -/
structure Filling (free : Instr → Prop) (m : Modes) : Prop where
  value : ∀ s, Fills free s.alloc.temporaries (m.value s).after.alloc.temporaries (m.value s).code
  operand : ∀ s, (m.value s).operand.Below (m.value s).after.alloc.temporaries
  branch : ∀ t s, Fills free s.alloc.temporaries (m.branch t s).after.alloc.temporaries
    (m.branch t s).code

section Rules

variable {free : Instr → Prop} (hfree : ∀ i, free i → i.Harmless)

include hfree

theorem filling_ofValue {value : State → Emitted}
    (hvalue : ∀ s, Fills free s.alloc.temporaries (value s).after.alloc.temporaries (value s).code)
    (hoperand : ∀ s, (value s).operand.Below (value s).after.alloc.temporaries) :
    (ofValue value).Filling free := by
  refine ⟨hvalue, hoperand, fun t s => (hvalue s).extend hfree ?_ ?_⟩
  · simp [Instr.dest?]
  · simp [Instr.forall_operands, Instr.dest?, Instr.reads, hoperand s, Operand.below_literal]

theorem filling_ofBranch {branch : Targets Target → State → Lowered}
    (hbranch : ∀ t s, Fills free s.alloc.temporaries (branch t s).after.alloc.temporaries
      (branch t s).code) : (ofBranch branch).Filling free := by
  -- the temporary is drawn first, then the labels, then comes the branch
  have hdrawn := fun s : State => hbranch ⟨some s.label, some s.afterLabel.label, none⟩
    s.afterTemporary.afterLabel.afterLabel.afterLabel
  refine ⟨fun s => (hdrawn s).decide hfree _ _ _, fun s => ?_, hbranch⟩
  exact (Operand.below_temporary s.alloc.temporaries).mono (hdrawn s).le

/-- An operand that is there already. -/
theorem filling_empty {value : State → Emitted} (hcode : ∀ s, (value s).code = [])
    (hsame : ∀ s, (value s).after.alloc.temporaries = s.alloc.temporaries)
    (hoperand : ∀ s n, (value s).operand ≠ .temporary n) : (ofValue value).Filling free := by
  refine filling_ofValue hfree (fun s => ?_) fun s n hn => absurd hn (hoperand s n)
  rw [hcode, hsame]
  exact .nil

theorem filling_ofVar {Γ : Scope} (hΓ : Γ.Stored) (name : String) :
    (ofVar Γ name).Filling free := by
  obtain ⟨value, heq, hcode, halloc, hoperand⟩ := ofVar_eq hΓ name
  rw [heq]
  exact filling_empty hfree hcode (fun s => congrArg Allocator.temporaries (halloc s)) hoperand

section Operators

variable {left right operand : Modes} (hl : left.Filling free) (hr : right.Filling free)

include hl hr

theorem filling_compute {instr : Operand → Operand → Operand → Instr}
    (hinstr : ∀ d l r, (instr d l r).Computes d l r) : (compute left right instr).Filling free := by
  refine filling_ofValue hfree (fun s => ?_) (fun s => Operand.below_temporary _)
  let l := left.value s
  let r := right.value l.after
  have hi := hinstr r.after.temporary l.operand r.operand
  have hboth := (hl.value s).append hfree (hr.value l.after)
  refine hboth.fill hfree (.computed hi) hi.dest?_eq ?_
  rw [hi.reads_eq]
  have hbelow : l.operand.Below r.after.alloc.temporaries :=
    (hl.operand s).mono (hr.value l.after).le
  simpa using ⟨hbelow, hr.operand l.after⟩

theorem filling_compare (op : RelOp) : (compare op left right).Filling free := by
  refine filling_ofBranch hfree fun t s => ?_
  let l := left.value s
  let r := right.value l.after
  have hboth := (hl.value s).append hfree (hr.value l.after)
  have hbelow : l.operand.Below r.after.alloc.temporaries :=
    (hl.operand s).mono (hr.value l.after).le
  have hbelow' : r.operand.Below r.after.alloc.temporaries := hr.operand l.after
  refine hboth.extend hfree ?_ ?_
  · cases op <;> simp [comparison, Instr.dest?]
  · cases op with
    | lt | le | eq | ne =>
      simpa [comparison, Instr.forall_operands, Instr.dest?, Instr.reads] using ⟨hbelow, hbelow'⟩
    | gt | ge =>
      simpa [comparison, Instr.forall_operands, Instr.dest?, Instr.reads] using ⟨hbelow', hbelow⟩

/-- A branch that may be decided by its left side. -/
theorem filling_shortCircuit (first : Targets Target → Label → Targets Target) :
    (ofBranch fun t s =>
      let l := left.branch (first t s.label) s.afterLabel
      let r := right.branch ⟨t.onTrue, t.onFalse, none⟩ l.after
      ⟨l.code ++ [.label s.label] ++ r.code, r.after⟩).Filling free := by
  refine filling_ofBranch hfree fun t s => ?_
  have hleft := hl.branch (first t s.label) s.afterLabel
  have hlabel := hleft.extend (c := [.label s.label]) hfree (by simp [Instr.dest?])
    (by simp [Instr.forall_operands, Instr.dest?, Instr.reads])
  exact hlabel.append hfree (hr.branch ⟨t.onTrue, t.onFalse, none⟩ _)

theorem filling_conjunction : (conjunction left right).Filling free :=
  filling_shortCircuit hfree hl hr fun t l => ⟨some l, t.onFalse, none⟩

theorem filling_disjunction : (disjunction left right).Filling free :=
  filling_shortCircuit hfree hl hr fun t l => ⟨t.onTrue, some l, none⟩

end Operators

theorem filling_negative {operand : Modes} (h : operand.Filling free) :
    (negative operand).Filling free := by
  refine filling_ofValue hfree (fun s => ?_) (fun s => Operand.below_temporary _)
  refine (h.value s).fill hfree (.computed (.arith .sub)) rfl ?_
  simpa [Instr.reads, Operand.below_literal] using h.operand s

theorem filling_negation {operand : Modes} (h : operand.Filling free) :
    (negation operand).Filling free := filling_ofBranch hfree fun t s => h.branch t.swap s

theorem sequence_fills : ∀ {ms : List Modes}, (∀ m ∈ ms, Filling free m) → ∀ s,
    Fills free s.alloc.temporaries (sequence ms s).2.2.alloc.temporaries (sequence ms s).1 ∧
      ∀ v, (sequence ms s).2.1 = some v → v.Below (sequence ms s).2.2.alloc.temporaries
  | [], _, s => ⟨.nil, fun _ hv => by cases hv⟩
  | m :: ms, h, s => by
      obtain ⟨hm, hms⟩ := List.forall_mem_cons.mp h
      obtain ⟨hothers, hlast⟩ := sequence_fills hms (m.value s).after
      refine ⟨(hm.value s).append hfree hothers, fun v hv => ?_⟩
      change ((sequence ms (m.value s).after).2.1 <|> some (m.value s).operand) = some v at hv
      cases hlast' : (sequence ms (m.value s).after).2.1 with
      | none =>
        rw [hlast'] at hv
        cases hv
        exact (hm.operand s).mono hothers.le
      | some w =>
        rw [hlast'] at hv
        cases hv
        exact hlast v hlast'

/-- A call that the system answers may write what it reads. -/
theorem filling_systemCall (hread : ∀ v, free (.read v)) (name : String) {args : List Modes}
    (h : ∀ m ∈ args, Filling free m) : (systemCall name args).Filling free := by
  refine filling_ofValue hfree (fun s => ?_) (fun s => Operand.below_absent _)
  obtain ⟨hargs, hlast⟩ := sequence_fills hfree h s
  dsimp only
  cases hv : (sequence args s).2.1 with
  | none =>
    rw [List.append_nil]
    exact hargs
  | some v =>
    have hbelow := hlast v hv
    refine hargs.extend hfree ?_ ?_
    · by_cases hname : name = readCall
      · simp [hname, hread v]
      · simp [hname, Instr.dest?]
    · by_cases hname : name = readCall
      · simpa [hname, Instr.forall_operands, Instr.dest?, Instr.reads] using hbelow
      · simpa [hname, Instr.forall_operands, Instr.dest?, Instr.reads] using hbelow

theorem handOver_fills : ∀ {ms : List Modes} (place : Nat), (∀ m ∈ ms, Filling free m) → ∀ s,
    Fills free s.alloc.temporaries (handOver place ms s).after.alloc.temporaries
      (handOver place ms s).code
  | [], _, _, s => .nil
  | m :: ms, place, h, s => by
      obtain ⟨hm, hms⟩ := List.forall_mem_cons.mp h
      have hfirst := (hm.value s).extend (c := [.arg (m.value s).operand place]) hfree
        (by simp [Instr.dest?])
        (by simpa [Instr.forall_operands, Instr.dest?, Instr.reads] using hm.operand s)
      exact hfirst.append hfree (handOver_fills (place + 1) hms (m.value s).after)

theorem filling_functionCall (Γ : Scope) (name : String) (types : Check.Verdicts)
    {args : List Modes} (h : ∀ m ∈ args, Filling free m) :
    (functionCall Γ name types args).Filling free := by
  refine filling_ofValue hfree (fun s => ?_) (fun s => ?_)
  · have hargs := handOver_fills hfree 0 h (s.overhear types.journal)
    dsimp only
    split
    · exact .nil
    · split
      · exact hargs.extend hfree (by simp [Instr.dest?])
          (by simp [Instr.forall_operands, Instr.dest?, Instr.reads])
      · exact hargs.fill hfree .called rfl (by simp [Instr.reads])
  · dsimp only
    split
    · exact Operand.below_absent _
    · split
      · exact Operand.below_absent _
      · exact Operand.below_temporary _

end Rules

end Modes

mutual

/-- **The code of a proper expression fills the temporaries that it draws.** What the system reads
    may be written besides, if the expression asks for it. -/
theorem modes_fills {free : Instr → Prop} (hfree : ∀ i, free i → i.Harmless) {Γ : Scope}
    (hΓ : Γ.Stored) : ∀ e : Expr, e.Proper → (e.callsSystem = true → ∀ v, free (.read v)) →
      (modes Γ e).Filling free
  | .int _ n, _, _ =>
      Modes.filling_empty hfree (fun _ => rfl) (fun _ => rfl)
        fun _ => Operand.literal_ne_temporary n
  | .str _ _, _, _ =>
      Modes.filling_empty hfree (fun _ => rfl) (fun _ => rfl) fun _ _ heq => by cases heq
  | .var _ name, _, _ => Modes.filling_ofVar hfree hΓ name
  | .index _ array i, he, hread => by
      rw [Expr.callsSystem, Bool.or_eq_true] at hread
      exact Modes.filling_compute hfree (modes_fills hfree hΓ array he.1 fun h => hread (.inl h))
        (modes_fills hfree hΓ i he.2 fun h => hread (.inr h)) fun _ _ _ => .load
  | .call _ name args, he, hread => by
      rw [Expr.callsSystem, Bool.or_eq_true] at hread
      have hargs := modesOf_fills hfree hΓ args he.2 fun h => hread (.inr h)
      rw [modes, Modes.call]
      split
      · rename_i hname
        exact Modes.filling_systemCall hfree (hread (.inl hname)) name hargs
      · exact Modes.filling_functionCall hfree Γ name _ hargs
  | .unary _ op operand, he, hread => by
      have h := modes_fills hfree hΓ operand he.2 hread
      cases op with
      | neg => exact Modes.filling_negative hfree h
      | not => exact Modes.filling_negation hfree h
      | address | deref | other text => exact Modes.filling_ofValue hfree h.value h.operand
  | .binary _ op left right, he, hread => by
      rw [Expr.callsSystem, Bool.or_eq_true] at hread
      have hl := modes_fills hfree hΓ left he.2.1 fun h => hread (.inl h)
      have hr := modes_fills hfree hΓ right he.2.2 fun h => hread (.inr h)
      cases op with
      | arith op => exact Modes.filling_compute hfree hl hr fun _ _ _ => .arith op
      | rel op => exact Modes.filling_compare hfree hl hr op
      | and => exact Modes.filling_conjunction hfree hl hr
      | or => exact Modes.filling_disjunction hfree hl hr
      | other text => exact absurd rfl (he.1 text)
  | .nameless _ _, he, _ => he.elim
  | .misplaced _, he, _ => he.elim

theorem modesOf_fills {free : Instr → Prop} (hfree : ∀ i, free i → i.Harmless) {Γ : Scope}
    (hΓ : Γ.Stored) : ∀ es : List Expr, Expr.AllProper es →
      (Expr.anyCallsSystem es = true → ∀ v, free (.read v)) →
        ∀ m ∈ modesOf Γ es, Modes.Filling free m
  | [], _, _ => fun _ h => absurd h List.not_mem_nil
  | e :: es, he, hread => by
      rw [Expr.anyCallsSystem, Bool.or_eq_true] at hread
      exact List.forall_mem_cons.mpr ⟨modes_fills hfree hΓ e he.1 fun h => hread (.inl h),
        modesOf_fills hfree hΓ es he.2 fun h => hread (.inr h)⟩

end

/-! ## 4. Statements -/

theorem harmless_read (v : Operand) : Instr.Harmless (.read v) := by
  intro n
  simp [Instr.fills, Instr.isRead]

theorem harmless_move {v : Operand} (hv : ∀ n, v ≠ .temporary n) (w : Operand) :
    Instr.Harmless (.move v w) := by
  intro n
  simp [Instr.fills, Instr.dest?, hv n]

section Statements

variable (label : String) {Γ : Scope} (hΓ : Γ.Stored)

include hΓ

theorem expr_fills {e : Expr} (he : e.Proper) : (modes Γ e).Filling Instr.Harmless :=
  modes_fills harmless_id hΓ e he fun _ => harmless_read

theorem ofVar_operand (name : String) (s : State) (n : Nat) :
    ((Modes.ofVar Γ name).value s).operand ≠ .temporary n := by
  obtain ⟨value, heq, -, -, hoperand⟩ := Modes.ofVar_eq hΓ name
  rw [heq]
  exact hoperand s n

/-- A location that is no element is a variable. -/
theorem location_operand {target : Expr} (h : target.isLocation = true)
    (hindex : ∀ pos a i, target ≠ .index pos a i) (s : State) (n : Nat) :
    (value Γ target s).operand ≠ .temporary n := by
  cases target with
  | var _ name => exact ofVar_operand hΓ name s n
  | index pos a i => exact absurd rfl (hindex pos a i)
  | unary _ op e =>
    cases op with
    | deref =>
      cases e with
      | var _ name => exact ofVar_operand hΓ name s n
      | _ => cases h
    | _ => cases h
  | _ => cases h

theorem assignment_fills {target exp : Expr} (hlocation : target.isLocation = true)
    (htarget : target.Proper) (hexp : exp.Proper) (s : State) :
    FillsOwn s.alloc.temporaries (assignment Γ target exp s).after.alloc.temporaries
      (assignment Γ target exp s).code := by
  have he := expr_fills hΓ hexp
  unfold assignment
  split
  · rename_i array index
    have ha := expr_fills hΓ htarget.1
    have hi := expr_fills hΓ htarget.2
    let base := value Γ array s
    let i := value Γ index base.after
    let v := value Γ exp i.after
    have hparts := ((ha.value s).chain (hi.value base.after)).chain (he.value i.after)
    have hle := (he.value i.after).le
    have hbase : base.operand.Below v.after.alloc.temporaries :=
      (ha.operand s).mono (Nat.le_trans (hi.value base.after).le hle)
    have hindex : i.operand.Below v.after.alloc.temporaries := (hi.operand base.after).mono hle
    have hvalue : v.operand.Below v.after.alloc.temporaries := he.operand i.after
    exact hparts.extend harmless_id (by simp [Instr.dest?])
      (by simpa [Instr.forall_operands, Instr.dest?, Instr.reads] using ⟨hbase, hindex, hvalue⟩)
  · rename_i hindex
    have ht := expr_fills hΓ htarget
    let dest := value Γ target s
    have hparts := (ht.value s).chain (he.value dest.after)
    have hdest := location_operand hΓ hlocation hindex s
    refine hparts.extend harmless_id ?_ ?_
    · simpa using fun _ _ => harmless_move hdest _
    · have hbelow : dest.operand.Below (value Γ exp dest.after).after.alloc.temporaries :=
        (ht.operand s).mono (he.value dest.after).le
      simpa [Instr.forall_operands, Instr.dest?, Instr.reads] using
        ⟨hbelow, he.operand dest.after⟩

theorem condition_fills {cond : Expr} (hcond : cond.Proper) (t : Targets Target) (s : State) :
    FillsOwn s.alloc.temporaries (branch Γ cond t s).after.alloc.temporaries
      (branch Γ cond t s).code := (expr_fills hΓ hcond).branch t s

/-- A clause of a `for`. -/
theorem clause_fills {st : Stmt} (h : st.IsClause) (next : Target) (s : State) :
    FillsOwn s.alloc.temporaries (stmt label Γ st next s).after.alloc.temporaries
      (stmt label Γ st next s).code := by
  cases h with
  | assign hlocation htarget hvalue => exact assignment_fills hΓ hlocation htarget hvalue s
  | call hcall he =>
    rw [stmt, effect, if_pos hcall]
    exact (expr_fills hΓ he).value s

theorem returned_fills {exp : Option Expr} (hexp : ∀ e, exp = some e → e.Proper) (s : State) :
    FillsOwn s.alloc.temporaries (returned label Γ exp s).after.alloc.temporaries
      (returned label Γ exp s).code := by
  cases exp with
  | none =>
    exact Fills.nil.idle (c := [.ret label]) (by simp [Instr.dest?, Instr.reads])
  | some e =>
    have he := expr_fills hΓ (hexp e rfl)
    let v := value Γ e s
    have hvalue : FillsOwn s.alloc.temporaries v.after.alloc.temporaries v.code := he.value s
    have hbelow : v.operand.Below v.after.alloc.temporaries := he.operand s
    exact hvalue.extend (c := [.retValue label v.operand]) harmless_id (by simp [Instr.dest?])
      (by simpa [Instr.forall_operands, Instr.dest?, Instr.reads] using hbelow)

end Statements

mutual

/-- **The code of a proper statement fills the temporaries drawn meanwhile.** -/
theorem stmt_fills (label : String) {Γ : Scope} (hΓ : Γ.Stored) : ∀ st : Stmt, st.Proper →
    ∀ next s, FillsOwn s.alloc.temporaries (stmt label Γ st next s).after.alloc.temporaries
      (stmt label Γ st next s).code
  | .assign _ _ _, hst, next, s => clause_fills label hΓ hst next s
  | .ifThen _ cond body, hst, next, s => by
      let yes := s.label
      let c := branch Γ cond (targets yes next) s.afterLabel
      have hc := condition_fills hΓ hst.1 (targets yes next) s.afterLabel
      have hb := block_fills label hΓ Frame.stored_nil body hst.2 c.after
      exact (hc.label yes).chain hb
  | .ifElse _ cond thenBody elseBody, hst, next, s => by
      let yes := s.label
      let no := s.afterLabel.label
      let c := branch Γ cond (targets yes (some no)) s.afterLabel.afterLabel
      let a := block label Γ [] thenBody c.after
      have hc := condition_fills hΓ hst.1 (targets yes (some no)) s.afterLabel.afterLabel
      have ha := block_fills label hΓ Frame.stored_nil thenBody hst.2.1 c.after
      have hb := block_fills label hΓ Frame.stored_nil elseBody hst.2.2 a.after
      have hthen := (hc.label yes).chain ha
      have hmarked := hthen.idle (c := [.jump next, .label no]) (by simp [Instr.dest?, Instr.reads])
      exact hmarked.chain hb
  | .whileLoop _ cond body, hst, next, s => by
      let top := s.label
      let yes := s.afterLabel.label
      let c := branch Γ cond (targets yes next) s.afterLabel.afterLabel
      have htop : FillsOwn s.alloc.temporaries s.alloc.temporaries ([] ++ [.label top]) :=
        Fills.nil.label top
      have hc := condition_fills hΓ hst.1 (targets yes next) s.afterLabel.afterLabel
      have hb := block_fills label hΓ Frame.stored_nil body hst.2 c.after
      have hcond := (htop.chain hc).label yes
      exact (hcond.chain hb).jump (some top)
  | .forLoop _ init cond step body, hst, next, s => by
      let top := s.label
      let yes := s.afterLabel.label
      let i := stmt label Γ init none s.afterLabel.afterLabel
      let c := branch Γ cond (targets yes next) i.after
      let b := block label Γ [] body c.after
      have hi := clause_fills label hΓ hst.1 none s.afterLabel.afterLabel
      have hc := condition_fills hΓ hst.2.1 (targets yes next) i.after
      have hb := block_fills label hΓ Frame.stored_nil body hst.2.2.2 c.after
      have hn := clause_fills label hΓ hst.2.2.1 none b.after
      have hcond := ((hi.label top).chain hc).label yes
      exact ((hcond.chain hb).chain hn).jump (some top)
  | .call _ _, hst, next, s => clause_fills label hΓ hst next s
  | .ret _ _, hst, next, s => returned_fills label hΓ hst s
  | .misplaced _, hst, _, _ => hst.elim
  | .missing _ _, hst, _, _ => hst.elim

theorem block_fills (label : String) {Γ : Scope} (hΓ : Γ.Stored) {frame : Frame}
    (hframe : Frame.Stored frame) : ∀ b : Block, b.Proper → ∀ s,
      FillsOwn s.alloc.temporaries (block label Γ frame b s).after.alloc.temporaries
        (block label Γ frame b s).code
  | .mk _ ds sts, hb, s => by
      have hlocal : Space.local ≠ .temporary := Space.noConfusion
      have hdeclared := placeDecls_stored hlocal ds s hframe
      have h := stmts_fills label (hΓ.push hdeclared) sts hb.2 (placeDecls .local frame ds s).2
      rw [placeDecls_keeps (π := Allocator.temporaries) fun _ => rfl] at h
      exact h

theorem stmts_fills (label : String) {Γ : Scope} (hΓ : Γ.Stored) : ∀ sts : List Stmt,
    Stmt.AllProper sts → ∀ s,
      FillsOwn s.alloc.temporaries (stmts label Γ sts s).after.alloc.temporaries
        (stmts label Γ sts s).code
  | [], _, s => .nil
  | st :: sts, hsts, s => by
      have hfirst := stmt_fills label hΓ st hsts.1 (some s.label) s.afterLabel
      have hothers := stmts_fills label hΓ sts hsts.2
        (stmt label Γ st (some s.label) s.afterLabel).after
      rw [stmts]
      refine (hfirst.idle ?_).chain hothers
      split <;> simp [Instr.dest?, Instr.reads]

end

theorem value_of_isCondition (Γ : Scope) {e : Expr} (h : e.isCondition = true) (s : State) :
    value Γ e s = Modes.materialise (modes Γ e).branch s := by
  cases e with
  | unary _ op _ =>
    cases op with
    | not => rfl
    | _ => cases h
  | binary _ op _ _ =>
    cases op with
    | rel _ | and | or => rfl
    | _ => cases h
  | _ => cases h

/-- The value of a condition is the temporary that is drawn first, and both ends fill it. -/
theorem condition_writers {Γ : Scope} (hΓ : Γ.Stored) {e : Expr} (he : e.Proper)
    (hcond : e.isCondition = true) (s : State) :
    (value Γ e s).operand = .temporary s.alloc.temporaries ∧
      writersOf s.alloc.temporaries (value Γ e s).code =
        [.move (.temporary s.alloc.temporaries) (.literal 1),
          .move (.temporary s.alloc.temporaries) (.literal 0)] := by
  have hbranch := (expr_fills hΓ he).branch ⟨some s.label, some s.afterLabel.label, none⟩
    s.afterTemporary.afterLabel.afterLabel.afterLabel
  rw [value_of_isCondition Γ hcond]
  refine ⟨rfl, ?_⟩
  have hnone := hbranch.outside harmless_id (.inl (Nat.lt_succ_self s.alloc.temporaries))
  have hcode : (Modes.materialise (modes Γ e).branch s).code =
      ((modes Γ e).branch ⟨some s.label, some s.afterLabel.label, none⟩
        s.afterTemporary.afterLabel.afterLabel.afterLabel).code ++
      ends (.temporary s.alloc.temporaries) s.label s.afterLabel.label
        s.afterLabel.afterLabel.label := rfl
  rw [hcode, writersOf_append, hnone, writersOf_ends, if_pos rfl]
  rfl

/-- Code between two counts of temporaries writes nothing but temporaries drawn in between. -/
def WritesOwn (lo hi : Nat) (code : List Instr) : Prop :=
  ∀ i ∈ code, ∀ v, i.dest? = some v → ∃ n, v = .temporary n ∧ lo ≤ n ∧ n < hi

/-- **An expression without system calls writes only temporaries of its own.** -/
theorem modes_writesOwn {Γ : Scope} (hΓ : Γ.Stored) {e : Expr} (he : e.Proper)
    (hsystem : e.callsSystem = false) (s : State) :
    WritesOwn s.alloc.temporaries (value Γ e s).after.alloc.temporaries (value Γ e s).code ∧
      ∀ t, WritesOwn s.alloc.temporaries (branch Γ e t s).after.alloc.temporaries
        (branch Γ e t s).code := by
  have hfills : (modes Γ e).Filling fun _ => False :=
    modes_fills (fun _ => False.elim) hΓ e he fun h => by rw [hsystem] at h; cases h
  constructor
  · exact fun i hi v hv => ((hfills.value s).own i hi v hv).resolve_right id
  · exact fun t i hi v hv => ((hfills.branch t s).own i hi v hv).resolve_right id

end Lower

/-! ## 5. Functions -/

/-- **Temporaries of a segment are in order.** -/
structure Segment.InOrder (g : Segment) : Prop where
  /-- On every walk to an instruction that reads a temporary, this one has been written. -/
  written : ∀ {met pc i n}, Walk g.body met pc → g.body[pc]? = some i →
    .temporary n ∈ i.reads → ∃ j ∈ met, j.dest? = some (.temporary n)
  filled : ∀ n, n < g.temporaries → Filled n (writersOf n g.body)
  /-- No other temporaries occur. -/
  below : ∀ i ∈ g.body, ∀ n, .temporary n ∈ i.operands → n < g.temporaries

theorem Setting.inOrder (c : Setting) : c.segment.InOrder := by
  obtain ⟨F, -, hadmits, hholds⟩ :=
    Lower.block_facts c.label c.scope_stored c.frame_stored c.body c.start
  have hfills := Lower.block_fills c.label c.scope_stored c.frame_stored c.body
    c.body_proper c.start
  rw [c.no_temporaries] at hfills
  refine ⟨?_, fun n hn => hfills.filled n (Nat.zero_le n) hn, ?_⟩
  · intro met pc i n hwalk hi hreads
    exact (hholds hwalk).written n ((hadmits pc i hi).reads n hreads)
  · exact fun i hi n hn => hfills.below i hi _ hn n rfl

/-- **Temporaries of an accepted program are written before they are read, and nothing clobbers
    them.** In every segment a temporary is filled by one instruction only, unless it holds the
    value of a condition: then both ends of the condition fill it, and nothing else. The code of an
    expression without system calls writes nothing but temporaries of its own. -/
theorem temporaries_written_before_read {source : List Char} {p : Program}
    (h : Program.ofSource? source = some p) (haccepted : p.Accepted) :
    (∃ code after fs, Lower.result p {} = .ok (code, after) ∧ p.Layout code fs ∧
      ∀ f ∈ fs, f.2.InOrder) ∧
    ∀ (Γ : Scope) (e : Expr) (s : Lower.State), Γ.Stored → e.Proper →
      (e.isCondition = true →
        (Lower.value Γ e s).operand = .temporary s.alloc.temporaries ∧
          writersOf s.alloc.temporaries (Lower.value Γ e s).code =
            [.move (.temporary s.alloc.temporaries) (.literal 1),
              .move (.temporary s.alloc.temporaries) (.literal 0)]) ∧
      (e.callsSystem = false →
        Lower.WritesOwn s.alloc.temporaries (Lower.value Γ e s).after.alloc.temporaries
          (Lower.value Γ e s).code ∧
        ∀ t, Lower.WritesOwn s.alloc.temporaries (Lower.branch Γ e t s).after.alloc.temporaries
          (Lower.branch Γ e t s).code) :=
  ⟨Program.exists_layout (P := fun _ g => g.InOrder) Setting.inOrder h haccepted,
    fun _ _ s hΓ he => ⟨fun hcond => Lower.condition_writers hΓ he hcond s,
      fun hsystem => Lower.modes_writesOwn hΓ he hsystem s⟩⟩

/-- A loop over an array, with a condition kept as a value and a value read into a computed one. -/
def countSmall : String :=
  "int small(int x, int most) \x7b if (x < most) \x7b return 1; \x7d return 0; \x7d " ++
  "int main() \x7b int a[3]; int i; bool b; i = 0; while (i < 3) \x7b " ++
  "b = a[i] > 2 && !(i == 1); a[i] = -a[i] * (i + small(a[i], 4)); scanf(i + 1); " ++
  "i = i + 1; \x7d " ++
  "return a[0]; \x7d"

theorem temporaries_written_before_read_countSmall :
    (∃ p, Program.ofSource? countSmall.toList = some p ∧ p.Accepted ∧
      ∃ code after fs, Lower.result p {} = .ok (code, after) ∧ p.Layout code fs ∧
        ∀ f ∈ fs, f.2.InOrder) ∧
    let e : Expr := .binary {} (.rel .lt) (.int {} 1) (.int {} 2)
    (Lower.value {} e {}).operand = .temporary 0 ∧
      Lower.WritesOwn 0 (Lower.value {} e {}).after.alloc.temporaries
        (Lower.value {} e {}).code := by
  obtain ⟨p, hp, haccepted⟩ := Program.exists_accepted countSmall.toList (by decide +kernel)
  obtain ⟨hsegments, hexprs⟩ := temporaries_written_before_read hp haccepted
  refine ⟨⟨p, hp, haccepted, hsegments⟩, ?_⟩
  have hstored : Scope.Stored {} := Scope.stored_globals Frame.stored_nil
  have hproper : Expr.Proper (.binary {} (.rel .lt) (.int {} 1) (.int {} 2)) :=
    ⟨fun _ => BinaryOp.noConfusion, trivial, trivial⟩
  obtain ⟨hcondition, hown⟩ := hexprs {} _ {} hstored hproper
  exact ⟨(hcondition rfl).1, (hown rfl).1⟩

end CMinusMinus
