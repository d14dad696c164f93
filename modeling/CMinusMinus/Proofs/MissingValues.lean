/-
  File:      CMinusMinus/Proofs/MissingValues.lean
  Subject:   Where an operand of the code is left empty.

  A call leaves no value if the system answers it, or if the return type of its function is built
  on void, a pointer to void included. Operators, conditions and indices ask for an int or a bool,
  so their operands have values. But such a call may be an argument, it may be assigned, returned,
  printed or indexed, and then the operand of the instruction that asks is empty. No other operand
  ever is: not a name, not a string literal, not the target of a jump.

  * `HasType.gap_iff` -- which expressions leave no value;
  * `Instr.empty_iff` -- an operand of an instruction is empty exactly at a gap;
  * `Program.Gapless` -- no value is asked for that is not there;
  * `operands_nonempty_iff` -- it is what makes all operands of a program's code non-empty.
-/
import CMinusMinus.Proofs.Marks

namespace CMinusMinus

/-! ## 1. Expressions without a value -/

/-- **A well-typed expression leaves no value exactly if it is a call and its type is built on
    void.** -/
theorem HasType.gap_iff {Γ : Scope} (hΓ : Γ.Proper) {e : Expr} {τ : Ty} (h : HasType Γ e τ) :
    .gap ∈ e.gap Γ ↔ e.isCall = true ∧ τ.name = "void" := by
  unfold Expr.gap
  cases h with
  | system hname _ _ => simp [Expr.leaves, Expr.callee?, Expr.isCall, hname, Ty.void]
  | call hname hargs hf =>
    have hcallee := Lower.callee?_eq hΓ hname hargs hf
    simp [Expr.leaves, hcallee, Signature.gives, Expr.isCall]
  | _ => simp [Expr.leaves, Expr.isCall]

/-! ## 2. Texts of operands -/

theorem Label.text_ne_empty (l : Label) : l.text ≠ "" := by
  rw [Label.text_eq]
  simp

theorem Address.text_ne_empty (a : Address) : a.text ≠ "" := by
  simp [Address.text]

/-- An operand is empty exactly where a value is missing. -/
theorem Operand.text_eq_empty_iff (v : Operand) : v.text = "" ↔ .gap ∈ v.gap := by
  cases v with
  | absent => simp [Operand.text, Operand.gap]
  | literal n => exact iff_of_false (Text.isDecimal_int n).nonempty List.not_mem_nil
  | address a => exact iff_of_false a.text_ne_empty List.not_mem_nil

/-- All names in the instruction are there, and a jump has a target. -/
def Instr.Named : Instr → Prop
  | .string name | .entry name _ | .func name | .endFunc name => name ≠ ""
  | .call name _ | .callValue _ name _ | .ret name | .retValue name _ => name ≠ ""
  | .jump target | .branch _ _ _ target => ∃ l, target = some l
  | _ => True

/-- **An instruction that has its names and targets has an empty operand exactly where a value is
    missing.** -/
theorem Instr.empty_iff {i : Instr} (h : i.Named) : "" ∈ i.line.args ↔ .gap ∈ i.marks := by
  have hv := fun v : Operand => (eq_comm (a := "")).trans v.text_eq_empty_iff
  have hn : ∀ n : Nat, "" ≠ Nat.repr n := fun n => (Text.isDecimal_nat n).nonempty.symm
  have hl : ∀ l : Label, "" ≠ l.text := fun l => l.text_ne_empty.symm
  cases i with
  | string _ | func _ | endFunc _ | ret _ => simp [line, marks, Ne.symm h]
  | entry _ _ | call _ _ => simp [line, marks, Ne.symm h, hn]
  | callValue _ _ _ => simp [line, marks, Ne.symm h, hv, hn]
  | retValue _ _ => simp [line, marks, Ne.symm h, hv]
  | frame _ _ => simp [line, marks, hn]
  | label _ => simp [line, marks, Line.ofLabel, hl]
  | jump _ =>
    obtain ⟨l, rfl⟩ := h
    simp [line, marks, Target.text, hl]
  | branch _ _ _ _ =>
    obtain ⟨l, rfl⟩ := h
    simp [line, marks, Target.text, hv, hl]
  | arg _ _ => simp [line, marks, hv, hn]
  | move _ _ | arith _ _ _ _ | load _ _ _ | store _ _ _ | read _ | write _ => simp [line, marks, hv]

/-! ## 3. The code of a function -/

/-- Code that is tidy and was handed no targets has its names and targets. -/
theorem TidyCode.named {code : List Instr} {lo hi : Nat} (h : TidyCode code lo hi []) :
    ∀ i ∈ code, i.Named := by
  intro i hi
  have hinner := h.inner i hi
  have htarget : ∀ t, i.target? = some t → ∃ l, t = some l := by
    intro t ht
    rcases h.known t (mem_targetsOf.mpr ⟨i, hi, ht⟩) with hout | ⟨l, -, hl⟩
    · cases hout
    · exact ⟨l, hl⟩
  cases i with
  | string _ | entry _ _ | func _ | endFunc _ => exact hinner.elim
  | call _ _ | callValue _ _ _ | ret _ | retValue _ _ => exact hinner.nonempty
  | jump t | branch _ _ _ t => exact htarget t rfl
  | _ => trivial

theorem gap_mem_marksOf {code : List Instr} :
    .gap ∈ marksOf code ↔ ∃ i ∈ code, .gap ∈ i.marks := List.mem_flatMap

theorem gap_mem_coded {ms : List (Mark Overload)} : .gap ∈ coded ms ↔ .gap ∈ ms := by
  constructor
  · intro h
    obtain ⟨m, hm, hgap⟩ := List.mem_map.mp h
    cases m with
    | gap => exact hm
    | _ => cases hgap
  · exact fun h => List.mem_map_of_mem (f := Mark.map Overload.called) h

namespace Setting

variable (c : Setting)

theorem isCodeLabel : IsCodeLabel c.label := isCodeLabel_codeLabel c.head_proper.name _

/-- All instructions of a function have their names and targets. -/
theorem named : ∀ i ∈ c.segment.code, i.Named := by
  have hbody := (Lower.block_tidy c.isCodeLabel c.scope c.frame c.body c.body_proper c.start).named
  intro i hi
  simp only [Segment.code, Segment.inside, List.cons_append, List.mem_cons, List.mem_append,
    List.not_mem_nil, or_false] at hi
  rcases hi with rfl | rfl | hi | rfl
  · exact c.isCodeLabel.nonempty
  · trivial
  · exact hbody i hi
  · exact c.isCodeLabel.nonempty

/-- **The code of a function has an empty operand exactly if its body asks for a value that is not
    there.** -/
theorem empty_iff :
    (∃ i ∈ c.segment.code, "" ∈ i.line.args) ↔ .gap ∈ c.body.marks c.site.scope := by
  have hcode : marksOf c.segment.code = marksOf c.segment.body := by
    simp [Segment.code, Segment.inside, Instr.marks]
  rw [← gap_mem_coded, ← c.marksOf_body, ← hcode, gap_mem_marksOf]
  exact exists_congr fun i => and_congr_right fun hi => Instr.empty_iff (c.named i hi)

end Setting

/-! ## 4. The code of a program -/

/-- **No function of the program asks for a value that is not there.** -/
def Program.Gapless (p : Program) : Prop := ∀ f ∈ p.sites, .gap ∉ f.body.marks f.scope

instance (p : Program) : Decidable p.Gapless :=
  inferInstanceAs (Decidable (∀ f ∈ p.sites, .gap ∉ f.body.marks f.scope))

/-- In the header of a proper program no operand is empty. -/
theorem Program.header_nonempty {p : Program} (h : p.Proper) (globals : Nat) :
    ∀ i ∈ p.header globals, "" ∉ i.line.args := by
  intro i hi
  have hnamed : i.Named ∧ i.marks = [] := by
    rcases List.mem_append.mp hi with hi | hi
    · obtain ⟨text, htext, rfl⟩ := List.mem_map.mp hi
      exact ⟨h.literals text htext, rfl⟩
    · have hentry : codeLabel Lower.entryName [] ≠ "" := by decide
      rw [List.mem_singleton.mp hi]
      exact ⟨hentry, rfl⟩
  rw [Instr.empty_iff hnamed.1, hnamed.2]
  exact List.not_mem_nil

/-- **An accepted program has code without empty operands exactly if it asks for no value that is
    not there.** Each empty operand stands in the function that asks; and no value is missing except
    that of a call whose type is built on void. -/
theorem operands_nonempty_iff {source : List Char} {p : Program}
    (h : Program.ofSource? source = some p) (haccepted : p.Accepted) :
    ∃ code after fs, Lower.result p {} = .ok (code, after) ∧ p.Layout code fs ∧
      ((∀ i ∈ code, "" ∉ i.line.args) ↔ p.Gapless) ∧
      (∀ f ∈ fs, (∃ i ∈ f.2.code, "" ∈ i.line.args) ↔ .gap ∈ f.1.body.marks f.1.scope) ∧
      ∀ {Γ : Scope} {e : Expr} {τ : Ty}, Γ.Proper → HasType Γ e τ →
        (.gap ∈ e.gap Γ ↔ e.isCall = true ∧ τ.name = "void") := by
  obtain ⟨code, after, fs, hresult, hlayout, hfs⟩ :=
    Program.exists_layout (P := fun f g => (∃ i ∈ g.code, "" ∈ i.line.args) ↔
      .gap ∈ f.body.marks f.scope) (fun c => c.empty_iff) h haccepted
  refine ⟨code, after, fs, hresult, hlayout, ?_, hfs, fun hΓ he => he.gap_iff hΓ⟩
  obtain ⟨globals, hcode⟩ := hlayout.code_eq
  have hheader := Program.header_nonempty (Program.proper_ofSource? h) globals
  unfold Program.Gapless
  rw [← hlayout.sites, List.forall_mem_map, hcode]
  constructor
  · intro hall f hf hgap
    obtain ⟨i, hi, hempty⟩ := (hfs f hf).mpr hgap
    exact hall i (List.mem_append_right _ (List.mem_flatMap.mpr ⟨f, hf, hi⟩)) hempty
  · intro hgapless i hi hempty
    rcases List.mem_append.mp hi with hi | hi
    · exact hheader i hi hempty
    · obtain ⟨f, hf, hmem⟩ := List.mem_flatMap.mp hi
      exact hgapless f hf ((hfs f hf).mp ⟨i, hmem, hempty⟩)

/-- A call without a value as the argument of another one. -/
def voidPointerArgument : String :=
  "void *f(void *p) \x7b return p; \x7d void g(void *p) \x7b f(f(p)); \x7d"

theorem operands_nonempty_iff_voidPointerArgument :
    ∃ p, Program.ofSource? voidPointerArgument.toList = some p ∧ p.Accepted ∧ ¬ p.Gapless ∧
      ∃ code after fs, Lower.result p {} = .ok (code, after) ∧ p.Layout code fs ∧
        ∃ i ∈ code, "" ∈ i.line.args := by
  obtain ⟨p, hp, hdecide⟩ := (Option.any_eq_true _ _).mp (show
    (Program.ofSource? voidPointerArgument.toList).any
      (fun p => decide (p.Accepted ∧ ¬ p.Gapless)) = true by decide +kernel)
  obtain ⟨haccepted, hgap⟩ := of_decide_eq_true hdecide
  obtain ⟨code, after, fs, hresult, hlayout, hiff, -⟩ := operands_nonempty_iff hp haccepted
  refine ⟨p, hp, haccepted, hgap, code, after, fs, hresult, hlayout, ?_⟩
  have hnot := mt hiff.mp hgap
  simpa using hnot

end CMinusMinus
