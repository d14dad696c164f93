/-
  File:      CMinusMinus/Proofs/Typing.lean
  Subject:   The typing rules of expressions, and the checker's verdict on them.

  `HasType Γ e τ` gives the rules: what type an expression has in a scope, with no word on what
  happens to one that has none. The checker gives every expression some type and writes down what
  is wrong with it. On a proper tree in a proper scope it meets no fault, and what it does not blame
  has the type it says.

  * `HasType`, `HaveTypes` -- the rules;
  * `Check.typeOf_findings` -- the checker ends on every proper expression;
  * `Check.typeOf_approves` -- an expression that is not blamed has the type found;
  * `Check.typeOf_eq` -- an expression that has a type gets it, and nothing is written down.
-/
import CMinusMinus.Check.Expr
import CMinusMinus.Proofs.Journals
import CMinusMinus.Proofs.ProperTrees

namespace CMinusMinus

/-! ## 1. Proper scopes -/

/-- What a name is bound to has types of the language. -/
def Entry.Proper : Entry → Prop
  | .variable v => v.ty.Proper
  | .function f => f.ret.Proper ∧ ∀ ty ∈ f.params, ty.Proper

/-- All declarations of a frame have types of the language. -/
def Frame.Proper (frame : Frame) : Prop := ∀ b ∈ frame, b.2.Proper

/-- All declarations in a scope have types of the language. -/
def Scope.Proper (scope : Scope) : Prop := ∀ frame ∈ scope.frames, Frame.Proper frame

/-- A type of the language is not the error type. -/
theorem Ty.Proper.isError_eq {ty : Ty} (h : ty.Proper) : ty.isError = false := by
  unfold Ty.Proper Ty.names at h
  unfold Ty.isError
  rw [beq_eq_false_iff_ne]
  intro he
  rw [he] at h
  exact absurd h (by decide)

theorem Frame.Proper.var? {frame : Frame} (h : Frame.Proper frame) {name : String} {v : Variable}
    (hv : frame.var? name = some v) : v.ty.Proper := by
  unfold Frame.var? at hv
  obtain ⟨⟨n, e⟩, hb, hf⟩ := List.exists_of_findSome?_eq_some hv
  rcases e with w | f
  · dsimp only at hf
    split at hf
    · cases hf
      exact h _ hb
    · cases hf
  · cases hf

theorem Frame.Proper.function? {frame : Frame} (h : Frame.Proper frame) {name : String}
    {params : List Ty} {f : Signature} (hf : frame.function? name params = some f) :
    f.ret.Proper := by
  unfold Frame.function? at hf
  obtain ⟨⟨n, e⟩, hb, he⟩ := List.exists_of_findSome?_eq_some hf
  rcases e with w | g
  · cases he
  · dsimp only at he
    split at he
    · cases he
      exact (h _ hb).1
    · cases he

theorem Scope.Proper.var? {scope : Scope} (h : scope.Proper) {name : String} {v : Variable}
    (hv : scope.var? name = some v) : v.ty.Proper := by
  obtain ⟨frame, hframe, hf⟩ := List.exists_of_findSome?_eq_some hv
  exact (h frame hframe).var? hf

theorem Scope.Proper.function? {scope : Scope} (h : scope.Proper) {name : String}
    {args : List Ty} {f : Signature} (hf : scope.function? name args = some f) : f.ret.Proper :=
  (h scope.globals (List.mem_append_right _ List.mem_cons_self)).function? hf

/-! ## 2. The rules -/

mutual

/-- **An expression has a type in a scope.** -/
inductive HasType (Γ : Scope) : Expr → Ty → Prop where
  | int {pos : Position} {n : Int} : HasType Γ (.int pos n) .int
  | str {pos : Position} {text : String} : HasType Γ (.str pos text) .string
  | var {pos : Position} {name : String} {v : Variable} (hv : Γ.var? name = some v) :
      HasType Γ (.var pos name) v.ty
  | index {pos : Position} {array i : Expr} {α ι : Ty} (harray : HasType Γ array α)
      (hi : HasType Γ i ι) (hint : ι.name = "int") : HasType Γ (.index pos array i) α.element
  /-- A call that the system answers has at most one argument, of any type. -/
  | system {pos : Position} {name : String} {args : List Expr} {τs : List Ty}
      (hname : isSystemCall name = true) (hargs : HaveTypes Γ args τs) (hone : τs.length ≤ 1) :
      HasType Γ (.call pos name args) .void
  | call {pos : Position} {name : String} {args : List Expr} {τs : List Ty} {f : Signature}
      (hname : isSystemCall name = false) (hargs : HaveTypes Γ args τs)
      (hf : Γ.function? name τs = some f) : HasType Γ (.call pos name args) f.ret
  | neg {pos : Position} {e : Expr} {τ : Ty} (he : HasType Γ e τ) (hint : τ.name = "int") :
      HasType Γ (.unary pos .neg e) .int
  | not {pos : Position} {e : Expr} {τ : Ty} (he : HasType Γ e τ) (hbool : τ.name = "bool") :
      HasType Γ (.unary pos .not e) .bool
  | address {pos : Position} {e : Expr} {τ : Ty} (he : HasType Γ e τ) (hvar : e.isVar = true) :
      HasType Γ (.unary pos .address e) τ
  | deref {pos : Position} {e : Expr} {τ : Ty} (he : HasType Γ e τ) (hvar : e.isVar = true) :
      HasType Γ (.unary pos .deref e) τ
  | arith {pos : Position} {op : ArithOp} {l r : Expr} {α β : Ty} (hl : HasType Γ l α)
      (hr : HasType Γ r β) (hα : α.name = "int") (hβ : β.name = "int") :
      HasType Γ (.binary pos (.arith op) l r) .int
  | rel {pos : Position} {op : RelOp} {l r : Expr} {α β : Ty} (hl : HasType Γ l α)
      (hr : HasType Γ r β) (hα : α.name = "int") (hβ : β.name = "int") :
      HasType Γ (.binary pos (.rel op) l r) .bool
  | and {pos : Position} {l r : Expr} {α β : Ty} (hl : HasType Γ l α) (hr : HasType Γ r β)
      (hα : α.name = "bool") (hβ : β.name = "bool") : HasType Γ (.binary pos .and l r) .bool
  | or {pos : Position} {l r : Expr} {α β : Ty} (hl : HasType Γ l α) (hr : HasType Γ r β)
      (hα : α.name = "bool") (hβ : β.name = "bool") : HasType Γ (.binary pos .or l r) .bool

/-- Expressions have types place by place. -/
inductive HaveTypes (Γ : Scope) : List Expr → List Ty → Prop where
  | nil : HaveTypes Γ [] []
  | cons {e : Expr} {τ : Ty} {es : List Expr} {τs : List Ty} (he : HasType Γ e τ)
      (hes : HaveTypes Γ es τs) : HaveTypes Γ (e :: es) (τ :: τs)

end

/-- In a proper scope only types of the language are given. -/
theorem HasType.proper {Γ : Scope} (hΓ : Γ.Proper) : ∀ {e : Expr} {τ : Ty},
    HasType Γ e τ → τ.Proper
  | _, _, .int => by decide
  | _, _, .str => by decide
  | _, _, .var hv => hΓ.var? hv
  | _, _, .index ha _ _ => ha.proper hΓ
  | _, _, .system _ _ _ => by decide
  | _, _, .call _ _ hf => hΓ.function? hf
  | _, _, .neg _ _ => by decide
  | _, _, .not _ _ => by decide
  | _, _, .address he _ => he.proper hΓ
  | _, _, .deref he _ => he.proper hΓ
  | _, _, .arith _ _ _ _ => by decide
  | _, _, .rel _ _ _ _ => by decide
  | _, _, .and _ _ _ _ => by decide
  | _, _, .or _ _ _ _ => by decide

theorem HaveTypes.proper {Γ : Scope} (hΓ : Γ.Proper) : ∀ {es : List Expr} {τs : List Ty},
    HaveTypes Γ es τs → ∀ τ ∈ τs, τ.Proper
  | _, _, .nil => fun _ h => absurd h List.not_mem_nil
  | _, _, .cons he hes => List.forall_mem_cons.mpr ⟨he.proper hΓ, hes.proper hΓ⟩

theorem HaveTypes.length_eq {Γ : Scope} : ∀ {es : List Expr} {τs : List Ty},
    HaveTypes Γ es τs → es.length = τs.length
  | _, _, .nil => rfl
  | _, _, .cons _ hes => congrArg (· + 1) hes.length_eq

/-! ## 3. The checker's verdict -/

namespace Check

open Journal

mutual

/-- **The checker ends on every proper expression**, and all it writes down are findings. -/
theorem typeOf_findings (Γ : Scope) : ∀ e : Expr, e.Proper → (typeOf Γ e).journal.Findings
  | .int _ _, _ => findings_nil
  | .str _ _, _ => findings_nil
  | .var pos name, he => by
      rw [typeOf, varUse]
      split
      · exact findings_nil
      · exact findings_report he
  | .index pos array i, he => by
      have h₁ := typeOf_findings Γ array he.1
      have h₂ := typeOf_findings Γ i he.2
      exact findings_append.mpr ⟨findings_append.mpr ⟨h₁, h₂⟩, findings_complainIf trivial⟩
  | .call pos name args, he => by
      have h := typesOf_findings Γ args he.2
      rw [typeOf, call]
      split
      · exact findings_append.mpr ⟨h, findings_complainIf trivial⟩
      · split
        · exact h
        · split
          · exact h
          · exact findings_append.mpr ⟨h, findings_report he.1⟩
  | .unary pos op operand, he => by
      have h := typeOf_findings Γ operand he.2
      rw [typeOf]
      cases op with
      | other text => exact absurd rfl (he.1 text)
      | _ => exact findings_append.mpr ⟨h, findings_complainIf trivial⟩
  | .binary pos op left right, he => by
      have h₁ := typeOf_findings Γ left he.2.1
      have h₂ := typeOf_findings Γ right he.2.2
      rw [typeOf]
      cases op with
      | other text => exact absurd rfl (he.1 text)
      | _ =>
        refine findings_append.mpr ⟨findings_append.mpr ⟨h₁, h₂⟩, findings_complainIf ?_⟩
        simp [Defect.Named, Ty.names]
  | .nameless _ _, he => he.elim
  | .misplaced _, he => he.elim

theorem typesOf_findings (Γ : Scope) :
    ∀ es : List Expr, Expr.AllProper es → (typesOf Γ es).journal.Findings
  | [], _ => findings_nil
  | e :: es, he => findings_append.mpr ⟨typeOf_findings Γ e he.1, typesOf_findings Γ es he.2⟩

end

/-- A type of the language offends exactly when its base name is not the wanted one. -/
theorem offends_eq_false {wanted : String} {τ : Ty} (hτ : τ.Proper) :
    offends wanted τ = false ↔ τ.name = wanted := by
  simp [offends, hτ.isError_eq]

/-- Operands that have types of the language clash exactly when one has not the wanted name. -/
theorem clash_eq_false {wanted : String} {α β : Ty} (hα : α.Proper) (hβ : β.Proper) :
    (!α.isError && !β.isError && (α.name != wanted || β.name != wanted)) = false ↔
      α.name = wanted ∧ β.name = wanted := by
  simp [hα.isError_eq, hβ.isError_eq]

/-- No type of the language is the error type. -/
theorem any_isError_eq_false {τs : List Ty} (h : ∀ τ ∈ τs, τ.Proper) :
    τs.any Ty.isError = false := by
  rw [List.any_eq_false]
  intro τ hτ
  rw [(h τ hτ).isError_eq]
  decide

/-- A binary operator whose operands have the wanted base name. -/
theorem binary_eq {op : BinaryOp} {wanted : String} {result α β : Ty} {pos : Position}
    (hop : operatorRule op = .ok (wanted, result)) (hα : α.Proper) (hβ : β.Proper)
    (hα' : α.name = wanted) (hβ' : β.name = wanted) :
    binary pos op ⟨α, []⟩ ⟨β, []⟩ = ⟨result, []⟩ := by
  unfold binary
  simp only [hop, (clash_eq_false hα hβ).mpr ⟨hα', hβ'⟩]
  rfl

/-- **What the checker does not blame has the type it says**, and nothing is written down. -/
structure Approves (Γ : Scope) (e : Expr) (found : Verdict) : Prop where
  typed : HasType Γ e found.ty
  silent : found.journal = []

theorem append_complainIf_nil {j : Journal} {c : Bool} {pos : Position} {d : Defect}
    (hj : j = []) (hc : c = false) : j ++ complainIf c pos d = [] := by
  rw [hj, hc]
  rfl

/-- What is not blamed about a binary operator: its operands have the wanted base name. -/
theorem binary_approved {Γ : Scope} (hΓ : Γ.Proper) {left right : Expr} {found₁ found₂ : Verdict}
    {op : BinaryOp} {wanted : String} {result : Ty} {pos : Position}
    (hop : operatorRule op = .ok (wanted, result))
    (hl : found₁.journal.Blameless → Approves Γ left found₁)
    (hr : found₂.journal.Blameless → Approves Γ right found₂)
    (h : (binary pos op found₁ found₂).journal.Blameless) :
    (HasType Γ left found₁.ty ∧ found₁.ty.name = wanted) ∧
      (HasType Γ right found₂.ty ∧ found₂.ty.name = wanted) ∧
      (binary pos op found₁ found₂).journal = [] := by
  unfold binary at h ⊢
  simp only [hop] at h ⊢
  rw [blameless_append, blameless_append, blameless_complainIf rfl] at h
  have hl' := hl h.1.1
  have hr' := hr h.1.2
  obtain ⟨hα, hβ⟩ := (clash_eq_false (hl'.typed.proper hΓ) (hr'.typed.proper hΓ)).mp h.2
  exact ⟨⟨hl'.typed, hα⟩, ⟨hr'.typed, hβ⟩,
    append_complainIf_nil (List.append_eq_nil_iff.mpr ⟨hl'.silent, hr'.silent⟩) h.2⟩

mutual

theorem typeOf_approves {Γ : Scope} (hΓ : Γ.Proper) : ∀ e : Expr, e.Proper →
    (typeOf Γ e).journal.Blameless → Approves Γ e (typeOf Γ e)
  | .int _ _, _, _ => ⟨.int, rfl⟩
  | .str _ _, _, _ => ⟨.str, rfl⟩
  | .var pos name, _, h => by
      rw [typeOf, varUse] at h ⊢
      split at h
      · rename_i v hv
        exact ⟨.var hv, rfl⟩
      · exact absurd h (not_blameless_report rfl)
  | .index pos array i, he, h => by
      rw [typeOf, element] at h ⊢
      rw [blameless_append, blameless_append, blameless_complainIf rfl] at h
      have ha := typeOf_approves hΓ array he.1 h.1.1
      have hi := typeOf_approves hΓ i he.2 h.1.2
      refine ⟨.index ha.typed hi.typed ((offends_eq_false (hi.typed.proper hΓ)).mp h.2), ?_⟩
      exact append_complainIf_nil (List.append_eq_nil_iff.mpr ⟨ha.silent, hi.silent⟩) h.2
  | .call pos name args, he, h => by
      rw [typeOf, call] at h ⊢
      by_cases hname : isSystemCall name = true
      · rw [if_pos hname] at h ⊢
        rw [blameless_append, blameless_complainIf rfl] at h
        obtain ⟨hargs, hnil⟩ := typesOf_approves hΓ args he.2 h.1
        exact ⟨.system hname hargs (Nat.le_of_not_lt (of_decide_eq_false h.2)),
          append_complainIf_nil hnil h.2⟩
      · rw [if_neg hname] at h ⊢
        have hquiet : (typesOf Γ args).journal.Blameless := by
          split at h
          · exact h
          · split at h
            · exact h
            · exact (blameless_append.mp h).1
        obtain ⟨hargs, hnil⟩ := typesOf_approves hΓ args he.2 hquiet
        -- no argument has the error type, so the function was looked for
        have herror := any_isError_eq_false (hargs.proper hΓ)
        rw [herror, if_neg Bool.false_ne_true] at h ⊢
        split at h
        · rename_i f hf
          exact ⟨.call (Bool.eq_false_iff.mpr hname) hargs hf, hnil⟩
        · exact absurd (blameless_append.mp h).2 (not_blameless_report rfl)
  | .unary pos op operand, he, h => by
      have ho := typeOf_approves hΓ operand he.2
      cases op with
      | neg =>
        rw [typeOf, unary, blameless_append, blameless_complainIf rfl] at h
        have hname := (offends_eq_false ((ho h.1).typed.proper hΓ)).mp h.2
        exact ⟨.neg (ho h.1).typed hname, append_complainIf_nil (ho h.1).silent h.2⟩
      | not =>
        rw [typeOf, unary, blameless_append, blameless_complainIf rfl] at h
        have hname := (offends_eq_false ((ho h.1).typed.proper hΓ)).mp h.2
        exact ⟨.not (ho h.1).typed hname, append_complainIf_nil (ho h.1).silent h.2⟩
      | address =>
        rw [typeOf, unary, blameless_append, blameless_complainIf rfl] at h
        have hvar : operand.isVar = true := by simpa using h.2
        exact ⟨.address (ho h.1).typed hvar, append_complainIf_nil (ho h.1).silent h.2⟩
      | deref =>
        rw [typeOf, unary, blameless_append, blameless_complainIf rfl] at h
        have hvar : operand.isVar = true := by simpa using h.2
        exact ⟨.deref (ho h.1).typed hvar, append_complainIf_nil (ho h.1).silent h.2⟩
      | other text => exact absurd rfl (he.1 text)
  | .binary pos op left right, he, h => by
      have hl := typeOf_approves hΓ left he.2.1
      have hr := typeOf_approves hΓ right he.2.2
      cases op with
      | other text => exact absurd rfl (he.1 text)
      | arith op =>
        obtain ⟨⟨hl, hα⟩, ⟨hr, hβ⟩, hnil⟩ := binary_approved hΓ rfl hl hr h
        exact ⟨.arith hl hr hα hβ, hnil⟩
      | rel op =>
        obtain ⟨⟨hl, hα⟩, ⟨hr, hβ⟩, hnil⟩ := binary_approved hΓ rfl hl hr h
        exact ⟨.rel hl hr hα hβ, hnil⟩
      | and =>
        obtain ⟨⟨hl, hα⟩, ⟨hr, hβ⟩, hnil⟩ := binary_approved hΓ rfl hl hr h
        exact ⟨.and hl hr hα hβ, hnil⟩
      | or =>
        obtain ⟨⟨hl, hα⟩, ⟨hr, hβ⟩, hnil⟩ := binary_approved hΓ rfl hl hr h
        exact ⟨.or hl hr hα hβ, hnil⟩
  | .nameless _ _, he, _ => he.elim
  | .misplaced _, he, _ => he.elim

theorem typesOf_approves {Γ : Scope} (hΓ : Γ.Proper) : ∀ es : List Expr, Expr.AllProper es →
    (typesOf Γ es).journal.Blameless →
      HaveTypes Γ es (typesOf Γ es).tys ∧ (typesOf Γ es).journal = []
  | [], _, _ => ⟨.nil, rfl⟩
  | e :: es, he, h => by
      rw [typesOf] at h ⊢
      rw [blameless_append] at h
      have hfirst := typeOf_approves hΓ e he.1 h.1
      obtain ⟨hothers, hnil⟩ := typesOf_approves hΓ es he.2 h.2
      refine ⟨.cons hfirst.typed hothers, ?_⟩
      dsimp only
      rw [hfirst.silent, hnil]
      rfl

end

mutual

/-- **An expression that has a type gets it from the checker**, and nothing is written down. -/
theorem typeOf_eq {Γ : Scope} (hΓ : Γ.Proper) : ∀ {e : Expr} {τ : Ty},
    HasType Γ e τ → typeOf Γ e = ⟨τ, []⟩
  | _, _, .int => rfl
  | _, _, .str => rfl
  | _, _, .var hv => by rw [typeOf, varUse, hv]
  | _, _, .index ha hi hint => by
      rw [typeOf, typeOf_eq hΓ ha, typeOf_eq hΓ hi, element,
        (offends_eq_false (hi.proper hΓ)).mpr hint]
      rfl
  | _, _, .system hname hargs hone => by
      rw [typeOf, typesOf_eq hΓ hargs, call, if_pos hname,
        decide_eq_false (Nat.not_lt.mpr hone)]
      rfl
  | _, _, .call hname hargs hf => by
      have herror : ¬ _ = true := Bool.eq_false_iff.mp (any_isError_eq_false (hargs.proper hΓ))
      rw [typeOf, typesOf_eq hΓ hargs, call, if_neg (Bool.eq_false_iff.mp hname), if_neg herror, hf]
  | _, _, .neg he hint => by
      rw [typeOf, typeOf_eq hΓ he, unary, (offends_eq_false (he.proper hΓ)).mpr hint]
      rfl
  | _, _, .not he hbool => by
      rw [typeOf, typeOf_eq hΓ he, unary, (offends_eq_false (he.proper hΓ)).mpr hbool]
      rfl
  | _, _, .address he hvar => by rw [typeOf, typeOf_eq hΓ he, unary, hvar]; rfl
  | _, _, .deref he hvar => by rw [typeOf, typeOf_eq hΓ he, unary, hvar]; rfl
  | _, _, .arith hl hr hα hβ => by
      rw [typeOf, typeOf_eq hΓ hl, typeOf_eq hΓ hr]
      exact binary_eq rfl (hl.proper hΓ) (hr.proper hΓ) hα hβ
  | _, _, .rel hl hr hα hβ => by
      rw [typeOf, typeOf_eq hΓ hl, typeOf_eq hΓ hr]
      exact binary_eq rfl (hl.proper hΓ) (hr.proper hΓ) hα hβ
  | _, _, .and hl hr hα hβ => by
      rw [typeOf, typeOf_eq hΓ hl, typeOf_eq hΓ hr]
      exact binary_eq rfl (hl.proper hΓ) (hr.proper hΓ) hα hβ
  | _, _, .or hl hr hα hβ => by
      rw [typeOf, typeOf_eq hΓ hl, typeOf_eq hΓ hr]
      exact binary_eq rfl (hl.proper hΓ) (hr.proper hΓ) hα hβ

theorem typesOf_eq {Γ : Scope} (hΓ : Γ.Proper) : ∀ {es : List Expr} {τs : List Ty},
    HaveTypes Γ es τs → typesOf Γ es = ⟨τs, []⟩
  | _, _, .nil => rfl
  | _, _, .cons he hes => by
      rw [typesOf, typeOf_eq hΓ he, typesOf_eq hΓ hes]
      rfl

end

end Check

end CMinusMinus
