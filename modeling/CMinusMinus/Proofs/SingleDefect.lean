/-
  File:      CMinusMinus/Proofs/SingleDefect.lean
  Subject:   One defect gives one diagnostic.

  In a program without errors one name is mistaken for another: a variable is used, or a function is
  called, under a name that nothing declares. The checker then finds this one error and no other.
  What the mistaken name stands for has the error type; on its way up the error type either is
  replaced by the type an operator always gives, or it stays, and no rule complains about it.

  * `Expr.Once`, `Stmt.Once`, `Block.Once`, `Decl.Once`, `Program.Once` -- one expression of a tree
    is replaced by another, and all else is the same;
  * `Slip` -- the two mistakes;
  * `Check.typeOf_once` -- what the checker then says of the expressions around the mistake;
  * `one_defect_one_diagnostic` -- **the program has one more diagnostic.**
-/
import CMinusMinus.Proofs.Acceptance

namespace CMinusMinus

/-! ## 1. One change in a tree -/

section Once

variable (R : Expr → Expr → Prop)

/-- One expression inside is replaced as the relation says. -/
inductive Expr.Once : Expr → Expr → Prop where
  | here {e e' : Expr} (h : R e e') : Expr.Once e e'
  | array {pos : Position} {a a' i : Expr} (h : Expr.Once a a') :
      Expr.Once (.index pos a i) (.index pos a' i)
  | subscript {pos : Position} {a i i' : Expr} (h : Expr.Once i i') :
      Expr.Once (.index pos a i) (.index pos a i')
  | argument {pos : Position} {name : String} {before after : List Expr} {e e' : Expr}
      (h : Expr.Once e e') :
      Expr.Once (.call pos name (before ++ e :: after)) (.call pos name (before ++ e' :: after))
  | operand {pos : Position} {op : UnaryOp} {e e' : Expr} (h : Expr.Once e e') :
      Expr.Once (.unary pos op e) (.unary pos op e')
  | left {pos : Position} {op : BinaryOp} {l l' r : Expr} (h : Expr.Once l l') :
      Expr.Once (.binary pos op l r) (.binary pos op l' r)
  | right {pos : Position} {op : BinaryOp} {l r r' : Expr} (h : Expr.Once r r') :
      Expr.Once (.binary pos op l r) (.binary pos op l r')

mutual

/-- One expression of a statement is replaced. -/
inductive Stmt.Once : Stmt → Stmt → Prop where
  | target {pos : Position} {e e' value : Expr} (h : Expr.Once R e e') :
      Stmt.Once (.assign pos e value) (.assign pos e' value)
  | value {pos : Position} {target e e' : Expr} (h : Expr.Once R e e') :
      Stmt.Once (.assign pos target e) (.assign pos target e')
  | call {pos : Position} {e e' : Expr} (h : Expr.Once R e e') :
      Stmt.Once (.call pos e) (.call pos e')
  | ret {pos : Position} {e e' : Expr} (h : Expr.Once R e e') :
      Stmt.Once (.ret pos (some e)) (.ret pos (some e'))
  | ifCond {pos : Position} {e e' : Expr} {yes : Block} (h : Expr.Once R e e') :
      Stmt.Once (.ifThen pos e yes) (.ifThen pos e' yes)
  | ifBody {pos : Position} {cond : Expr} {yes yes' : Block} (h : Block.Once yes yes') :
      Stmt.Once (.ifThen pos cond yes) (.ifThen pos cond yes')
  | elseCond {pos : Position} {e e' : Expr} {yes no : Block} (h : Expr.Once R e e') :
      Stmt.Once (.ifElse pos e yes no) (.ifElse pos e' yes no)
  | thenBody {pos : Position} {cond : Expr} {yes yes' no : Block} (h : Block.Once yes yes') :
      Stmt.Once (.ifElse pos cond yes no) (.ifElse pos cond yes' no)
  | elseBody {pos : Position} {cond : Expr} {yes no no' : Block} (h : Block.Once no no') :
      Stmt.Once (.ifElse pos cond yes no) (.ifElse pos cond yes no')
  | whileCond {pos : Position} {e e' : Expr} {body : Block} (h : Expr.Once R e e') :
      Stmt.Once (.whileLoop pos e body) (.whileLoop pos e' body)
  | whileBody {pos : Position} {cond : Expr} {body body' : Block} (h : Block.Once body body') :
      Stmt.Once (.whileLoop pos cond body) (.whileLoop pos cond body')
  | forInit {pos : Position} {init init' step : Stmt} {cond : Expr} {body : Block}
      (h : Stmt.Once init init') :
      Stmt.Once (.forLoop pos init cond step body) (.forLoop pos init' cond step body)
  | forCond {pos : Position} {init step : Stmt} {e e' : Expr} {body : Block}
      (h : Expr.Once R e e') :
      Stmt.Once (.forLoop pos init e step body) (.forLoop pos init e' step body)
  | forStep {pos : Position} {init step step' : Stmt} {cond : Expr} {body : Block}
      (h : Stmt.Once step step') :
      Stmt.Once (.forLoop pos init cond step body) (.forLoop pos init cond step' body)
  | forBody {pos : Position} {init step : Stmt} {cond : Expr} {body body' : Block}
      (h : Block.Once body body') :
      Stmt.Once (.forLoop pos init cond step body) (.forLoop pos init cond step body')

/-- One expression of a block is replaced. -/
inductive Block.Once : Block → Block → Prop where
  | mk {pos : Position} {ds : List Decl} {before after : List Stmt} {st st' : Stmt}
      (h : Stmt.Once st st') :
      Block.Once (.mk pos ds (before ++ st :: after)) (.mk pos ds (before ++ st' :: after))

end

/-- One expression of a function is replaced. -/
inductive Decl.Once : Decl → Decl → Prop where
  | body {head : FnHead} {params : List Decl} {b b' : Block} (h : Block.Once R b b') :
      Decl.Once (.function head params b) (.function head params b')

/-- **One expression of a program is replaced.** -/
inductive Program.Once : Program → Program → Prop where
  | mk {before after : List Decl} {d d' : Decl} (h : Decl.Once R d d') :
      Program.Once ⟨before ++ d :: after⟩ ⟨before ++ d' :: after⟩

end Once

/-! ## 2. The names of a program -/

/-- The name of a function. -/
def Decl.function? : Decl → Option String
  | .prototype head _ | .function head _ _ => some head.name
  | _ => none

mutual

/-- The names of the variables that a statement declares. -/
def Stmt.variables : Stmt → List String
  | .ifThen _ _ body | .whileLoop _ _ body | .forLoop _ _ _ _ body => body.variables
  | .ifElse _ _ yes no => yes.variables ++ no.variables
  | _ => []

/-- The names of the variables that a block declares. -/
def Block.variables : Block → List String
  | .mk _ ds sts => placedIn ds ++ Stmt.allVariables sts

def Stmt.allVariables : List Stmt → List String
  | [] => []
  | st :: sts => st.variables ++ Stmt.allVariables sts

end

/-- The names of the variables and parameters of a declaration; the parameters of a prototype name
    nothing. -/
def Decl.variables : Decl → List String
  | .function _ params body => placedIn params ++ body.variables
  | d => d.placed?.toList

/-- The names of all variables and parameters of a program. -/
def Program.variables (p : Program) : List String := p.decls.flatMap Decl.variables

/-- The names of all functions of a program. -/
def Program.functions (p : Program) : List String := p.decls.filterMap Decl.function?

/-! ## 3. The two mistakes -/

/-- What a mistaken name was meant to be. -/
inductive Slip where
  | use
  | call
  deriving DecidableEq

namespace Slip

/-- The expression at the position is the same, but for its name. -/
inductive Renames (z : String) (pos : Position) : Slip → Expr → Expr → Prop where
  | use {x : String} : Renames z pos .use (.var pos x) (.var pos z)
  | call {f : String} {args : List Expr} :
      Renames z pos .call (.call pos f args) (.call pos z args)

/-- Nothing of the kind that was meant has the name. -/
def Undeclared (z : String) (p : Program) : Slip → Prop
  | .use => z ∉ p.variables
  | .call => z ∉ p.functions ∧ isSystemCall z = false

instance (z : String) (p : Program) : (s : Slip) → Decidable (s.Undeclared z p)
  | .use => inferInstanceAs (Decidable (z ∉ p.variables))
  | .call => inferInstanceAs (Decidable (z ∉ p.functions ∧ isSystemCall z = false))

/-- What the user is told. -/
def message (z : String) : Slip → String
  | .use => s!"Variable {z} has not been declared"
  | .call => s!"Function {z} has not been declared"

/-- The defect that the checker finds. -/
def defect (z : String) : Slip → Defect
  | .use => .variableUndeclared z
  | .call => .functionUndeclared z

/-- A variable that was meant is none of the names. -/
def Avoids (z : String) (names : List String) (s : Slip) : Prop := s = .use → z ∉ names

/-- The declaration does not give the name to anything of the kind that was meant. -/
def Foreign (z : String) (d : Decl) : Slip → Prop
  | .use => z ∉ d.variables
  | .call => d.function? ≠ some z

/-- The binding is of the kind that was meant. -/
def concerns : Slip → Entry → Bool
  | .use, .variable _ => true
  | .call, .function _ => true
  | _, _ => false

theorem diagnostic_defect (s : Slip) (z : String) (pos : Position) :
    (s.defect z).diagnostic pos = ⟨pos, .semanticError, s.message z⟩ := by
  cases s <;> rfl

theorem Avoids.left {z : String} {xs ys : List String} {s : Slip} (h : s.Avoids z (xs ++ ys)) :
    s.Avoids z xs :=
  fun hs hx => h hs (List.mem_append_left _ hx)

theorem Avoids.right {z : String} {xs ys : List String} {s : Slip} (h : s.Avoids z (xs ++ ys)) :
    s.Avoids z ys :=
  fun hs hy => h hs (List.mem_append_right _ hy)

theorem Foreign.avoids {z : String} {d : Decl} : ∀ {s : Slip}, s.Foreign z d →
    s.Avoids z d.variables
  | .use, h => fun _ => h
  | .call, _ => fun hs => by cases hs

theorem Undeclared.foreign {z : String} {p : Program} : ∀ {s : Slip}, s.Undeclared z p →
    ∀ d ∈ p.decls, s.Foreign z d
  | .use, h, d, hd => fun hz => h (List.mem_flatMap.mpr ⟨d, hd, hz⟩)
  | .call, h, d, hd => fun hz => h.1 (List.mem_filterMap.mpr ⟨d, hd, hz⟩)

theorem Undeclared.system {z : String} {p : Program} : ∀ {s : Slip}, s.Undeclared z p →
    s = .call → isSystemCall z = false
  | .call, h, _ => h.2

end Slip

/-! ## 4. Scopes that lack a name -/

/-- The frame does not bind the name to anything of the kind that was meant. -/
def Frame.Lacks (s : Slip) (z : String) (frame : Frame) : Prop :=
  ∀ b ∈ frame, s.concerns b.2 = true → b.1 ≠ z

/-- A scope in which the name is mistaken. -/
structure Scope.Lacks (s : Slip) (z : String) (Γ : Scope) : Prop where
  frames : ∀ frame ∈ Γ.frames, Frame.Lacks s z frame
  system : s = .call → isSystemCall z = false

theorem Frame.Lacks.var? {z : String} {frame : Frame} (h : Frame.Lacks .use z frame) :
    frame.var? z = none := by
  unfold Frame.var?
  rw [List.findSome?_eq_none_iff]
  intro b hb
  obtain ⟨n, entry⟩ := b
  cases entry with
  | «variable» v => exact if_neg (h _ hb rfl)
  | function f => rfl

theorem Frame.Lacks.function? {z : String} {frame : Frame} (h : Frame.Lacks .call z frame)
    (τs : List Ty) : frame.function? z τs = none := by
  unfold Frame.function?
  rw [List.findSome?_eq_none_iff]
  intro b hb
  obtain ⟨n, entry⟩ := b
  cases entry with
  | «variable» v => rfl
  | function f =>
    have hne : n ≠ z := h _ hb rfl
    simp [hne]

theorem Scope.Lacks.var? {z : String} {Γ : Scope} (h : Γ.Lacks .use z) : Γ.var? z = none := by
  unfold Scope.var?
  rw [List.findSome?_eq_none_iff]
  exact fun frame hframe => (h.frames frame hframe).var?

theorem Scope.Lacks.function? {z : String} {Γ : Scope} (h : Γ.Lacks .call z) (τs : List Ty) :
    Γ.function? z τs = none :=
  (h.frames Γ.globals (List.mem_append_right _ List.mem_cons_self)).function? τs

theorem Scope.lacks_globals {s : Slip} {z : String} {globals : Frame}
    (h : Frame.Lacks s z globals) (hsystem : s = .call → isSystemCall z = false) :
    Scope.Lacks s z { globals := globals } :=
  ⟨fun frame hframe => by rw [List.mem_singleton.mp hframe]; exact h, hsystem⟩

theorem Scope.Lacks.push {s : Slip} {z : String} {Γ : Scope} (h : Γ.Lacks s z) {frame : Frame}
    (hframe : Frame.Lacks s z frame) : (Γ.push frame).Lacks s z :=
  ⟨List.forall_mem_cons.mpr ⟨hframe, h.frames⟩, h.system⟩

theorem Frame.lacks_nil (s : Slip) (z : String) : Frame.Lacks s z [] :=
  fun _ h => absurd h List.not_mem_nil

/-- A declaration under another name, or of another kind, does not bind the name. -/
theorem Frame.Lacks.add {s : Slip} {z name : String} {entry : Entry} {frame frame' : Frame}
    (h : Frame.Lacks s z frame) (hadd : frame.add name entry = .ok frame')
    (hentry : s.concerns entry = true → name ≠ z) : Frame.Lacks s z frame' := by
  intro b hb
  rcases Frame.mem_of_add hadd b hb with hold | hnew
  · exact h b hold
  · rw [hnew]
    exact hentry

/-- Declarations of variables and parameters under other names do not bind the name. -/
theorem Frame.Lacks.declares {s : Slip} {z : String} {frame frame' : Frame} {ds : List Decl}
    (h : Frame.Lacks s z frame) (hds : Declares frame ds frame')
    (hz : s.Avoids z (placedIn ds)) : Frame.Lacks s z frame' := by
  have hother : ∀ {name : String} {names : List String} {v : Variable},
      s.Avoids z (name :: names) → s.concerns (.variable v) = true → name ≠ z := by
    intro name names v hz hconcerns hname
    cases s with
    | use => exact hz rfl (hname ▸ List.mem_cons_self)
    | call => cases hconcerns
  induction hds with
  | nil => exact h
  | var hadd _ ih =>
    exact ih (h.add hadd (hother hz)) fun hs hmem => hz hs (List.mem_cons_of_mem _ hmem)
  | param _ hadd _ ih =>
    exact ih (h.add hadd (hother hz)) fun hs hmem => hz hs (List.mem_cons_of_mem _ hmem)

/-- A declaration at the top that does not give the name away does not bind it. -/
theorem Frame.Lacks.wellTyped {s : Slip} {z : String} {globals globals' : Frame} {d : Decl}
    (h : Frame.Lacks s z globals) (hd : d.WellTyped globals globals') (hz : s.Foreign z d) :
    Frame.Lacks s z globals' := by
  have hfunction : ∀ {f : Signature} {name : String}, d.function? = some name →
      s.concerns (.function f) = true → name ≠ z := by
    intro f name hname hconcerns hsame
    cases s with
    | use => cases hconcerns
    | call => exact hz (hsame ▸ hname)
  cases hd with
  | var hadd =>
    refine h.add hadd fun hconcerns hsame => ?_
    cases s with
    | use => exact hz (hsame ▸ List.mem_singleton.mpr rfl)
    | call => cases hconcerns
  | prototype _ _ hadd => exact h.add hadd (hfunction rfl)
  | function _ _ hadd _ => exact h.add hadd (hfunction rfl)

/-! ## 5. Expressions around the mistake -/

/-- The arguments of a typed call have types. -/
theorem HasType.arguments {Γ : Scope} {site : Position} {name : String} {args : List Expr} {τ : Ty}
    (h : HasType Γ (.call site name args) τ) : ∃ τs, HaveTypes Γ args τs := by
  cases h with
  | system _ hargs _ => exact ⟨_, hargs⟩
  | call _ hargs _ => exact ⟨_, hargs⟩

/-- What a typed binary operator asks of its operands. -/
theorem HasType.binary_inv {Γ : Scope} {site : Position} {op : BinaryOp} {l r : Expr}
    {τ : Ty} (h : HasType Γ (.binary site op l r) τ) :
    ∃ wanted α β, Check.operatorRule op = .ok (wanted, τ) ∧
      HasType Γ l α ∧ HasType Γ r β ∧ α.name = wanted ∧ β.name = wanted := by
  cases h with
  | arith hl hr hα hβ => exact ⟨_, _, _, rfl, hl, hr, hα, hβ⟩
  | rel hl hr hα hβ => exact ⟨_, _, _, rfl, hl, hr, hα, hβ⟩
  | and hl hr hα hβ => exact ⟨_, _, _, rfl, hl, hr, hα, hβ⟩
  | or hl hr hα hβ => exact ⟨_, _, _, rfl, hl, hr, hα, hβ⟩

namespace Check

open Journal

/-- What the checker says of an expression that had a type before the mistake: the one report, and
    the type from before or the error type. -/
structure Verdict.Mistaken (pos : Position) (d : Defect) (τ : Ty) (v : Verdict) : Prop where
  reported : v.journal = report pos d
  kept : v.ty = τ ∨ v.ty.isError = true

/-- The same of several expressions. -/
structure Verdicts.Mistaken (pos : Position) (d : Defect) (τs : List Ty) (v : Verdicts) : Prop where
  reported : v.journal = report pos d
  kept : v.tys = τs ∨ v.tys.any Ty.isError = true
  length : v.tys.length = τs.length

section Verdicts

variable {pos site : Position} {d : Defect} {α β τ : Ty} {v : Verdict}

/-- **A rule that says nothing of the error type, and said nothing before, says nothing.** -/
theorem Verdict.Mistaken.quiet (h : v.Mistaken pos d τ) (complains : Ty → Bool)
    (herror : ∀ t : Ty, t.isError = true → complains t = false) (hτ : complains τ = false) :
    complains v.ty = false := by
  rcases h.kept with hsame | hbad
  · rw [hsame]
    exact hτ
  · exact herror _ hbad

theorem Verdict.Mistaken.offends (h : v.Mistaken pos d τ) {wanted : String} (hτ : τ.Proper)
    (hname : τ.name = wanted) : offends wanted v.ty = false := by
  refine h.quiet (Check.offends wanted) (fun t ht => ?_) ((offends_eq_false hτ).mpr hname)
  simp [Check.offends, ht]

theorem mistaken_array (h : v.Mistaken pos d α) (hβ : β.Proper) (hint : β.name = "int") :
    (element site v ⟨β, []⟩).Mistaken pos d α.element := by
  refine ⟨?_, h.kept.imp (congrArg Ty.element) id⟩
  rw [element, (offends_eq_false hβ).mpr hint, h.reported]
  rfl

theorem mistaken_subscript (h : v.Mistaken pos d β) (hβ : β.Proper) (hint : β.name = "int") :
    (element site ⟨α, []⟩ v).Mistaken pos d α.element := by
  refine ⟨?_, Or.inl rfl⟩
  rw [element, h.offends hβ hint, h.reported]
  rfl

/-- An operator that gives one type whatever its operand is. -/
theorem mistaken_operand {wanted : String} {fault : Defect} (h : v.Mistaken pos d β)
    (hβ : β.Proper) (hname : β.name = wanted) :
    Verdict.Mistaken pos d τ
      ⟨τ, v.journal ++ complainIf (offends wanted v.ty) site fault⟩ := by
  refine ⟨?_, Or.inl rfl⟩
  rw [h.offends hβ hname, h.reported]
  rfl

/-- An operator on a variable keeps the type of its operand. -/
theorem mistaken_variable {fault : Defect} {isVar : Bool} (h : v.Mistaken pos d τ)
    (hvar : isVar = true) :
    Verdict.Mistaken pos d τ ⟨v.ty, v.journal ++ complainIf (!isVar) site fault⟩ := by
  refine ⟨?_, h.kept⟩
  rw [hvar, h.reported]
  rfl

/-- A binary operator on operands that do not clash, of which one tells of the mistake. -/
theorem mistaken_binary {op : BinaryOp} {wanted : String} {l r : Verdict}
    (hop : operatorRule op = .ok (wanted, τ)) (hreported : l.journal ++ r.journal = report pos d)
    (hquiet : (!l.ty.isError && !r.ty.isError && (l.ty.name != wanted || r.ty.name != wanted)) =
      false) : (binary site op l r).Mistaken pos d τ := by
  unfold binary
  simp only [hop]
  refine ⟨?_, Or.inl rfl⟩
  rw [hquiet, hreported]
  rfl

theorem mistaken_left {op : BinaryOp} {wanted : String} (h : v.Mistaken pos d α)
    (hop : operatorRule op = .ok (wanted, τ)) (hα : α.Proper) (hβ : β.Proper)
    (hα' : α.name = wanted) (hβ' : β.name = wanted) :
    (binary site op v ⟨β, []⟩).Mistaken pos d τ :=
  mistaken_binary hop ((List.append_nil _).trans h.reported) <|
    h.quiet (fun t => !t.isError && !β.isError && (t.name != wanted || β.name != wanted))
      (fun t ht => by simp [ht]) ((clash_eq_false hα hβ).mpr ⟨hα', hβ'⟩)

theorem mistaken_right {op : BinaryOp} {wanted : String} (h : v.Mistaken pos d β)
    (hop : operatorRule op = .ok (wanted, τ)) (hα : α.Proper) (hβ : β.Proper)
    (hα' : α.name = wanted) (hβ' : β.name = wanted) :
    (binary site op ⟨α, []⟩ v).Mistaken pos d τ :=
  mistaken_binary hop h.reported <|
    h.quiet (fun t => !α.isError && !t.isError && (α.name != wanted || t.name != wanted))
      (fun t ht => by simp [ht]) ((clash_eq_false hα hβ).mpr ⟨hα', hβ'⟩)

end Verdicts

section Expressions

variable {s : Slip} {z : String} {pos : Position} {Γ : Scope} (hΓ : Γ.Proper)

include hΓ

/-- The mistake itself: what the name stands for has the error type. -/
theorem typeOf_renames (hz : Γ.Lacks s z) {e e' : Expr} (h : Slip.Renames z pos s e e') {τ : Ty}
    (he : HasType Γ e τ) : (typeOf Γ e').Mistaken pos (s.defect z) τ := by
  cases h with
  | use =>
    rw [typeOf, varUse, hz.var?]
    exact ⟨rfl, Or.inr rfl⟩
  | call =>
    obtain ⟨τs, hargs⟩ := he.arguments
    have hsystem := Bool.eq_false_iff.mp (hz.system rfl)
    have herror := Bool.eq_false_iff.mp (any_isError_eq_false (hargs.proper hΓ))
    rw [typeOf, typesOf_eq hΓ hargs, call, if_neg hsystem, if_neg herror, hz.function?]
    exact ⟨rfl, Or.inr rfl⟩

/-- Arguments one of which holds the mistake. -/
theorem typesOf_mistaken {d : Defect} {e e' : Expr} {after : List Expr}
    (hmistaken : ∀ {τ : Ty}, HasType Γ e τ → (typeOf Γ e').Mistaken pos d τ) :
    ∀ {before : List Expr} {τs : List Ty}, HaveTypes Γ (before ++ e :: after) τs →
      (typesOf Γ (before ++ e' :: after)).Mistaken pos d τs
  | [], _, .cons he hafter => by
      have h := hmistaken he
      rw [List.nil_append, typesOf, typesOf_eq hΓ hafter]
      refine ⟨(List.append_nil _).trans h.reported, ?_, rfl⟩
      rcases h.kept with hsame | hbad
      · exact Or.inl (congrArg (· :: _) hsame)
      · exact Or.inr (List.any_eq_true.mpr ⟨_, List.mem_cons_self, hbad⟩)
  | _ :: _, _, .cons he hothers => by
      have h := typesOf_mistaken hmistaken hothers
      rw [List.cons_append, typesOf, typeOf_eq hΓ he]
      refine ⟨h.reported, ?_, congrArg (· + 1) h.length⟩
      rcases h.kept with hsame | hbad
      · exact Or.inl (congrArg (_ :: ·) hsame)
      · exact Or.inr (by rw [List.any_cons, hbad, Bool.or_true])

/-- A call with the mistake in an argument: no function is looked for if the argument has the error
    type, and otherwise the same is found. -/
theorem call_mistaken {d : Defect} {site : Position} {name : String} {args : List Expr} {τ : Ty}
    {found : Verdicts} (h : HasType Γ (.call site name args) τ)
    (hfound : ∀ {τs : List Ty}, HaveTypes Γ args τs → found.Mistaken pos d τs) :
    (call Γ site name found).Mistaken pos d τ := by
  cases h with
  | system hname hargs hone =>
    have hargs' := hfound hargs
    rw [call, if_pos hname, hargs'.length, decide_eq_false (Nat.not_lt.mpr hone)]
    exact ⟨(List.append_nil _).trans hargs'.reported, Or.inl rfl⟩
  | call hname hargs hf =>
    have hargs' := hfound hargs
    rw [call, if_neg (Bool.eq_false_iff.mp hname)]
    rcases hargs'.kept with hsame | hbad
    · have herror := Bool.eq_false_iff.mp (any_isError_eq_false (hargs.proper hΓ))
      rw [hsame, if_neg herror, hf]
      exact ⟨hargs'.reported, Or.inl rfl⟩
    · rw [if_pos hbad]
      exact ⟨hargs'.reported, Or.inr rfl⟩

omit hΓ in
/-- A mistake in a variable leaves a variable. -/
theorem isVar_once {e e' : Expr} (h : Expr.Once (Slip.Renames z pos s) e e')
    (hvar : e.isVar = true) : e'.isVar = true := by
  cases h with
  | here hr =>
    cases hr with
    | use => rfl
    | call => cases hvar
  | array _ => cases hvar
  | subscript _ => cases hvar
  | argument _ => cases hvar
  | operand _ => cases hvar
  | left _ => cases hvar
  | right _ => cases hvar

/-- **An expression around the mistake: the mistake is reported and nothing else.** -/
theorem typeOf_once (hz : Γ.Lacks s z) {e e' : Expr} (h : Expr.Once (Slip.Renames z pos s) e e') :
    ∀ {τ : Ty}, HasType Γ e τ → (typeOf Γ e').Mistaken pos (s.defect z) τ := by
  induction h with
  | here hr => exact fun he => typeOf_renames hΓ hz hr he
  | array _ ih =>
    intro τ he
    cases he with
    | index ha hi hint =>
      rw [typeOf, typeOf_eq hΓ hi]
      exact mistaken_array (ih ha) (hi.proper hΓ) hint
  | subscript _ ih =>
    intro τ he
    cases he with
    | index ha hi hint =>
      rw [typeOf, typeOf_eq hΓ ha]
      exact mistaken_subscript (ih hi) (hi.proper hΓ) hint
  | argument _ ih =>
    intro τ he
    rw [typeOf]
    exact call_mistaken hΓ he (typesOf_mistaken hΓ ih)
  | operand ho ih =>
    intro τ he
    cases he with
    | neg he hint => exact mistaken_operand (ih he) (he.proper hΓ) hint
    | not he hbool => exact mistaken_operand (ih he) (he.proper hΓ) hbool
    | address he hvar => exact mistaken_variable (ih he) (isVar_once ho hvar)
    | deref he hvar => exact mistaken_variable (ih he) (isVar_once ho hvar)
  | left _ ih =>
    intro τ he
    obtain ⟨wanted, α, β, hop, hl, hr, hα, hβ⟩ := he.binary_inv
    rw [typeOf, typeOf_eq hΓ hr]
    exact mistaken_left (ih hl) hop (hl.proper hΓ) (hr.proper hΓ) hα hβ
  | right _ ih =>
    intro τ he
    obtain ⟨wanted, α, β, hop, hl, hr, hα, hβ⟩ := he.binary_inv
    rw [typeOf, typeOf_eq hΓ hl]
    exact mistaken_right (ih hr) hop (hl.proper hΓ) (hr.proper hΓ) hα hβ

end Expressions

/-! ## 6. Statements around the mistake -/

/-- The second journal is the first one with a report put in. -/
def Inserts (r j j' : Journal) : Prop := ∃ before after, j = before ++ after ∧
  j' = before ++ (r ++ after)

section Inserts

variable {r i j j' : Journal}

theorem inserts_self (r : Journal) : Inserts r [] r := ⟨[], [], rfl, (List.append_nil r).symm⟩

theorem Inserts.behind (h : Inserts r j j') (i : Journal) : Inserts r (i ++ j) (i ++ j') := by
  obtain ⟨before, after, hj, hj'⟩ := h
  refine ⟨i ++ before, after, ?_, ?_⟩
  · rw [hj, List.append_assoc]
  · rw [hj', List.append_assoc]

theorem Inserts.before (h : Inserts r j j') (i : Journal) : Inserts r (j ++ i) (j' ++ i) := by
  obtain ⟨before, after, hj, hj'⟩ := h
  refine ⟨before, after ++ i, ?_, ?_⟩
  · rw [hj, List.append_assoc]
  · rw [hj', List.append_assoc, List.append_assoc]

end Inserts

section Parts

variable {s : Slip} {z : String} {pos : Position} {ret : Ty} {Γ : Scope} (hΓ : Γ.Proper)
  (hz : Γ.Lacks s z)

include hΓ hz

theorem condition_once {e e' : Expr} (h : Expr.Once (Slip.Renames z pos s) e e')
    (he : IsTruth Γ e) :
    Inserts (report pos (s.defect z)) (condition Γ e) (condition Γ e') := by
  obtain ⟨τ, hτ, hbool⟩ := he
  have hproper := hτ.proper hΓ
  have hmistaken := typeOf_once hΓ hz h hτ
  unfold condition
  dsimp only
  rw [typeOf_eq hΓ hτ, (offends_eq_false hproper).mpr hbool, hmistaken.offends hproper hbool,
    hmistaken.reported]
  exact (inserts_self _).before []

omit hz in
/-- An assignment that was well typed, between sides that do not clash, of which one tells of the
    mistake. -/
theorem assignment_once {d : Defect} {target target' value value' : Expr} {α β : Ty}
    (htarget : HasType Γ target α) (hvalue : HasType Γ value β) (hagree : α.agrees β = true)
    (hreported : (typeOf Γ target').journal ++ (typeOf Γ value').journal = report pos d)
    (hquiet : (!(typeOf Γ target').ty.isError && !(typeOf Γ value').ty.isError &&
      !(typeOf Γ target').ty.agrees (typeOf Γ value').ty) = false) :
    Inserts (report pos d) (assignment Γ target value) (assignment Γ target' value') := by
  unfold assignment
  dsimp only
  rw [typeOf_eq hΓ htarget, typeOf_eq hΓ hvalue, hagree, hreported, hquiet]
  simpa using inserts_self (report pos d)

theorem target_once {e e' value : Expr} {α β : Ty} (h : Expr.Once (Slip.Renames z pos s) e e')
    (he : HasType Γ e α) (hvalue : HasType Γ value β) (hagree : α.agrees β = true) :
    Inserts (report pos (s.defect z)) (assignment Γ e value) (assignment Γ e' value) := by
  have hmistaken := typeOf_once hΓ hz h he
  have hsilent := typeOf_eq hΓ hvalue
  refine assignment_once hΓ he hvalue hagree ?_ ?_
  · rw [hmistaken.reported, hsilent]
    exact List.append_nil _
  · rw [hsilent]
    exact hmistaken.quiet (fun t => !t.isError && !β.isError && !t.agrees β)
      (fun t ht => by simp [ht]) (by simp [hagree])

theorem value_once {target e e' : Expr} {α β : Ty} (h : Expr.Once (Slip.Renames z pos s) e e')
    (htarget : HasType Γ target α) (he : HasType Γ e β) (hagree : α.agrees β = true) :
    Inserts (report pos (s.defect z)) (assignment Γ target e) (assignment Γ target e') := by
  have hmistaken := typeOf_once hΓ hz h he
  have hsilent := typeOf_eq hΓ htarget
  refine assignment_once hΓ htarget he hagree ?_ ?_
  · rw [hmistaken.reported, hsilent]
    rfl
  · rw [hsilent]
    exact hmistaken.quiet (fun t => !α.isError && !t.isError && !α.agrees t)
      (fun t ht => by simp [ht]) (by simp [hagree])

theorem returned_once {site : Position} {e e' : Expr} {τ : Ty}
    (h : Expr.Once (Slip.Renames z pos s) e e') (he : HasType Γ e τ)
    (hagree : τ.agrees ret = true) :
    Inserts (report pos (s.defect z)) (returned ret Γ site (some e))
      (returned ret Γ site (some e')) := by
  have hmistaken := typeOf_once hΓ hz h he
  have hquiet := hmistaken.quiet (fun t => !t.isError && !t.agrees ret)
    (fun t ht => by simp [ht]) (by simp [hagree])
  unfold returned
  dsimp only
  rw [typeOf_eq hΓ he, hagree, hquiet, hmistaken.reported]
  simpa using inserts_self (report pos (s.defect z))

end Parts

/-- A clause of a `for` declares nothing. -/
theorem avoids_clause {s : Slip} {z : String} {st : Stmt} (h : st.IsClause) :
    s.Avoids z st.variables := by
  cases h with
  | assign => exact fun _ => List.not_mem_nil
  | call => exact fun _ => List.not_mem_nil

/-- Statements one after the other, one of which holds the mistake. -/
theorem stmts_once {s : Slip} {z : String} {r : Journal} {ret : Ty} {Γ : Scope} {st st' : Stmt}
    {after : List Stmt}
    (hone : st.Proper → st.WellTyped ret Γ → s.Avoids z st.variables →
      Inserts r (stmt ret Γ st) (stmt ret Γ st')) :
    ∀ {before : List Stmt}, Stmt.AllProper (before ++ st :: after) →
      Stmt.AllWellTyped ret Γ (before ++ st :: after) →
      s.Avoids z (Stmt.allVariables (before ++ st :: after)) →
      Inserts r (stmts ret Γ (before ++ st :: after)) (stmts ret Γ (before ++ st' :: after))
  | [], hproper, .cons hst _, hnames => by
      rw [List.nil_append, List.nil_append, stmts, stmts]
      exact (hone hproper.1 hst hnames.left).before _
  | _ :: _, hproper, .cons _ hothers, hnames => by
      rw [List.cons_append, List.cons_append, stmts, stmts]
      exact (stmts_once hone hproper.2 hothers hnames.right).behind _

mutual

/-- **A statement with the mistake inside: the journal has the one report more.** -/
theorem stmt_once {s : Slip} {z : String} {pos : Position} {ret : Ty} : ∀ {st st' : Stmt},
    Stmt.Once (Slip.Renames z pos s) st st' → ∀ {Γ : Scope}, Γ.Proper → Γ.Lacks s z → st.Proper →
      st.WellTyped ret Γ → s.Avoids z st.variables →
      Inserts (report pos (s.defect z)) (stmt ret Γ st) (stmt ret Γ st')
  | _, _, .target h, _, hΓ, hz, _, .assign htarget hvalue hagree, _ => by
      rw [stmt, stmt]
      exact target_once hΓ hz h htarget hvalue hagree
  | _, _, .value h, _, hΓ, hz, _, .assign htarget hvalue hagree, _ => by
      rw [stmt, stmt]
      exact value_once hΓ hz h htarget hvalue hagree
  | _, _, .call h, _, hΓ, hz, _, .call he, _ => by
      rw [stmt, stmt, typeOf_eq hΓ he, (typeOf_once hΓ hz h he).reported]
      exact inserts_self _
  | _, _, .ret h, _, hΓ, hz, _, .retSome he hagree, _ => by
      rw [stmt, stmt]
      exact returned_once hΓ hz h he hagree
  | _, _, .ifCond h, _, hΓ, hz, _, .ifThen hcond _, _ => by
      rw [stmt, stmt]
      exact (condition_once hΓ hz h hcond).before _
  | _, _, .ifBody h, _, hΓ, hz, hst, .ifThen _ hbody, hnames => by
      rw [stmt, stmt]
      exact (block_once h hΓ hz Frame.proper_nil (Frame.lacks_nil s z) hst.2 hbody hnames).behind _
  | _, _, .elseCond h, _, hΓ, hz, _, .ifElse hcond _ _, _ => by
      rw [stmt, stmt]
      exact ((condition_once hΓ hz h hcond).before _).before _
  | _, _, .thenBody h, _, hΓ, hz, hst, .ifElse _ hthen _, hnames => by
      have hbody := block_once h hΓ hz Frame.proper_nil (Frame.lacks_nil s z) hst.2.1 hthen
        hnames.left
      rw [stmt, stmt]
      exact (hbody.behind _).before _
  | _, _, .elseBody h, _, hΓ, hz, hst, .ifElse _ _ helse, hnames => by
      rw [stmt, stmt]
      exact (block_once h hΓ hz Frame.proper_nil (Frame.lacks_nil s z) hst.2.2 helse
        hnames.right).behind _
  | _, _, .whileCond h, _, hΓ, hz, _, .whileLoop hcond _, _ => by
      rw [stmt, stmt]
      exact (condition_once hΓ hz h hcond).before _
  | _, _, .whileBody h, _, hΓ, hz, hst, .whileLoop _ hbody, hnames => by
      rw [stmt, stmt]
      exact (block_once h hΓ hz Frame.proper_nil (Frame.lacks_nil s z) hst.2 hbody hnames).behind _
  | _, _, .forInit h, _, hΓ, hz, hst, .forLoop hinit _ _ _, _ => by
      have hclause := stmt_once h hΓ hz hst.1.proper hinit (avoids_clause hst.1)
      rw [stmt, stmt]
      exact ((hclause.before _).before _).before _
  | _, _, .forCond h, _, hΓ, hz, _, .forLoop _ hcond _ _, _ => by
      rw [stmt, stmt]
      exact (((condition_once hΓ hz h hcond).behind _).before _).before _
  | _, _, .forStep h, _, hΓ, hz, hst, .forLoop _ _ hstep _, _ => by
      have hclause := stmt_once h hΓ hz hst.2.2.1.proper hstep (avoids_clause hst.2.2.1)
      rw [stmt, stmt]
      exact (hclause.behind _).before _
  | _, _, .forBody h, _, hΓ, hz, hst, .forLoop _ _ _ hbody, hnames => by
      rw [stmt, stmt]
      exact (block_once h hΓ hz Frame.proper_nil (Frame.lacks_nil s z) hst.2.2.2 hbody
        hnames).behind _

theorem block_once {s : Slip} {z : String} {pos : Position} {ret : Ty} : ∀ {b b' : Block},
    Block.Once (Slip.Renames z pos s) b b' → ∀ {Γ : Scope} {frame : Frame}, Γ.Proper →
      Γ.Lacks s z → Frame.Proper frame → Frame.Lacks s z frame → b.Proper →
      b.WellTyped ret Γ frame → s.Avoids z b.variables →
      Inserts (report pos (s.defect z)) (block ret (Γ.push frame) b) (block ret (Γ.push frame) b')
  | _, _, .mk h, Γ, _, hΓ, hz, hframe, hlacks, hb, .mk hdecls hstmts, hnames => by
      have hinside := hΓ.push (hdecls.proper (binding_of_variables hb.1) hframe)
      have hlacks' := hz.push (hlacks.declares hdecls hnames.left)
      rw [block, block, decls_scope hdecls]
      exact (stmts_once (stmt_once h hinside hlacks') hb.2 hstmts hnames.right).behind _

end

/-! ## 7. Programs -/

section Programs

variable {s : Slip} {z : String} {pos : Position} {globals globals' : Frame} {d d' : Decl}

/-- A function with the mistake inside. -/
theorem decl_once (hsystem : s = .call → isSystemCall z = false)
    (h : Decl.Once (Slip.Renames z pos s) d d') (hglobals : Frame.Proper globals)
    (hlacks : Frame.Lacks s z globals) (hd : d.Proper) (hwell : d.WellTyped globals globals')
    (hz : s.Foreign z d) :
    Inserts (report pos (s.defect z)) (decl { globals := globals } d).2
      (decl { globals := globals } d').2 := by
  have hproper' := Scope.proper_globals (hwell.proper hd hglobals)
  have hlacks' := Scope.lacks_globals (hlacks.wellTyped hwell hz) hsystem
  have hnames := hz.avoids
  cases h with
  | body hbody =>
    cases hwell with
    | function htys hparams hadd hblock =>
      cases hd with
      | var hvar => cases hvar
      | function _ hvars hproper =>
        have hformals := hparams.proper (binding_of_params hvars) Frame.proper_nil
        have hformals' := (Frame.lacks_nil s z).declares hparams hnames.left
        rw [decl, decl, functionDecl_scope htys hadd, decls_scope hparams, Scope.top_push]
        exact (block_once hbody hproper' hlacks' hformals hformals' hproper hblock
          hnames.right).behind _

/-- Declarations one after the other, one of which holds the mistake. -/
theorem decls_once (hsystem : s = .call → isSystemCall z = false)
    (h : Decl.Once (Slip.Renames z pos s) d d') {after : List Decl} :
    ∀ {before : List Decl} {globals globals' : Frame}, Frame.Proper globals →
      Frame.Lacks s z globals → (∀ c ∈ before ++ d :: after, c.Proper) →
      (∀ c ∈ before ++ d :: after, s.Foreign z c) →
      Decl.AllWellTyped globals (before ++ d :: after) globals' →
      Inserts (report pos (s.defect z)) (decls { globals := globals } (before ++ d :: after)).2
        (decls { globals := globals } (before ++ d' :: after)).2
  | [], globals, _, hglobals, hlacks, hproper, hz, .cons hd _ => by
      have hfirst := decl_once hsystem h hglobals hlacks (hproper d List.mem_cons_self) hd
        (hz d List.mem_cons_self)
      -- the changed function leaves the same globals
      have hsame : (decl { globals := globals } d').1 = (decl { globals := globals } d).1 := by
        cases h
        rfl
      rw [List.nil_append, List.nil_append, decls, decls, hsame]
      exact hfirst.before _
  | c :: _, _, _, hglobals, hlacks, hproper, hz, .cons hc hothers => by
      have hc' := hproper c List.mem_cons_self
      rw [List.cons_append, List.cons_append, decls, decls, decl_scope hc]
      exact (decls_once hsystem h (hc.proper hc' hglobals)
        (hlacks.wellTyped hc (hz c List.mem_cons_self))
        (fun e he => hproper e (List.mem_cons_of_mem _ he))
        (fun e he => hz e (List.mem_cons_of_mem _ he)) hothers).behind _

end Programs

/-- **A program with the mistake: the journal before the summary has the one report more.** -/
theorem program_once {s : Slip} {z : String} {pos : Position} {p p' : Program} (hp : p.Proper)
    (hwell : p.WellTyped) (hz : s.Undeclared z p) (h : Program.Once (Slip.Renames z pos s) p p') :
    Inserts (report pos (s.defect z)) (decls {} p.decls).2 (decls {} p'.decls).2 := by
  obtain ⟨globals, hdecls⟩ := hwell
  cases h with
  | mk hd =>
    exact decls_once hz.system hd Frame.proper_nil (Frame.lacks_nil s z) hp hz.foreign hdecls

/-- The summary at the end of a check is no diagnostic. -/
theorem diagnostics_program (p : Program) :
    (program p).diagnostics = (decls {} p.decls).2.diagnostics := by
  unfold program
  rw [diagnostics_append]
  exact List.append_nil _

end Check

/-- The diagnostics of one severity. -/
def Diagnostic.ofSeverity (severity : Severity) (ds : List Diagnostic) : List Diagnostic :=
  ds.filter fun d => d.severity == severity

theorem Diagnostic.ofSeverity_append (severity : Severity) (ds ds' : List Diagnostic) :
    ofSeverity severity (ds ++ ds') = ofSeverity severity ds ++ ofSeverity severity ds' :=
  List.filter_append _ _

/-- A journal without blame has no semantic error among its diagnostics. -/
theorem Journal.Blameless.ofSeverity {j : Journal} (h : j.Blameless) :
    Diagnostic.ofSeverity .semanticError j.diagnostics = [] :=
  List.filter_eq_nil_iff.mpr fun d hd hsame => h d hd (beq_iff_eq.mp hsame)

/-- A mistake that is reported is one semantic error. -/
theorem Slip.diagnostics_report (s : Slip) (z : String) (pos : Position) :
    (Journal.report pos (s.defect z)).diagnostics = [⟨pos, .semanticError, s.message z⟩] := by
  rw [← s.diagnostic_defect z pos]
  rfl

/-- **One defect, one diagnostic.** In a program without semantic errors one name is mistaken: the
    check of the changed program ends, with one semantic error at the mistaken name and with the
    warnings from before. -/
theorem one_defect_one_diagnostic {source : List Char} {p p' : Program} {s : Slip} {z : String}
    {pos : Position} (hp : Program.ofSource? source = some p) (haccepted : p.Accepted)
    (hz : s.Undeclared z p) (h : Program.Once (Slip.Renames z pos s) p p') :
    (Check.program p').fault? = none ∧
      Diagnostic.ofSeverity .semanticError (Check.program p').diagnostics =
        [⟨pos, .semanticError, s.message z⟩] ∧
      Diagnostic.ofSeverity .semanticWarning (Check.program p').diagnostics =
        Diagnostic.ofSeverity .semanticWarning (Check.program p).diagnostics := by
  have hproper := Program.proper_ofSource? hp
  obtain ⟨before, after, hold, hnew⟩ :=
    Check.program_once hproper (hproper.wellTyped haccepted) hz h
  -- what stands around the report is the journal from before, without faults and without blame
  have hends : Journal.Faultless (before ++ after) :=
    hold ▸ (Journal.faultless_append.mp (Check.program_faultless hproper)).1
  have hquiet : Journal.Blameless (before ++ after) :=
    hold ▸ (Journal.blameless_append.mp (Journal.blameless_iff.mpr haccepted)).1
  rw [Journal.faultless_append] at hends
  rw [Journal.blameless_append] at hquiet
  rw [Check.diagnostics_program, Check.diagnostics_program, hold, hnew]
  simp only [Journal.diagnostics_append, Diagnostic.ofSeverity_append, s.diagnostics_report]
  refine ⟨Journal.faultless_iff.mp ?_, ?_, rfl⟩
  · unfold Check.program
    dsimp only
    rw [hnew]
    simp [hends]
  · rw [hquiet.1.ofSeverity, hquiet.2.ofSeverity]
    rfl

/-- A global built on void, which is advised against, and a use of a global deep in a function. -/
def fillToLimit : String :=
  "void *old; int limit;
int fill(int n) \x7b
  int a[4];
  while (n < 4) \x7b a[n] = fill(n + limit); \x7d
  return n;
\x7d"

/-- Its tree, with a name in the place of that use. -/
def fillTo (name : String) : Program :=
  ⟨[.variable ⟨1, 1⟩ "old" ⟨"void", 1, none⟩,
    .variable ⟨1, 12⟩ "limit" .int,
    .function ⟨⟨2, 1⟩, "fill", .int⟩ [.parameter ⟨2, 10⟩ "n" .int]
      (.mk ⟨2, 17⟩ [.variable ⟨3, 3⟩ "a" ⟨"int", 0, some 4⟩]
        [.whileLoop ⟨4, 3⟩ (.binary ⟨4, 10⟩ (.rel .lt) (.var ⟨4, 10⟩ "n") (.int ⟨4, 14⟩ 4))
          (.mk ⟨4, 17⟩ []
            [.assign ⟨4, 19⟩ (.index ⟨4, 19⟩ (.var ⟨4, 19⟩ "a") (.var ⟨4, 21⟩ "n"))
              (.call ⟨4, 26⟩ "fill"
                [.binary ⟨4, 31⟩ (.arith .add) (.var ⟨4, 31⟩ "n") (.var ⟨4, 35⟩ name)])]),
          .ret ⟨5, 3⟩ (some (.var ⟨5, 10⟩ "n"))])]⟩

/-- The use of the global is mistaken. -/
theorem fillTo_once :
    Program.Once (Slip.Renames "top" ⟨4, 35⟩ .use) (fillTo "limit") (fillTo "top") :=
  @Program.Once.mk _ [_, _] [] _ _ (.body (@Block.Once.mk _ _ _ [] [_] _ _
    (.whileBody (@Block.Once.mk _ _ _ [] [] _ _ (.value
      (@Expr.Once.argument _ _ _ [] [] _ _ (.right (.here .use))))))))

/-- The mistake is reported beside the advice against the first global. -/
theorem one_defect_one_diagnostic_fillTo :
    Program.ofSource? fillToLimit.toList = some (fillTo "limit") ∧ (fillTo "limit").Accepted ∧
      (Check.program (fillTo "top")).fault? = none ∧
      Diagnostic.ofSeverity .semanticError (Check.program (fillTo "top")).diagnostics =
        [⟨⟨4, 35⟩, .semanticError, "Variable top has not been declared"⟩] ∧
      Diagnostic.ofSeverity .semanticWarning (Check.program (fillTo "top")).diagnostics =
        [⟨⟨1, 1⟩, .semanticWarning, "Variable old cannot be of void type"⟩] := by
  have hread : Program.ofSource? fillToLimit.toList = some (fillTo "limit") :=
    Program.ofSource?_of_text rfl (by with_unfolding_all rfl)
  have haccepted : (fillTo "limit").Accepted := by decide +kernel
  obtain ⟨hends, herrors, hwarnings⟩ :=
    one_defect_one_diagnostic hread haccepted (by decide +kernel) fillTo_once
  have hadvice :
      Diagnostic.ofSeverity .semanticWarning (Check.program (fillTo "limit")).diagnostics =
        [⟨⟨1, 1⟩, .semanticWarning, "Variable old cannot be of void type"⟩] := by decide +kernel
  exact ⟨hread, haccepted, hends, herrors, hwarnings.trans hadvice⟩

end CMinusMinus
