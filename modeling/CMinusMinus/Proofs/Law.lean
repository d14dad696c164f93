/-
  File:      CMinusMinus/Proofs/Law.lean
  Subject:   The law of the language.

  What makes a program correct is told on the source alone: by recursion on the syntax, without
  symbol tables and without errors. What is known at a place of a program are the declarations that
  stand before it, scope by scope. A name means the variable of the innermost scope that declares
  one. A call means the last declaration with the name and with the types of the arguments. A
  declaration is ADMISSIBLE after those that stand before it in its scope, or it is not.

  * `Decl.Admissible` -- declarations;
  * `Nearest`, `Resolves` -- what names and calls mean;
  * `Expr.Typed`, `Stmt.Lawful`, `Block.Lawful`, `Decl.Lawful`, `Program.Lawful` -- the law.
-/
import CMinusMinus.Proofs.FunctionLabels

namespace CMinusMinus

/-! ## 1. Declarations -/

namespace Decl

/-- The name that is declared. -/
def name? : Decl → Option String
  | .variable _ name _ | .parameter _ name _ => some name
  | .prototype head _ | .function head _ _ => some head.name
  | .misplaced _ => none

/-- The name and the signature of the function that is declared. -/
def signature? : Decl → Option (String × Signature)
  | .prototype head params => some (head.name, ⟨head.ret, params.filterMap Decl.ty?, true⟩)
  | .function head params _ => some (head.name, ⟨head.ret, params.filterMap Decl.ty?, false⟩)
  | _ => none

/-- The declaration makes the name a variable or a parameter of the type. -/
inductive Binds (x : String) (τ : Ty) : Decl → Prop where
  | variable (pos : Position) : Binds x τ (.variable pos x τ)
  | parameter (pos : Position) : Binds x τ (.parameter pos x τ)

/-- The declaration makes the name a function that takes arguments of exactly these types. -/
def Offers (d : Decl) (name : String) (τs : List Ty) (f : Signature) : Prop :=
  d.signature? = some (name, f) ∧ f.params.map Ty.identity = τs.map Ty.identity

/-- **A declaration is admissible after the others of its scope.** A variable needs a name of its
    own. A function needs one that is no variable's; its signature may have been declared only by
    a prototype, and only if this is the definition. A parameter is not of bare void type. -/
structure Admissible (before : List Decl) (d : Decl) : Prop where
  fresh : ∀ x τ, d.Binds x τ → ∀ d' ∈ before, d'.name? ≠ some x
  completes : ∀ name f, d.signature? = some (name, f) → ∀ d' ∈ before,
    (∀ τ, ¬ d'.Binds name τ) ∧
      ∀ g, d'.Offers name f.params g → g.forward = true ∧ f.forward = false
  notVoid : ∀ pos x τ, d = .parameter pos x τ → ¬ (τ.name = "void" ∧ τ.pointers = 0)

end Decl

/-- Each declaration is admissible after those before it. -/
def Admitted (before : List Decl) : List Decl → Prop
  | [] => True
  | d :: ds => d.Admissible before ∧ Admitted (before ++ [d]) ds

/-! ## 2. Names -/

/-- **The variable that a name means**: that of the first scope that declares one. -/
def Nearest : List (List Decl) → String → Ty → Prop
  | [], _, _ => False
  | ds :: outer, x, τ =>
      (∃ d ∈ ds, d.Binds x τ) ∨ (∀ d ∈ ds, ∀ σ, ¬ d.Binds x σ) ∧ Nearest outer x τ

/-- **The function that a call means**: the last one that was declared with the name and with the
    types of the arguments. -/
def Resolves (ds : List Decl) (name : String) (τs : List Ty) (f : Signature) : Prop :=
  ∃ before d after, ds = before ++ d :: after ∧ d.Offers name τs f ∧
    ∀ d' ∈ after, ∀ g, ¬ d'.Offers name τs g

/-- What has been declared where an expression stands: the scopes around it, the innermost one
    first, and the declarations at the top. -/
structure Context where
  inner : List (List Decl) := []
  globals : List Decl

namespace Context

/-- All scopes, the innermost one first. -/
def scopes (Δ : Context) : List (List Decl) := Δ.inner ++ [Δ.globals]

/-- One more scope inside. -/
def push (Δ : Context) (ds : List Decl) : Context := { Δ with inner := ds :: Δ.inner }

end Context

/-! ## 3. Expressions, statements and programs -/

mutual

/-- **An expression has a type** where these declarations are known. -/
def Expr.Typed (Δ : Context) : Expr → Ty → Prop
  | .int _ _, τ => τ = .int
  | .str _ _, τ => τ = .string
  | .var _ x, τ => Nearest Δ.scopes x τ
  | .index _ array i, τ => ∃ α ι, Expr.Typed Δ array α ∧ Expr.Typed Δ i ι ∧
      ι.name = "int" ∧ τ = α.element
  | .call _ name args, τ => ∃ τs, Expr.AllTyped Δ args τs ∧
      if isSystemCall name then τs.length ≤ 1 ∧ τ = .void
      else ∃ f, Resolves Δ.globals name τs f ∧ τ = f.ret
  | .unary _ .neg e, τ => (∃ α, Expr.Typed Δ e α ∧ α.name = "int") ∧ τ = .int
  | .unary _ .not e, τ => (∃ α, Expr.Typed Δ e α ∧ α.name = "bool") ∧ τ = .bool
  | .unary _ .address e, τ | .unary _ .deref e, τ => e.isVar = true ∧ Expr.Typed Δ e τ
  | .binary _ (.arith _) l r, τ => (∃ α, Expr.Typed Δ l α ∧ α.name = "int") ∧
      (∃ β, Expr.Typed Δ r β ∧ β.name = "int") ∧ τ = .int
  | .binary _ (.rel _) l r, τ => (∃ α, Expr.Typed Δ l α ∧ α.name = "int") ∧
      (∃ β, Expr.Typed Δ r β ∧ β.name = "int") ∧ τ = .bool
  | .binary _ .and l r, τ | .binary _ .or l r, τ => (∃ α, Expr.Typed Δ l α ∧ α.name = "bool") ∧
      (∃ β, Expr.Typed Δ r β ∧ β.name = "bool") ∧ τ = .bool
  | _, _ => False

/-- Expressions have types place by place. -/
def Expr.AllTyped (Δ : Context) : List Expr → List Ty → Prop
  | [], τs => τs = []
  | e :: es, τs => ∃ τ rest, τs = τ :: rest ∧ Expr.Typed Δ e τ ∧ Expr.AllTyped Δ es rest

end

/-- An expression that can be a condition. -/
def Expr.Decides (Δ : Context) (e : Expr) : Prop := ∃ τ, e.Typed Δ τ ∧ τ.name = "bool"

mutual

/-- **A statement is lawful** in a function with the return type. -/
def Stmt.Lawful (ret : Ty) (Δ : Context) : Stmt → Prop
  | .assign _ target value =>
      ∃ α β, target.Typed Δ α ∧ value.Typed Δ β ∧ α.identity = β.identity
  | .ifThen _ cond body => cond.Decides Δ ∧ Block.Lawful ret Δ [] body
  | .ifElse _ cond thenBody elseBody =>
      cond.Decides Δ ∧ Block.Lawful ret Δ [] thenBody ∧ Block.Lawful ret Δ [] elseBody
  | .whileLoop _ cond body => cond.Decides Δ ∧ Block.Lawful ret Δ [] body
  | .forLoop _ init cond step body =>
      Stmt.Lawful ret Δ init ∧ cond.Decides Δ ∧ Stmt.Lawful ret Δ step ∧ Block.Lawful ret Δ [] body
  | .call _ e => ∃ τ, e.Typed Δ τ
  | .ret _ none => ret.name = "void"
  | .ret _ (some e) => ∃ τ, e.Typed Δ τ ∧ τ.identity = ret.identity
  | .misplaced _ | .missing _ _ => False

/-- A block is lawful whose scope already holds the declarations `own`. -/
def Block.Lawful (ret : Ty) (Δ : Context) (own : List Decl) : Block → Prop
  | .mk _ ds sts => Admitted own ds ∧ Stmt.AllLawful ret (Δ.push (own ++ ds)) sts

/-- Statements are lawful. -/
def Stmt.AllLawful (ret : Ty) (Δ : Context) : List Stmt → Prop
  | [] => True
  | st :: sts => Stmt.Lawful ret Δ st ∧ Stmt.AllLawful ret Δ sts

end

/-- A declaration at the top is lawful inside: the parameters of a function, and its body, which
    sees the function itself and shares its scope with the parameters. -/
def Decl.Lawful (before : List Decl) : Decl → Prop
  | .variable _ _ _ => True
  | .prototype _ params => Admitted [] params
  | .function head params body => Admitted [] params ∧
      body.Lawful head.ret { globals := before ++ [.function head params body] } params
  | .parameter _ _ _ | .misplaced _ => False

/-- Declarations at the top are lawful after others. -/
def Decl.AllLawful (before : List Decl) : List Decl → Prop
  | [] => True
  | d :: ds => d.Admissible before ∧ d.Lawful before ∧ Decl.AllLawful (before ++ [d]) ds

/-- **A program is lawful.** -/
def Program.Lawful (p : Program) : Prop := Decl.AllLawful [] p.decls

end CMinusMinus
