/-
  File:      CMinusMinus/Proofs/Meaning.lean
  Subject:   What programs mean: the evaluation of expressions and the runs of statements.

  Every declaration of a function, wherever it stands, is one CELL, numbered in the order of the
  text; so are its parameters and the globals before it. A cell holds nothing until something is
  stored, and entering a block again does not change what its cells hold. Names mean the innermost
  declaration around them.

  Expressions have integer values. A condition holds when it is not 0; comparisons and logical
  operators give 1 or 0, and `&&` and `||` look at their right side only if they have to. What reads
  a cell that holds nothing, divides by 0, or is beyond the part of the language described here
  (calls inside expressions, strings, pointers) has no value. An index may be any integer: an array
  has an element of its own for each, whatever its extent.

  * `Expr.eval` -- the value of an expression;
  * `Stmt.Runs`, `Block.Runs` -- a statement or a block runs to its end.
-/
import CMinusMinus.Proofs.Passage

namespace CMinusMinus

/-! ## 1. Places and cells -/

/-- A place that holds an integer: a scalar, or an element of an array. -/
inductive Location (α : Type) where
  | scalar (a : α)
  | element (a : α) (i : Int)
  deriving DecidableEq

/-- What places hold; nothing as long as nothing was stored. -/
abbrev Contents (α : Type) := Location α → Option Int

/-- The contents after a value is stored in a place. -/
def Contents.set {α : Type} [DecidableEq α] (m : Contents α) (p : Location α) (v : Int) :
    Contents α :=
  fun q => if q = p then some v else m q

/-- A declaration: a global, a parameter, or a variable of a block, by its number. -/
inductive Cell where
  | global (k : Nat)
  | param (k : Nat)
  | local (k : Nat)
  deriving DecidableEq

/-- What a name means. -/
structure Binding where
  name : String
  cell : Cell
  array : Bool

/-- What names mean, the innermost declaration first. -/
abbrev Env := List Binding

namespace Env

/-- The innermost declaration of a name. -/
def lookup (ρ : Env) (name : String) : Option Binding := ρ.find? fun b => b.name == name

/-- The cell of a name that means a scalar. -/
def scalar? (ρ : Env) (name : String) : Option Cell :=
  (ρ.lookup name).bind fun b => if b.array then none else some b.cell

/-- The cell of a name that means an array. -/
def array? (ρ : Env) (name : String) : Option Cell :=
  (ρ.lookup name).bind fun b => if b.array then some b.cell else none

/-- What names mean after declarations, numbered from `k` on; functions are passed over. -/
def declare (cell : Nat → Cell) : Nat → Env → List Decl → Env
  | _, ρ, [] => ρ
  | k, ρ, .variable _ name ty :: ds | k, ρ, .parameter _ name ty :: ds =>
      declare cell (k + 1) (⟨name, cell k, ty.extent.isSome⟩ :: ρ) ds
  | k, ρ, _ :: ds => declare cell k ρ ds

end Env

/-! ## 2. Expressions -/

/-- A truth value as an integer. -/
def truth (b : Bool) : Int := if b then 1 else 0

/-- The result of an arithmetic operator; division goes toward 0, and not by 0. -/
def ArithOp.apply : ArithOp → Int → Int → Option Int
  | .add, a, b => some (a + b)
  | .sub, a, b => some (a - b)
  | .mul, a, b => some (a * b)
  | .div, a, b => if b = 0 then none else some (a.tdiv b)
  | .mod, a, b => if b = 0 then none else some (a.tmod b)

/-- The comparison holds of two integers. -/
def RelOp.holds : RelOp → Int → Int → Bool
  | .lt, a, b => a < b
  | .gt, a, b => b < a
  | .le, a, b => a ≤ b
  | .ge, a, b => b ≤ a
  | .eq, a, b => a = b
  | .ne, a, b => a ≠ b

/-- **The value of an expression.** -/
def Expr.eval (ρ : Env) (σ : Contents Cell) : Expr → Option Int
  | .int _ n => some n
  | .var _ name => (ρ.scalar? name).bind fun c => σ (.scalar c)
  | .index _ (.var _ name) i =>
      (ρ.array? name).bind fun c => (i.eval ρ σ).bind fun j => σ (.element c j)
  | .unary _ .neg e => (e.eval ρ σ).map fun v => -v
  | .unary _ .not e => (e.eval ρ σ).map fun v => truth (v = 0)
  | .binary _ (.arith op) l r =>
      (l.eval ρ σ).bind fun a => (r.eval ρ σ).bind fun b => op.apply a b
  | .binary _ (.rel op) l r =>
      (l.eval ρ σ).bind fun a => (r.eval ρ σ).map fun b => truth (op.holds a b)
  | .binary _ .and l r =>
      (l.eval ρ σ).bind fun a => if a = 0 then some 0 else (r.eval ρ σ).map fun b => truth (b ≠ 0)
  | .binary _ .or l r =>
      (l.eval ρ σ).bind fun a => if a ≠ 0 then some 1 else (r.eval ρ σ).map fun b => truth (b ≠ 0)
  | _ => none

/-! ## 3. Statements -/

/-- What a running function deals with: the cells, what is still to be read, what was written. -/
structure World where
  store : Contents Cell
  input : List Int
  output : List Int

/-- The world after a value is stored. -/
def World.put (w : World) (p : Location Cell) (v : Int) : World :=
  { w with store := w.store.set p v }

/-- How a run ends: at the end of the text, or by a return with or without a value. -/
inductive Exit where
  | falls
  | returns (v : Option Int)
  deriving DecidableEq

mutual

/-- **A statement runs to its end.** The number is that of the next variable declared. -/
inductive Stmt.Runs : Env → Nat → Stmt → World → Exit → World → Prop where
  | assign {ρ : Env} {k : Nat} {pos pos' : Position} {name : String} {e : Expr} {w : World}
      {c : Cell} {v : Int} (hc : ρ.scalar? name = some c) (hv : e.eval ρ w.store = some v) :
      Stmt.Runs ρ k (.assign pos (.var pos' name) e) w .falls (w.put (.scalar c) v)
  | assignElement {ρ : Env} {k : Nat} {pos pos' pos'' : Position} {name : String} {i e : Expr}
      {w : World} {c : Cell} {j v : Int} (hc : ρ.array? name = some c)
      (hi : i.eval ρ w.store = some j) (hv : e.eval ρ w.store = some v) :
      Stmt.Runs ρ k (.assign pos (.index pos' (.var pos'' name) i) e) w .falls
        (w.put (.element c j) v)
  | print {ρ : Env} {k : Nat} {pos pos' : Position} {e : Expr} {w : World} {v : Int}
      (hv : e.eval ρ w.store = some v) :
      Stmt.Runs ρ k (.call pos (.call pos' writeCall [e])) w .falls
        { w with output := w.output ++ [v] }
  | scan {ρ : Env} {k : Nat} {pos pos' pos'' : Position} {name : String} {c : Cell}
      {σ : Contents Cell} {v : Int} {input output : List Int} (hc : ρ.scalar? name = some c) :
      Stmt.Runs ρ k (.call pos (.call pos' readCall [.var pos'' name])) ⟨σ, v :: input, output⟩
        .falls ⟨σ.set (.scalar c) v, input, output⟩
  | ifTrue {ρ : Env} {k : Nat} {pos : Position} {cond : Expr} {body : Block} {w w' : World}
      {v : Int} {o : Exit} (hcond : cond.eval ρ w.store = some v) (hv : v ≠ 0)
      (hbody : Block.Runs ρ k body w o w') : Stmt.Runs ρ k (.ifThen pos cond body) w o w'
  | ifFalse {ρ : Env} {k : Nat} {pos : Position} {cond : Expr} {body : Block} {w : World}
      (hcond : cond.eval ρ w.store = some 0) : Stmt.Runs ρ k (.ifThen pos cond body) w .falls w
  | elseTrue {ρ : Env} {k : Nat} {pos : Position} {cond : Expr} {thenBody elseBody : Block}
      {w w' : World} {v : Int} {o : Exit} (hcond : cond.eval ρ w.store = some v) (hv : v ≠ 0)
      (hbody : Block.Runs ρ k thenBody w o w') :
      Stmt.Runs ρ k (.ifElse pos cond thenBody elseBody) w o w'
  | elseFalse {ρ : Env} {k : Nat} {pos : Position} {cond : Expr} {thenBody elseBody : Block}
      {w w' : World} {o : Exit} (hcond : cond.eval ρ w.store = some 0)
      (hbody : Block.Runs ρ (k + thenBody.slots) elseBody w o w') :
      Stmt.Runs ρ k (.ifElse pos cond thenBody elseBody) w o w'
  | whileLoop {ρ : Env} {k : Nat} {pos : Position} {cond : Expr} {body : Block} {w w' : World}
      {o : Exit} (hloop : Stmt.Loops ρ k cond body none w o w') :
      Stmt.Runs ρ k (.whileLoop pos cond body) w o w'
  | forLoop {ρ : Env} {k : Nat} {pos : Position} {init step : Stmt} {cond : Expr} {body : Block}
      {w w₁ w' : World} {o : Exit} (hinit : Stmt.Runs ρ k init w .falls w₁)
      (hloop : Stmt.Loops ρ (k + init.slots) cond body (some step) w₁ o w') :
      Stmt.Runs ρ k (.forLoop pos init cond step body) w o w'
  | retNone {ρ : Env} {k : Nat} {pos : Position} {w : World} :
      Stmt.Runs ρ k (.ret pos none) w (.returns none) w
  | retSome {ρ : Env} {k : Nat} {pos : Position} {e : Expr} {w : World} {v : Int}
      (hv : e.eval ρ w.store = some v) :
      Stmt.Runs ρ k (.ret pos (some e)) w (.returns (some v)) w

/-- A loop runs to its end: its body, then its step if it has one, while its condition holds. -/
inductive Stmt.Loops : Env → Nat → Expr → Block → Option Stmt → World → Exit → World → Prop where
  | stop {ρ : Env} {k : Nat} {cond : Expr} {body : Block} {step : Option Stmt} {w : World}
      (hcond : cond.eval ρ w.store = some 0) : Stmt.Loops ρ k cond body step w .falls w
  | again {ρ : Env} {k : Nat} {cond : Expr} {body : Block} {w w₁ w' : World} {v : Int} {o : Exit}
      (hcond : cond.eval ρ w.store = some v) (hv : v ≠ 0)
      (hbody : Block.Runs ρ k body w .falls w₁) (hloop : Stmt.Loops ρ k cond body none w₁ o w') :
      Stmt.Loops ρ k cond body none w o w'
  | step {ρ : Env} {k : Nat} {cond : Expr} {body : Block} {step : Stmt} {w w₁ w₂ w' : World}
      {v : Int} {o : Exit} (hcond : cond.eval ρ w.store = some v) (hv : v ≠ 0)
      (hbody : Block.Runs ρ k body w .falls w₁)
      (hstep : Stmt.Runs ρ (k + body.slots) step w₁ .falls w₂)
      (hloop : Stmt.Loops ρ k cond body (some step) w₂ o w') :
      Stmt.Loops ρ k cond body (some step) w o w'
  | leave {ρ : Env} {k : Nat} {cond : Expr} {body : Block} {step : Option Stmt} {w w' : World}
      {v : Int} {r : Option Int} (hcond : cond.eval ρ w.store = some v) (hv : v ≠ 0)
      (hbody : Block.Runs ρ k body w (.returns r) w') :
      Stmt.Loops ρ k cond body step w (.returns r) w'

/-- A block runs to its end: its declarations come first. -/
inductive Block.Runs : Env → Nat → Block → World → Exit → World → Prop where
  | mk {ρ : Env} {k : Nat} {pos : Position} {decls : List Decl} {stmts : List Stmt} {w w' : World}
      {o : Exit} (hstmts : Stmt.AllRun (Env.declare .local k ρ decls) (k + decls.length) stmts
        w o w') : Block.Runs ρ k (.mk pos decls stmts) w o w'

/-- Statements run one after the other, up to the first return. -/
inductive Stmt.AllRun : Env → Nat → List Stmt → World → Exit → World → Prop where
  | nil {ρ : Env} {k : Nat} {w : World} : Stmt.AllRun ρ k [] w .falls w
  | cons {ρ : Env} {k : Nat} {st : Stmt} {sts : List Stmt} {w w₁ w' : World} {o : Exit}
      (hst : Stmt.Runs ρ k st w .falls w₁) (hsts : Stmt.AllRun ρ (k + st.slots) sts w₁ o w') :
      Stmt.AllRun ρ k (st :: sts) w o w'
  | leave {ρ : Env} {k : Nat} {st : Stmt} {sts : List Stmt} {w w' : World} {r : Option Int}
      (hst : Stmt.Runs ρ k st w (.returns r) w') :
      Stmt.AllRun ρ k (st :: sts) w (.returns r) w'

end

/-- What names mean in the body of a function, apart from its own declarations: the globals before
    the function, then its parameters. -/
def Env.ofFunction (before params : List Decl) : Env :=
  Env.declare .param 0 (Env.declare .global 0 [] before) params

end CMinusMinus
