/-
  File:      CMinusMinus/Check/Program.lean
  Subject:   Checking declarations, statements and programs.

  The checker walks the program once from top to bottom and writes down every defect it meets; a
  defect never stops it. A declaration goes into the innermost frame of its scope; one that the
  frame refuses is reported and has no effect. The parameters of a function and the declarations
  of its body share one frame; each nested block has its own, and so have the parameters of a
  prototype, which see nothing else. A function is declared before its body is checked and after
  its parameters.
-/
import CMinusMinus.Check.Expr
import CMinusMinus.Program

namespace CMinusMinus.Check

/-! ## 1. Declarations -/

/-- What a frame tells of a declaration that it takes in. -/
def declarationTrace (frame : Frame) (name : String) : Entry → Trace
  | .variable v => .variableDeclared name v.ty
  | .function f =>
      if (frame.function? name f.params).isSome then .functionCompleted (codeLabel name f.params)
      else .functionDeclared (codeLabel name f.params)

/-- The scope after a declaration, and what was found. A refused one leaves it as it is. -/
def declare (scope : Scope) (pos : Position) (name : String) (entry : Entry) : Scope × Journal :=
  match scope.top.add name entry with
  | .ok frame => (scope.withTop frame, [.trace (declarationTrace scope.top name entry)])
  | .error d => (scope, .report pos d)

/-- A variable: a type built on void is advised against. -/
def variableDecl (scope : Scope) (pos : Position) (name : String) (ty : Ty) : Scope × Journal :=
  let advice : Journal := if ty.name == "void" then .report pos (.voidVariable name) else []
  let declared := declare scope pos name (.variable { ty := ty })
  (declared.1, advice ++ declared.2)

/-- A parameter: a bare void is no type for it. -/
def parameterDecl (scope : Scope) (pos : Position) (name : String) (ty : Ty) : Scope × Journal :=
  let bare := ty.name == "void" && ty.pointers == 0
  let declared := declare scope pos name (.variable { ty := ty })
  (declared.1, .complainIf bare pos (.voidParameter name) ++ declared.2)

/-- A function with its parameters, `forward` if only by a prototype. -/
def functionDecl (scope : Scope) (head : FnHead) (params : List Decl) (forward : Bool) :
    Scope × Journal :=
  match paramTypes params with
  | .ok tys => declare scope head.pos head.name (.function ⟨head.ret, tys, forward⟩)
  | .error f => (scope, [.fault f])

/-! ## 2. Statements -/

/-- A condition has base type bool. -/
def condition (scope : Scope) (e : Expr) : Journal :=
  let found := typeOf scope e
  found.journal ++ .complainIf (offends "bool" found.ty) e.pos .conditionNotBool

/-- The two sides of an assignment agree. -/
def assignment (scope : Scope) (target value : Expr) : Journal :=
  let left := typeOf scope target
  let right := typeOf scope value
  let clash := !left.ty.isError && !right.ty.isError && !left.ty.agrees right.ty
  left.journal ++ right.journal ++ .complainIf clash target.pos .assignmentMismatch

/-- A returned value agrees with the function's return type; without one, the return type is
    built on void. -/
def returned (ret : Ty) (scope : Scope) (pos : Position) : Option Expr → Journal
  | none => .complainIf (ret.name != "void") pos .returnMismatch
  | some e =>
      let found := typeOf scope e
      found.journal ++
        .complainIf (!found.ty.isError && !found.ty.agrees ret) pos .returnMismatch

mutual

/-- A declaration: the scope after it, and what was found. -/
def decl (scope : Scope) : Decl → Scope × Journal
  | .variable pos name ty => variableDecl scope pos name ty
  | .parameter pos name ty => parameterDecl scope pos name ty
  | .prototype head params =>
      let formals := decls {} params
      let declared := functionDecl scope head params true
      (declared.1, formals.2 ++ declared.2)
  | .function head params body =>
      let formals := decls (scope.push []) params
      let declared := functionDecl scope head params false
      (declared.1, formals.2 ++ declared.2 ++
        block head.ret (declared.1.push formals.1.top) body)
  | .misplaced kind => (scope, [.fault (.misplaced .declaration kind)])

/-- Declarations one after the other. -/
def decls (scope : Scope) : List Decl → Scope × Journal
  | [] => (scope, [])
  | d :: ds =>
      let first := decl scope d
      let others := decls first.1 ds
      (others.1, first.2 ++ others.2)

/-- A statement of a function with the return type. -/
def stmt (ret : Ty) (scope : Scope) : Stmt → Journal
  | .assign _ target value => assignment scope target value
  | .ifThen _ cond body => condition scope cond ++ block ret (scope.push []) body
  | .ifElse _ cond thenBody elseBody =>
      condition scope cond ++ block ret (scope.push []) thenBody ++
        block ret (scope.push []) elseBody
  | .whileLoop _ cond body => condition scope cond ++ block ret (scope.push []) body
  | .forLoop _ init cond step body =>
      stmt ret scope init ++ condition scope cond ++ stmt ret scope step ++
        block ret (scope.push []) body
  | .call _ e => (typeOf scope e).journal
  | .ret pos value => returned ret scope pos value
  | .misplaced kind => [.fault (.misplaced .statement kind)]
  | .missing kind part => [.fault (.noPart kind part)]

/-- A block whose declarations go into the innermost frame of the scope. -/
def block (ret : Ty) (scope : Scope) : Block → Journal
  | .mk _ ds body =>
      let declared := decls scope ds
      declared.2 ++ stmts ret declared.1 body

/-- Statements one after the other. -/
def stmts (ret : Ty) (scope : Scope) : List Stmt → Journal
  | [] => []
  | s :: ss => stmt ret scope s ++ stmts ret scope ss

end

/-! ## 3. Programs -/

/-- Checks a program. -/
def program (p : Program) : Journal :=
  let found := (decls {} p.decls).2
  let diagnostics := found.diagnostics
  found ++ [.trace (.checked (Diagnostic.count diagnostics .semanticError)
    (Diagnostic.count diagnostics .semanticWarning))]

end CMinusMinus.Check
