/-
  File:      CMinusMinus/Program.lean
  Subject:   Declarations, statements, blocks and programs of C--.

  A program is a list of declarations: variables, function prototypes and functions. A block is a
  list of declarations followed by statements. The parser puts variables only into blocks and
  parameters only into parameter lists; a tree built by hand may put any declaration into any of
  these places, and also a node of another kind (`misplaced`).

  * `Decl.ty?` -- the type that a declaration gives to its name as a variable;
  * `paramTypes` -- the types of a parameter list;
  * `Block.stray` -- a node of another kind in the place of a block.
-/
import CMinusMinus.Expr
import CMinusMinus.Fault
import CMinusMinus.Ty

namespace CMinusMinus

/-! ## 1. Trees -/

/-- What a prototype and a definition of a function have in common, apart from the parameters. -/
structure FnHead where
  pos : Position
  name : String
  ret : Ty
  deriving DecidableEq, Repr

mutual

/-- A declaration. -/
inductive Decl where
  | variable (pos : Position) (name : String) (ty : Ty)
  | parameter (pos : Position) (name : String) (ty : Ty)
  | prototype (head : FnHead) (params : List Decl)
  | function (head : FnHead) (params : List Decl) (body : Block)
  /-- A node of another kind where a declaration is expected. -/
  | misplaced (kind : String)

/-- A statement. -/
inductive Stmt where
  | assign (pos : Position) (target value : Expr)
  | ifThen (pos : Position) (cond : Expr) (body : Block)
  | ifElse (pos : Position) (cond : Expr) (thenBody elseBody : Block)
  | whileLoop (pos : Position) (cond : Expr) (body : Block)
  | forLoop (pos : Position) (init : Stmt) (cond : Expr) (step : Stmt) (body : Block)
  /-- An expression evaluated for its effect; the parser admits calls only. -/
  | call (pos : Position) (call : Expr)
  | ret (pos : Position) (value : Option Expr)
  /-- A node of another kind where a statement is expected. -/
  | misplaced (kind : String)
  /-- Statements that are looked for in a node without the part that would hold them. -/
  | missing (kind : String) (part : Part)

/-- Declarations and statements between braces. -/
inductive Block where
  | mk (pos : Position) (decls : List Decl) (stmts : List Stmt)

end

instance : Inhabited Decl := ⟨.misplaced ""⟩

instance : Inhabited Stmt := ⟨.ret {} none⟩

instance : Inhabited Block := ⟨.mk {} [] []⟩

/-- A program; messages never name its position. -/
structure Program where
  decls : List Decl

/-! ## 2. Parts of trees -/

namespace Block

/-- The position of a block's opening brace. -/
def pos : Block → Position
  | .mk pos _ _ => pos

/-- The declarations of a block. -/
def decls : Block → List Decl
  | .mk _ decls _ => decls

/-- The statements of a block. -/
def stmts : Block → List Stmt
  | .mk _ _ stmts => stmts

/-- A node of another kind in the place of a block. Its declarations are reached if it has any;
    then, or at once, a part is missing. -/
def stray (kind : String) : Option (List Decl) → Block
  | some decls => .mk {} decls [.missing kind .stmts]
  | none => .mk {} [] [.missing kind .decls]

end Block

namespace Decl

/-- The kind of node that a declaration is. -/
def kind : Decl → String
  | .variable _ _ _ => "VarDecl"
  | .parameter _ _ _ => "FormalDecl"
  | .prototype _ _ => "FnPreDecl"
  | .function _ _ _ => "FnDecl"
  | .misplaced kind => kind

/-- The type of a variable or a parameter. -/
def ty? : Decl → Option Ty
  | .variable _ _ ty | .parameter _ _ ty => some ty
  | _ => none

end Decl

/-- The kinds of nodes that have a name. -/
def namedKinds : List String := ["Id", "CallExp", "VarDecl", "FormalDecl", "FnDecl", "FnPreDecl"]

/-- Nodes of the kind have a name. -/
def hasName (kind : String) : Bool := namedKinds.contains kind

/-- The kind of a plain text, which is what names are. -/
def textKind : String := "str"

/-- The types of a parameter list, or the fault of its first node without a type. -/
def paramTypes : List Decl → Except Fault (List Ty)
  | [] => .ok []
  | d :: ds =>
      match d.ty? with
      | some ty => (paramTypes ds).map (ty :: ·)
      | none => .error (.noPart d.kind .type)

end CMinusMinus
