/-
  File:      CMinusMinus/Expr.lean
  Subject:   Expressions of C--.

  An expression carries the position that a message about it names. Trees may also be built by
  hand: an operator may then have any text, a node that is no expression may stand where one is
  expected (`misplaced`, with the name of its kind), and so may one without a name where a call
  expects the name of its function (`nameless`).

  * `Expr.isCondition` -- comparisons, `&&`, `||` and `!`: made as jumps, not as values;
  * `Expr.isLocation` -- what may stand on the left of an assignment.
-/
import CMinusMinus.Position

namespace CMinusMinus

/-! ## 1. Operators -/

/-- Arithmetic operators. -/
inductive ArithOp where
  | add | sub | mul | div | mod
  deriving DecidableEq, Repr

/-- Comparisons. -/
inductive RelOp where
  | lt | gt | le | ge | eq | ne
  deriving DecidableEq, Repr

/-- Binary operators; `other` holds the text of one that the language does not know. -/
inductive BinaryOp where
  | arith (op : ArithOp)
  | rel (op : RelOp)
  | and
  | or
  | other (text : String)
  deriving DecidableEq, Repr

/-- Unary operators; `other` holds the text of one that the language does not know. -/
inductive UnaryOp where
  | neg
  | not
  | address
  | deref
  | other (text : String)
  deriving DecidableEq, Repr

/-- The operator that a text denotes. -/
def BinaryOp.ofText : String → BinaryOp
  | "+" => .arith .add
  | "-" => .arith .sub
  | "*" => .arith .mul
  | "/" => .arith .div
  | "%" => .arith .mod
  | "<" => .rel .lt
  | ">" => .rel .gt
  | "<=" => .rel .le
  | ">=" => .rel .ge
  | "==" => .rel .eq
  | "!=" => .rel .ne
  | "&&" => .and
  | "||" => .or
  | text => .other text

/-- The text of an operator. -/
def BinaryOp.text : BinaryOp → String
  | .arith .add => "+"
  | .arith .sub => "-"
  | .arith .mul => "*"
  | .arith .div => "/"
  | .arith .mod => "%"
  | .rel .lt => "<"
  | .rel .gt => ">"
  | .rel .le => "<="
  | .rel .ge => ">="
  | .rel .eq => "=="
  | .rel .ne => "!="
  | .and => "&&"
  | .or => "||"
  | .other text => text

/-- The operator that a text denotes. -/
def UnaryOp.ofText : String → UnaryOp
  | "-" => .neg
  | "!" => .not
  | "&" => .address
  | "*" => .deref
  | text => .other text

/-- The text of an operator. -/
def UnaryOp.text : UnaryOp → String
  | .neg => "-"
  | .not => "!"
  | .address => "&"
  | .deref => "*"
  | .other text => text

theorem UnaryOp.text_ofText (text : String) : (UnaryOp.ofText text).text = text := by
  unfold UnaryOp.ofText
  split <;> rfl

/-! ## 2. Expressions -/

/-- An expression. -/
inductive Expr where
  | int (pos : Position) (value : Int)
  /-- A string literal, its text as written. -/
  | str (pos : Position) (text : String)
  | var (pos : Position) (name : String)
  | index (pos : Position) (array index : Expr)
  | call (pos : Position) (name : String) (args : List Expr)
  | unary (pos : Position) (op : UnaryOp) (operand : Expr)
  | binary (pos : Position) (op : BinaryOp) (left right : Expr)
  /-- A call whose function is given by a node of a kind without a name. -/
  | nameless (kind : String) (args : List Expr)
  /-- A node of another kind where an expression is expected. -/
  | misplaced (kind : String)
  deriving Repr, Inhabited

namespace Expr

/-- The position that messages about the expression name. -/
def pos : Expr → Position
  | .int p _ | .str p _ | .var p _ | .index p _ _ | .call p _ _ | .unary p _ _
  | .binary p _ _ _ => p
  | .nameless _ _ | .misplaced _ => {}

/-- The kind of node that an expression is. -/
def kind : Expr → String
  | .int _ _ => "IntLit"
  | .str _ _ => "StringLit"
  | .var _ _ => "Id"
  | .index _ _ _ => "ArrayExp"
  | .call _ _ _ | .nameless _ _ => "CallExp"
  | .unary _ _ _ => "UnaryOp"
  | .binary _ _ _ _ => "BinaryOp"
  | .misplaced kind => kind

/-- The expression is a variable. -/
def isVar : Expr → Bool
  | .var _ _ => true
  | _ => false

/-- The expression is a comparison, a conjunction, a disjunction or a negation. -/
def isCondition : Expr → Bool
  | .binary _ (.rel _) _ _ | .binary _ .and _ _ | .binary _ .or _ _ | .unary _ .not _ => true
  | _ => false

/-- The expression is a call. -/
def isCall : Expr → Bool
  | .call _ _ _ | .nameless _ _ => true
  | _ => false

/-- The expression may be assigned to: a variable, an element of a location, or a variable
    behind a star. -/
def isLocation : Expr → Bool
  | .var _ _ => true
  | .index _ a _ => a.isLocation
  | .unary _ .deref e => e.isVar
  | _ => false

end Expr

/-- The call that reads a value. -/
def readCall : String := "scanf"

/-- The call that writes a value. -/
def writeCall : String := "printf"

/-- The name of a call that the system answers, not a function of the program. -/
def isSystemCall (name : String) : Bool := name == readCall || name == writeCall

end CMinusMinus
