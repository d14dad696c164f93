/-
  File:      CMinusMinus/Check/Expr.lean
  Subject:   The types of expressions.

  Every expression gets a type, and the journal tells what is wrong with it. An expression that
  has no type of its own gets the error type, about which nothing further is said, so that one
  defect gives one diagnostic. Operators look at base names only: arithmetic and comparisons want
  `int`, logical operators `bool`. `&` and `*` want a variable and keep its type.
-/
import CMinusMinus.Expr
import CMinusMinus.Journal
import CMinusMinus.Scope

namespace CMinusMinus.Check

/-- The type of an expression, and what was found on the way. -/
structure Verdict where
  ty : Ty
  journal : Journal := []
  deriving DecidableEq, Repr

/-- The types of several expressions, and what was found on the way. -/
structure Verdicts where
  tys : List Ty
  journal : Journal := []
  deriving DecidableEq, Repr

/-- The base name is not the wanted one, and the type is no error. -/
def offends (wanted : String) (t : Ty) : Bool := t.name != wanted && !t.isError

/-- A variable in a scope. -/
def varUse (scope : Scope) (pos : Position) (name : String) : Verdict :=
  match scope.var? name with
  | some v => ⟨v.ty, []⟩
  | none => ⟨.error, .report pos (.variableUndeclared name)⟩

/-- An element of an array. -/
def element (pos : Position) (array index : Verdict) : Verdict :=
  ⟨array.ty.element,
    array.journal ++ index.journal ++ .complainIf (offends "int" index.ty) pos .indexNotInt⟩

/-- A call with arguments of known types. -/
def call (scope : Scope) (pos : Position) (name : String) (args : Verdicts) : Verdict :=
  if isSystemCall name then
    ⟨.void, args.journal ++ .complainIf (1 < args.tys.length) pos .systemCallArguments⟩
  else if args.tys.any Ty.isError then ⟨.error, args.journal⟩
  else match scope.function? name args.tys with
    | some f => ⟨f.ret, args.journal⟩
    | none => ⟨.error, args.journal ++ .report pos (.functionUndeclared name)⟩

/-- A unary operator; `isVar` tells whether its operand is a variable. -/
def unary (pos : Position) (op : UnaryOp) (isVar : Bool) (operand : Verdict) : Verdict :=
  match op with
  | .neg =>
      ⟨.int, operand.journal ++ .complainIf (offends "int" operand.ty) pos .operandNotInt⟩
  | .not =>
      ⟨.bool, operand.journal ++ .complainIf (offends "bool" operand.ty) pos .operandNotBool⟩
  | .address | .deref =>
      ⟨operand.ty, operand.journal ++ .complainIf (!isVar) pos .operandNotName⟩
  | .other text => ⟨.error, operand.journal ++ [.fault (.unknownUnary text)]⟩

/-- What a binary operator wants of its operands, by base name, and the type it gives. -/
def operatorRule : BinaryOp → Except String (String × Ty)
  | .arith _ => .ok ("int", .int)
  | .and | .or => .ok ("bool", .bool)
  | .rel _ => .ok ("int", .bool)
  | .other text => .error text

/-- A binary operator. -/
def binary (pos : Position) (op : BinaryOp) (left right : Verdict) : Verdict :=
  let found := left.journal ++ right.journal
  match operatorRule op with
  | .error text => ⟨.error, found ++ [.fault (.unknownBinary text)]⟩
  | .ok (wanted, result) =>
      let clash := !left.ty.isError && !right.ty.isError &&
        (left.ty.name != wanted || right.ty.name != wanted)
      ⟨result, found ++ .complainIf clash pos (.operandsNot wanted)⟩

mutual

/-- The type of an expression. -/
def typeOf (scope : Scope) : Expr → Verdict
  | .int _ _ => ⟨.int, []⟩
  | .str _ _ => ⟨.string, []⟩
  | .var pos name => varUse scope pos name
  | .index pos array index => element pos (typeOf scope array) (typeOf scope index)
  | .call pos name args => call scope pos name (typesOf scope args)
  | .unary pos op operand => unary pos op operand.isVar (typeOf scope operand)
  | .binary pos op left right => binary pos op (typeOf scope left) (typeOf scope right)
  | .nameless kind args => ⟨.error, (typesOf scope args).journal ++ [.fault (.noPart kind .name)]⟩
  | .misplaced kind => ⟨.error, [.fault (.misplaced .expression kind)]⟩

/-- The types of expressions from left to right. -/
def typesOf (scope : Scope) : List Expr → Verdicts
  | [] => ⟨[], []⟩
  | e :: es =>
      let first := typeOf scope e
      let others := typesOf scope es
      ⟨first.ty :: others.tys, first.journal ++ others.journal⟩

end

end CMinusMinus.Check
