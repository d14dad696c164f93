/-
  File:      CMinusMinus/Defect.lean
  Subject:   The semantic defects of a program.

  Each way in which a program can be ill-formed has a constructor here, with its wording and the
  kind that decides its severity: all are errors except a variable of type void, which is only
  advised against.
-/
import CMinusMinus.Diagnostic

namespace CMinusMinus

/-- A semantic defect. -/
inductive Defect where
  | variableRedeclared (name : String)
  | functionRedeclared (name : String)
  | variableUndeclared (name : String)
  | functionUndeclared (name : String)
  | voidVariable (name : String)
  | voidParameter (name : String)
  | indexNotInt
  | operandNotInt
  | operandNotBool
  | operandNotName
  /-- The operands of a binary operator that wants the base type of the name. -/
  | operandsNot (typeName : String)
  | systemCallArguments
  | conditionNotBool
  | assignmentMismatch
  | returnMismatch
  deriving DecidableEq, Repr

namespace Defect

/-- The wording of a defect. -/
def message : Defect → String
  | .variableRedeclared name => s!"Variable {name} has already been declared"
  | .functionRedeclared name => s!"Function {name} has already been declared"
  | .variableUndeclared name => s!"Variable {name} has not been declared"
  | .functionUndeclared name => s!"Function {name} has not been declared"
  | .voidVariable name => s!"Variable {name} cannot be of void type"
  | .voidParameter name => s!"Variable {name} cannot be of void type"
  | .indexNotInt => "Index operand must be of int type"
  | .operandNotInt => "Expression must be of int type"
  | .operandNotBool => "Expression must be of bool type"
  | .operandNotName => "Expression must be an identifier"
  | .operandsNot typeName => s!"Illegal expression (All operands must be of {typeName} type)"
  | .systemCallArguments => "Invalid parameters"
  | .conditionNotBool => "Condition expression must be of bool type"
  | .assignmentMismatch =>
      "Illegal assignment (Both lhs and expression must be of the same type)"
  | .returnMismatch => "Illegal return statement"

/-- The kind of a defect. -/
def kind : Defect → ProblemKind
  | .variableRedeclared _ | .functionRedeclared _ => .conflict
  | .variableUndeclared _ | .functionUndeclared _ => .undeclared
  | .voidVariable _ => .advisory
  | _ => .semantic

/-- A defect as a problem without a place of its own. -/
def problem (d : Defect) : Problem := { kind := d.kind, text := d.message }

/-- The diagnostic of a defect at a position. -/
def diagnostic (d : Defect) (pos : Position) : Diagnostic := d.problem.diagnostic pos

end Defect

end CMinusMinus
