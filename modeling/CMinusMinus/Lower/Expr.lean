/-
  File:      CMinusMinus/Lower/Expr.lean
  Subject:   The code of expressions.

  An expression can be asked for in two modes. As a VALUE it leaves an operand behind; as a BRANCH
  it jumps to one of two targets and leaves nothing. Comparisons, `&&`, `||` and `!` are made as
  branches, and their value is a temporary that both ends of the branch fill with 1 or 0. All other
  expressions are made as values, and their branch tests the value against 0.

  `modes` gives both modes of an expression by recursion on it, operands from left to right.
-/
import CMinusMinus.Lower.State

namespace CMinusMinus.Lower

/-- The code of an expression in its two modes. -/
structure Modes where
  value : State → Emitted
  branch : Targets Target → State → Lowered

/-- Where the two ends of a branch fill an operand with 1 and with 0, and meet again. -/
def ends (dest : Operand) (yes no done : Label) : List Instr :=
  [.label yes, .move dest (.literal 1), .jump (some done), .label no, .move dest (.literal 0),
    .label done]

namespace Modes

/-- A value as a branch: it holds when it is not 0. -/
def test (value : State → Emitted) (t : Targets Target) (s : State) : Lowered :=
  let v := value s
  ⟨v.code ++ [.branch .ne v.operand (.literal 0) t.onTrue, .jump t.onFalse], v.after⟩

/-- An expression that is made as a value. -/
def ofValue (value : State → Emitted) : Modes := ⟨value, test value⟩

/-- A branch as a value: a temporary that is 1 or 0. -/
def materialise (branch : Targets Target → State → Lowered) (s : State) : Emitted :=
  let dest := s.temporary
  let s₀ := s.afterTemporary
  let yes := s₀.label
  let s₁ := s₀.afterLabel
  let no := s₁.label
  let s₂ := s₁.afterLabel
  let done := s₂.label
  let b := branch ⟨some yes, some no, none⟩ s₂.afterLabel
  ⟨b.code ++ ends dest yes no done, dest, b.after⟩

/-- An expression that is made as a branch. -/
def ofBranch (branch : Targets Target → State → Lowered) : Modes := ⟨materialise branch, branch⟩

/-- An operand that needs no code. -/
def ofOperand (operand : Operand) : Modes := ofValue fun s => ⟨[], operand, s⟩

/-- An expression that has no code. -/
def ofFault (f : Fault) : Modes := ofValue fun s => ⟨[], .absent, s.fail f⟩

/-- A string constant. -/
def constant (text : String) : Modes := ofValue fun s =>
  let added := s.alloc.addConstant text
  ⟨[], .address added.1, { s with alloc := added.2 }⟩

/-- A variable. -/
def ofVar (scope : Scope) (name : String) : Modes :=
  match scope.soundVar? name with
  | some v =>
      ofOperand (match v.home with
        | some a => .address a
        | none => .absent)
  | none => ofFault (.defect (.variableUndeclared name))

/-- Two operands, then an instruction that fills a temporary from them. -/
def compute (left right : Modes) (instr : Operand → Operand → Operand → Instr) : Modes :=
  ofValue fun s =>
    let l := left.value s
    let r := right.value l.after
    let dest := r.after.temporary
    ⟨l.code ++ r.code ++ [instr dest l.operand r.operand], dest, r.after.afterTemporary⟩

/-- The negative of a value. -/
def negative (operand : Modes) : Modes := ofValue fun s =>
  let v := operand.value s
  let dest := v.after.temporary
  ⟨v.code ++ [.arith .sub dest (.literal 0) v.operand], dest, v.after.afterTemporary⟩

/-- Two operands whose operator no instruction computes. -/
def unknown (left right : Modes) (text : String) : Modes := ofValue fun s =>
  let r := right.value (left.value s).after
  ⟨[], .absent, r.after.fail (.noInstruction text)⟩

/-- The jump that makes a comparison, and whether it takes its operands in reverse. -/
def comparison : RelOp → Comparison × Bool
  | .lt => (.lt, false)
  | .gt => (.lt, true)
  | .le => (.le, false)
  | .ge => (.le, true)
  | .eq => (.eq, false)
  | .ne => (.ne, false)

/-- A comparison. -/
def compare (op : RelOp) (left right : Modes) : Modes := ofBranch fun t s =>
  let l := left.value s
  let r := right.value l.after
  let (test, reversed) := comparison op
  let jump : Instr :=
    if reversed then .branch test r.operand l.operand t.onTrue
    else .branch test l.operand r.operand t.onTrue
  ⟨l.code ++ r.code ++ [jump, .jump t.onFalse], r.after⟩

/-- A conjunction: the right side is reached when the left one holds. -/
def conjunction (left right : Modes) : Modes := ofBranch fun t s =>
  let mid := s.label
  let l := left.branch ⟨some mid, t.onFalse, none⟩ s.afterLabel
  let r := right.branch ⟨t.onTrue, t.onFalse, none⟩ l.after
  ⟨l.code ++ [.label mid] ++ r.code, r.after⟩

/-- A disjunction: the right side is reached when the left one does not hold. -/
def disjunction (left right : Modes) : Modes := ofBranch fun t s =>
  let mid := s.label
  let l := left.branch ⟨t.onTrue, some mid, none⟩ s.afterLabel
  let r := right.branch ⟨t.onTrue, t.onFalse, none⟩ l.after
  ⟨l.code ++ [.label mid] ++ r.code, r.after⟩

/-- A negation. -/
def negation (operand : Modes) : Modes := ofBranch fun t s => operand.branch t.swap s

/-- Values one after the other, and the operand of the last one if there is any. -/
def sequence : List Modes → State → List Instr × Option Operand × State
  | [], s => ([], none, s)
  | m :: ms, s =>
      let v := m.value s
      let (code, last, after) := sequence ms v.after
      (v.code ++ code, last <|> some v.operand, after)

/-- A call that the system answers: it reads or writes the last argument. -/
def systemCall (name : String) (args : List Modes) : Modes := ofValue fun s =>
  let (code, last, after) := sequence args s
  let instr : List Instr :=
    match last with
    | some v => [if name = readCall then .read v else .write v]
    | none => []
  ⟨code ++ instr, .absent, after⟩

/-- Arguments from the place on, each handed over after its code. -/
def handOver (place : Nat) : List Modes → State → Lowered
  | [], s => ⟨[], s⟩
  | m :: ms, s =>
      let v := m.value s
      let others := handOver (place + 1) ms v.after
      ⟨v.code ++ [.arg v.operand place] ++ others.code, others.after⟩

/-- A call of a function of the program, chosen by the types of the arguments. -/
def functionCall (scope : Scope) (name : String) (types : Check.Verdicts) (args : List Modes) :
    Modes := ofValue fun s =>
  let s₀ := s.overhear types.journal
  match scope.function? name types.tys with
  | none => ⟨[], .absent, s₀.fail (.defect (.functionUndeclared name))⟩
  | some f =>
      let label := codeLabel name f.params
      let given := handOver 0 args s₀
      if f.ret.name = "void" then
        ⟨given.code ++ [.call label args.length], .absent, given.after⟩
      else
        let dest := given.after.temporary
        ⟨given.code ++ [.callValue dest label args.length], dest, given.after.afterTemporary⟩

/-- A call. -/
def call (scope : Scope) (name : String) (types : Check.Verdicts) (args : List Modes) : Modes :=
  if isSystemCall name then systemCall name args else functionCall scope name types args

/-- A unary operator; all but `-` and `!` leave their operand as it is. -/
def unary (op : UnaryOp) (operand : Modes) : Modes :=
  match op with
  | .neg => negative operand
  | .not => negation operand
  | .address | .deref | .other _ => ofValue operand.value

/-- A binary operator. -/
def binary (op : BinaryOp) (left right : Modes) : Modes :=
  match op with
  | .arith op => compute left right (.arith op)
  | .rel op => compare op left right
  | .and => conjunction left right
  | .or => disjunction left right
  | .other text => unknown left right text

end Modes

mutual

/-- The code of an expression in its two modes. -/
def modes (scope : Scope) : Expr → Modes
  | .int _ n => .ofOperand (.literal n)
  | .str _ text => .constant text
  | .var _ name => .ofVar scope name
  | .index _ array index => .compute (modes scope array) (modes scope index) .load
  | .call _ name args => .call scope name (Check.typesOf scope args) (modesOf scope args)
  | .unary _ op operand => .unary op (modes scope operand)
  | .binary _ op left right => .binary op (modes scope left) (modes scope right)
  | .nameless kind _ => .ofFault (.noPart kind .name)
  | .misplaced kind => .ofFault (.misplaced .expression kind)

/-- The code of several expressions. -/
def modesOf (scope : Scope) : List Expr → List Modes
  | [] => []
  | e :: es => modes scope e :: modesOf scope es

end

/-- The code that leaves the value of an expression. -/
def value (scope : Scope) (e : Expr) (s : State) : Emitted := (modes scope e).value s

/-- The code that branches on an expression. -/
def branch (scope : Scope) (e : Expr) (t : Targets Target) (s : State) : Lowered :=
  (modes scope e).branch t s

end CMinusMinus.Lower
