/-
  File:      CMinusMinus/Code/Instr.lean
  Subject:   Three-address code.

  The operands of an instruction are integer literals and storage addresses; a call without a
  result leaves no operand behind. Jumps go to labels of the same function, calls to the code
  labels of functions.

  * `Instr.line` -- the text form of an instruction;
  * `Instr.uses` -- a label is among its operands as they are written.
-/
import CMinusMinus.Allocator
import CMinusMinus.Code.Line
import CMinusMinus.Expr

namespace CMinusMinus

/-- What an instruction reads or writes. -/
inductive Operand where
  /-- The operand that a call without a result leaves behind. -/
  | absent
  | literal (n : Int)
  | address (a : Address)
  deriving DecidableEq, Repr

/-- The text of an operand. -/
def Operand.text : Operand → String
  | .absent => ""
  | .literal n => toString n
  | .address a => a.text

/-- Where a jump goes; a jump that no statement gave a target to goes nowhere. -/
abbrev Target := Option Label

/-- The text of a jump's target. -/
def Target.text (t : Target) : String :=
  match t with
  | some l => l.text
  | none => ""

/-- The targets that an expression or a statement inherits: where to go when a condition holds,
    where when it does not, and where after a statement. -/
structure Targets (α : Type) where
  onTrue : α
  onFalse : α
  next : α
  deriving DecidableEq, Repr

namespace Targets

variable {α : Type}

/-- The targets of the negated condition. -/
def swap (t : Targets α) : Targets α := { t with onTrue := t.onFalse, onFalse := t.onTrue }

end Targets

/-- The comparisons that a jump can make. -/
inductive Comparison where
  | lt | le | eq | ne
  deriving DecidableEq, Repr

/-- The mnemonic of a conditional jump. -/
def Comparison.mnemonic : Comparison → String
  | .lt => "jlt"
  | .le => "jlte"
  | .eq => "jeq"
  | .ne => "jneq"

/-- The mnemonic of an arithmetic instruction. -/
def ArithOp.mnemonic : ArithOp → String
  | .add => "add"
  | .sub => "sub"
  | .mul => "mult"
  | .div => "div"
  | .mod => "mod"

/-- An instruction. -/
inductive Instr where
  /-- A string constant, its text as written in the source. -/
  | string (text : String)
  /-- The program's start and the number of its globals. -/
  | entry (label : String) (globals : Nat)
  | func (label : String)
  /-- The numbers of locals and temporaries of the function. -/
  | frame (locals temporaries : Nat)
  | endFunc (label : String)
  | label (l : Label)
  | move (dest source : Operand)
  | arith (op : ArithOp) (dest left right : Operand)
  /-- Reads an array element. -/
  | load (dest base index : Operand)
  /-- Writes an array element. -/
  | store (base index source : Operand)
  | jump (target : Target)
  | branch (test : Comparison) (left right : Operand) (target : Target)
  /-- Hands over an argument and its place. -/
  | arg (value : Operand) (place : Nat)
  | call (label : String) (args : Nat)
  | callValue (dest : Operand) (label : String) (args : Nat)
  | ret (label : String)
  | retValue (label : String) (value : Operand)
  | read (dest : Operand)
  | write (value : Operand)
  deriving DecidableEq, Repr

namespace Instr

/-- The text form of an instruction. -/
def line : Instr → Line
  | .string text => ⟨"str", [text]⟩
  | .entry name globals => ⟨"entry", [name, toString globals]⟩
  | .func name => ⟨"func", [name]⟩
  | .frame locals temporaries => ⟨"funci", [toString locals, toString temporaries]⟩
  | .endFunc name => ⟨"efunc", [name]⟩
  | .label l => .ofLabel l.text
  | .move dest source => ⟨"move", [dest.text, source.text]⟩
  | .arith op dest left right => ⟨op.mnemonic, [dest.text, left.text, right.text]⟩
  | .load dest base index => ⟨"arrg", [dest.text, base.text, index.text]⟩
  | .store base index source => ⟨"arrs", [base.text, index.text, source.text]⟩
  | .jump target => ⟨"jump", [target.text]⟩
  | .branch test left right target => ⟨test.mnemonic, [left.text, right.text, target.text]⟩
  | .arg value place => ⟨"arg", [value.text, toString place]⟩
  | .call name args => ⟨"call", [name, toString args]⟩
  | .callValue dest name args => ⟨"callf", [dest.text, name, toString args]⟩
  | .ret name => ⟨"ret", [name]⟩
  | .retValue name value => ⟨"retf", [name, value.text]⟩
  | .read dest => ⟨"read", [dest.text]⟩
  | .write value => ⟨"write", [value.text]⟩

/-- The label is among the operands as they are written. -/
def uses (i : Instr) (l : Label) : Bool := i.line.uses l.text

end Instr

end CMinusMinus
