/-
  File:      CMinusMinus/Lower/State.lean
  Subject:   What lowering carries along.

  Lowering draws addresses and labels from an allocator and writes a journal. To choose among
  functions of one name it asks the checker for the types of arguments; what the checker complains
  about then is kept apart and shown to nobody, since the program has been checked before.
-/
import CMinusMinus.Check.Program
import CMinusMinus.Code.Instr

namespace CMinusMinus.Lower

/-- What lowering carries along. -/
structure State where
  alloc : Allocator := {}
  journal : Journal := []
  /-- The complaints about argument types. -/
  unreported : List Diagnostic := []
  deriving DecidableEq, Repr

namespace State

/-- The state after one more event. -/
def note (s : State) (e : Event) : State := { s with journal := s.journal ++ [e] }

/-- The state after a fault. -/
def fail (s : State) (f : Fault) : State := s.note (.fault f)

/-- The state after the checker's journal on argument types. -/
def overhear (s : State) (j : Journal) : State :=
  { s with journal := s.journal ++ j.silenced, unreported := s.unreported ++ j.diagnostics }

/-- The state after a label is drawn. -/
def afterLabel (s : State) : State := { s with alloc := s.alloc.newLabel.2 }

/-- The state after a temporary is drawn. -/
def afterTemporary (s : State) : State := { s with alloc := s.alloc.newTemporary.2 }

/-- The label that is drawn next. -/
def label (s : State) : Label := s.alloc.nextLabel

/-- The temporary that is drawn next. -/
def temporary (s : State) : Operand := .address s.alloc.newTemporary.1

end State

/-- Code with the operand that holds its value, and the state after it. -/
structure Emitted where
  code : List Instr
  operand : Operand
  after : State
  deriving DecidableEq, Repr

/-- Code of a statement, and the state after it. -/
structure Lowered where
  code : List Instr
  after : State
  deriving DecidableEq, Repr

end CMinusMinus.Lower
