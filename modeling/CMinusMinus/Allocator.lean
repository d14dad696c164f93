/-
  File:      CMinusMinus/Allocator.lean
  Subject:   Handing out slots, constants and labels.

  One allocator serves one lowering. It counts the slots of each space, the labels, and keeps
  the string constants in the order in which they come; equal strings get slots of their own.
  Locals, parameters and temporaries start again at zero for every function. A slot for a constant
  is only handed out together with its text.
-/
import CMinusMinus.Address

namespace CMinusMinus

/-- A jump target in code. -/
structure Label where
  number : Nat
  deriving DecidableEq, Repr

/-- The number behind a tilde. -/
def Label.text (l : Label) : String := s!"~{l.number}"

/-- The counters of a lowering. -/
structure Allocator where
  globals : Nat := 0
  locals : Nat := 0
  params : Nat := 0
  temporaries : Nat := 0
  /-- The constants counted so far; entries put straight into the pool are counted with the next
      one that is added. -/
  constantCount : Nat := 0
  labels : Nat := 0
  /-- The texts of the constants, in order. -/
  pool : List String := []
  deriving DecidableEq, Repr

/-- The wording of the refusal to hand out a bare constant slot. -/
def bareConstantMessage : String := "constant slots are allocated through add_constant()"

namespace Allocator

/-- How many slots of a space have been handed out. -/
def count (a : Allocator) : Space → Nat
  | .global => a.globals
  | .local => a.locals
  | .param => a.params
  | .temporary => a.temporaries
  | .constant => a.constantCount

/-- The allocator after one more slot of a space. -/
def bump (a : Allocator) : Space → Allocator
  | .global => { a with globals := a.globals + 1 }
  | .local => { a with locals := a.locals + 1 }
  | .param => { a with params := a.params + 1 }
  | .temporary => { a with temporaries := a.temporaries + 1 }
  | .constant => { a with constantCount := a.constantCount + 1 }

/-- The address that the next slot of a space gets. -/
def nextAddress (a : Allocator) (space : Space) : Address := ⟨space, a.count space⟩

/-- Hands out a slot; none for a bare constant. -/
def newAddress? (a : Allocator) (space : Space) : Option (Address × Allocator) :=
  if space = .constant then none else some (a.nextAddress space, a.bump space)

/-- Hands out a temporary. -/
def newTemporary (a : Allocator) : Address × Allocator :=
  (a.nextAddress .temporary, a.bump .temporary)

/-- Puts a text into the pool, without counting it. -/
def addToPool (a : Allocator) (text : String) : Address × Allocator :=
  (⟨.constant, a.pool.length⟩, { a with pool := a.pool ++ [text] })

/-- Puts a text into the pool and counts all that is in it. -/
def addConstant (a : Allocator) (text : String) : Address × Allocator :=
  let (address, a) := a.addToPool text
  (address, { a with constantCount := a.pool.length })

/-- The label that comes next. -/
def nextLabel (a : Allocator) : Label := ⟨a.labels⟩

/-- Hands out a label. -/
def newLabel (a : Allocator) : Label × Allocator := (a.nextLabel, { a with labels := a.labels + 1 })

/-- Starts a function: its own spaces are empty again. -/
def resetFunction (a : Allocator) : Allocator := { a with locals := 0, params := 0, temporaries := 0 }

end Allocator

end CMinusMinus
