/-
  File:      CMinusMinus/Address.lean
  Subject:   Addresses: where a value is stored.

  A storage slot has an address space and a number. Globals and constants live as long as the
  program; locals, parameters and temporaries belong to one function.
-/

namespace CMinusMinus

/-- The address spaces. -/
inductive Space where
  | global
  | local
  | param
  | temporary
  | constant
  deriving DecidableEq, Repr

/-- The sign in front of a slot's number. -/
def Space.sign : Space → Char
  | .global => '$'
  | .local => '@'
  | .param => '%'
  | .temporary => '&'
  | .constant => '?'

/-- A slot of an address space. -/
structure Address where
  space : Space
  slot : Int
  deriving DecidableEq, Repr

/-- The sign of the space and the number of the slot. -/
def Address.text (a : Address) : String := String.singleton a.space.sign ++ toString a.slot

end CMinusMinus
