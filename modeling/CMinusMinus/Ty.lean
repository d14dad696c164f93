/-
  File:      CMinusMinus/Ty.lean
  Subject:   Types of C--.

  A type is a base name, a depth of pointers and, for an array variable, its size. Two types AGREE
  when base name and pointer depth are the same: the size of an array plays no part. The base name
  `error` marks what error recovery leaves behind and agrees with nothing on purpose; rules look
  at `isError` first.
-/

namespace CMinusMinus

/-- A type: base name, pointer depth, array size. -/
structure Ty where
  name : String
  pointers : Int := 0
  extent : Option Int := none
  deriving DecidableEq, Repr

namespace Ty

/-- The integers. -/
def int : Ty := { name := "int" }

/-- The truth values. -/
def bool : Ty := { name := "bool" }

/-- The strings. -/
def string : Ty := { name := "string" }

/-- No value. -/
def void : Ty := { name := "void" }

/-- What an ill-typed expression has. -/
def error : Ty := { name := "error" }

/-- The base names that a program may write. -/
def names : List String := ["int", "bool", "string", "void"]

/-- The type of an ill-typed expression. -/
def isError (t : Ty) : Bool := t.name == "error"

/-- Base name and pointer depth are the same. -/
def agrees (a b : Ty) : Bool := a.name == b.name && a.pointers == b.pointers

/-- The type of an element: the array size is dropped, the pointers stay. -/
def element (t : Ty) : Ty := { t with extent := none }

/-- The base name, one star a pointer, and the size in brackets. -/
def text (t : Ty) : String :=
  t.name ++ String.ofList (List.replicate t.pointers.toNat '*') ++
    (match t.extent with
     | some n => s!"[{n}]"
     | none => "")

@[simp] theorem agrees_refl (t : Ty) : t.agrees t = true := by simp [agrees]

theorem agrees_iff (a b : Ty) : a.agrees b = true ↔ a.name = b.name ∧ a.pointers = b.pointers := by
  simp [agrees]

/-- Two lists of types agree place by place. -/
def allAgree : List Ty → List Ty → Bool
  | [], [] => true
  | a :: as, b :: bs => a.agrees b && allAgree as bs
  | _, _ => false

/-- The types of a list without those that agree with an earlier one. -/
def distinct : List Ty → List Ty
  | [] => []
  | t :: rest => t :: (distinct rest).filter fun u => !t.agrees u

end Ty

/-- The code label of a function: its name and the base names of its parameters, joined by
    underscores. -/
def codeLabel (name : String) (params : List Ty) : String :=
  String.intercalate "_" (name :: params.map Ty.name)

end CMinusMinus
