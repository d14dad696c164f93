/-
  File:      CMinusMinus/Scope.lean
  Subject:   Scopes: which names mean what.

  A frame holds the declarations of one scope in the order in which they were made. A name is
  bound either to one variable or to functions with pairwise different parameter types. A scope is
  the chain of frames from the innermost block out to the globals. Variables are looked up along
  the chain, functions among the globals only and by exact parameter types.

  * `Frame.add` -- one more declaration, or the defect that forbids it;
  * `Scope.var?`, `Scope.function?` -- the two lookups.
-/
import CMinusMinus.Address
import CMinusMinus.Defect
import CMinusMinus.Ty

namespace CMinusMinus

/-- A variable; its address is known only once storage is given out. -/
structure Variable where
  ty : Ty
  home : Option Address := none
  deriving DecidableEq, Repr

/-- The address of a variable, empty when it has none. -/
def Variable.address (v : Variable) : String :=
  match v.home with
  | some a => a.text
  | none => ""

/-- A function's types, and whether only a prototype of it has been seen. -/
structure Signature where
  ret : Ty
  params : List Ty
  forward : Bool := false
  deriving DecidableEq, Repr

/-- What a name can be bound to. -/
inductive Entry where
  | variable (v : Variable)
  | function (f : Signature)
  deriving DecidableEq, Repr

/-- The declarations of one scope. -/
abbrev Frame := List (String × Entry)

namespace Frame

/-- The name is bound. -/
def binds (frame : Frame) (name : String) : Bool := frame.any fun b => b.1 == name

/-- One more variable: its name must not be bound. -/
def addVariable (frame : Frame) (name : String) (v : Variable) : Except Defect Frame :=
  if frame.binds name then .error (.variableRedeclared name)
  else .ok (frame ++ [(name, .variable v)])

/-- One more function: its name must not be bound to a variable, nor to a function with the same
    parameter types unless this is the definition that completes a prototype. -/
def addFunction (name : String) (f : Signature) : Frame → Except Defect Frame
  | [] => .ok [(name, .function f)]
  | (n, e) :: rest =>
      if n = name then
        match e with
        | .variable _ => .error (.functionRedeclared name)
        | .function g =>
            if Ty.allAgree g.params f.params then
              if g.forward && !f.forward then .ok ((n, .function f) :: rest)
              else .error (.functionRedeclared name)
            else (addFunction name f rest).map ((n, e) :: ·)
      else (addFunction name f rest).map ((n, e) :: ·)

/-- One more declaration. -/
def add (frame : Frame) (name : String) : Entry → Except Defect Frame
  | .variable v => frame.addVariable name v
  | .function f => addFunction name f frame

/-- The variable of a name. -/
def var? (frame : Frame) (name : String) : Option Variable :=
  frame.findSome? fun b =>
    match b with
    | (n, .variable v) => if n = name then some v else none
    | (_, .function _) => none

/-- The function of a name with the parameter types. -/
def function? (frame : Frame) (name : String) (params : List Ty) : Option Signature :=
  frame.findSome? fun b =>
    match b with
    | (n, .function f) => if n = name && Ty.allAgree f.params params then some f else none
    | (_, .variable _) => none

end Frame

/-- A chain of frames: the inner ones, innermost first, and the globals. -/
structure Scope where
  inner : List Frame := []
  globals : Frame := []
  deriving DecidableEq, Repr

namespace Scope

/-- All frames, innermost first. -/
def frames (scope : Scope) : List Frame := scope.inner ++ [scope.globals]

/-- The scope inside one more frame. -/
def push (scope : Scope) (frame : Frame) : Scope := { scope with inner := frame :: scope.inner }

/-- The innermost frame. -/
def top (scope : Scope) : Frame :=
  match scope.inner with
  | frame :: _ => frame
  | [] => scope.globals

/-- The scope with another innermost frame. -/
def withTop (scope : Scope) (frame : Frame) : Scope :=
  match scope.inner with
  | _ :: outer => { scope with inner := frame :: outer }
  | [] => { scope with globals := frame }

/-- The variable that a name means: the innermost one. -/
def var? (scope : Scope) (name : String) : Option Variable :=
  scope.frames.findSome? fun frame => frame.var? name

/-- The innermost variable of a name whose type is no error. -/
def soundVar? (scope : Scope) (name : String) : Option Variable :=
  scope.frames.findSome? fun frame => (frame.var? name).filter fun v => !v.ty.isError

/-- The function that a name means for arguments of the types. -/
def function? (scope : Scope) (name : String) (args : List Ty) : Option Signature :=
  scope.globals.function? name args

end Scope

end CMinusMinus
