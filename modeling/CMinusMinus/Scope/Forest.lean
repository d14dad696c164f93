/-
  File:      CMinusMinus/Scope/Forest.lean
  Subject:   Scopes that are made, filled and asked by number.

  A forest holds numbered frames, each of them a root or inside another one. Declarations go into
  the frame of a number; lookups start there and see what its ancestors hold at that moment.
-/
import CMinusMinus.Scope

namespace CMinusMinus

/-- A frame of a forest: the number of its parent, which is smaller than its own, and what it
    declares. -/
structure Forest.Tree where
  parent : Option Nat
  frame : Frame
  deriving DecidableEq, Repr

/-- Numbered frames. -/
structure Forest where
  trees : List Forest.Tree
  deriving DecidableEq, Repr

namespace Forest

/-- A forest of one root. -/
def single : Forest := ⟨[⟨none, []⟩]⟩

/-- One more frame, inside a parent or as a root; its number comes first. -/
def grow (forest : Forest) (parent : Option Nat) : Nat × Forest :=
  (forest.trees.length, ⟨forest.trees ++ [⟨parent, []⟩]⟩)

/-- The parent of a frame. -/
def parent? (forest : Forest) (n : Nat) : Option Nat :=
  match forest.trees[n]? with
  | some tree => tree.parent
  | none => none

/-- The declarations of a frame. -/
def frame (forest : Forest) (n : Nat) : Frame :=
  match forest.trees[n]? with
  | some tree => tree.frame
  | none => []

/-- The numbers from a frame out to its root. Parents are older than their children, so at most
    `fuel + 1` of them follow a number up to `fuel`. -/
def ancestors (forest : Forest) : Nat → Nat → List Nat
  | 0, n => [n]
  | fuel + 1, n =>
      match forest.parent? n with
      | some p => n :: ancestors forest fuel p
      | none => [n]

/-- The numbers from a frame out to its root. -/
def path (forest : Forest) (n : Nat) : List Nat := forest.ancestors n n

/-- The root of a frame. -/
def root (forest : Forest) (n : Nat) : Nat := (forest.path n).getLastD n

/-- The scope that starts at a frame. -/
def scope (forest : Forest) (n : Nat) : Scope where
  inner := (forest.path n).dropLast.map forest.frame
  globals := forest.frame (forest.root n)

/-- One more declaration in a frame. -/
def add (forest : Forest) (n : Nat) (name : String) (entry : Entry) : Except Defect Forest :=
  match (forest.frame n).add name entry with
  | .error d => .error d
  | .ok frame => .ok ⟨forest.trees.modify n fun tree => { tree with frame := frame }⟩

end Forest

end CMinusMinus
