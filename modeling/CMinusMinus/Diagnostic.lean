/-
  File:      CMinusMinus/Diagnostic.lean
  Subject:   Diagnostics: what a compilation tells its user.

  A diagnostic is a position, a severity and a message. Problems that other parts hand in belong
  to a kind, and the kind decides the severity. The counts and the two lists that a report shows
  are read off the list of diagnostics.
-/
import CMinusMinus.Position

namespace CMinusMinus

/-- How grave a diagnostic is. -/
inductive Severity where
  | fatal
  | warning
  | semanticError
  | semanticWarning
  deriving DecidableEq, Repr

/-- The name of a severity in messages. -/
def Severity.name : Severity → String
  | .fatal => "ERROR"
  | .warning => "WARNING"
  | .semanticError => "SEMANTIC ERROR"
  | .semanticWarning => "SEMANTIC WARNING"

/-- A message at a position. -/
structure Diagnostic where
  pos : Position
  severity : Severity
  message : String
  deriving DecidableEq, Repr

namespace Diagnostic

/-- The line that shows a diagnostic. -/
def text (d : Diagnostic) : String := s!"{d.pos.text} **{d.severity.name}** {d.message}"

/-- Lexical, syntax and semantic errors. -/
def isError (d : Diagnostic) : Bool :=
  match d.severity with
  | .fatal | .semanticError => true
  | .warning | .semanticWarning => false

/-- The lines of the errors. -/
def errors (ds : List Diagnostic) : List String := (ds.filter isError).map text

/-- The lines of the warnings. -/
def warnings (ds : List Diagnostic) : List String := (ds.filter fun d => !d.isError).map text

/-- How many diagnostics have the severity. -/
def count (ds : List Diagnostic) (severity : Severity) : Nat :=
  ds.countP fun d => d.severity == severity

/-- A lexical or syntax error is among them. -/
def hasFatal (ds : List Diagnostic) : Bool := ds.any fun d => d.severity == .fatal

/-- The line that sums up a check. -/
def summary (ds : List Diagnostic) : String :=
  s!"Semantic Error(s): {count ds .semanticError}. " ++
    s!"Semantic Warning(s): {count ds .semanticWarning}."

end Diagnostic

/-! ## Problems that are handed in -/

/-- The kinds of problems. -/
inductive ProblemKind where
  | general
  | lexical
  | semantic
  | conflict
  | undeclared
  | advisory
  deriving DecidableEq, Repr

namespace ProblemKind

/-- All kinds. -/
def all : List ProblemKind := [.general, .lexical, .semantic, .conflict, .undeclared, .advisory]

/-- The name of a kind in the log. -/
def name : ProblemKind → String
  | .general => "CompilingError"
  | .lexical => "LexicalError"
  | .semantic => "SemanticError"
  | .conflict => "DeclarationConflict"
  | .undeclared => "UndeclaredName"
  | .advisory => "SemanticWarning"

/-- The kind of a name. -/
def ofName? (name : String) : Option ProblemKind := all.find? fun k => k.name == name

/-- The severity of a problem that is handed in. -/
def severity : ProblemKind → Severity
  | .lexical => .fatal
  | .advisory => .semanticWarning
  | .general | .semantic | .conflict | .undeclared => .semanticError

end ProblemKind

/-- A problem with the place it knows of itself; where it is reported is another matter. -/
structure Problem where
  kind : ProblemKind
  text : String
  line : Option Int := none
  column : Option Int := none
  deriving DecidableEq, Repr

namespace Problem

/-- The text, and the place if the line is known. -/
def describe (p : Problem) : String :=
  match p.line with
  | none => p.text
  | some line =>
      let column := match p.column with
        | some column => toString column
        | none => "None"
      s!"{p.text} at {line}:{column}"

/-- The diagnostic of a problem that is reported at a position. -/
def diagnostic (p : Problem) (pos : Position) : Diagnostic := ⟨pos, p.kind.severity, p.text⟩

end Problem

end CMinusMinus
