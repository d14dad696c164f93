/-
  File:      CMinusMinus/Journal.lean
  Subject:   The journal of a compilation: what happened, in order.

  Every part of the compiler writes down what it does: traces for whoever debugs it, diagnostics
  and notices for the user, and faults. A fault ends the work: of a journal that holds one, only
  what stands before it counts. A part that meets a fault may therefore go on with any value it
  likes; what it writes afterwards is never read.
-/
import CMinusMinus.Fault
import CMinusMinus.Ty

namespace CMinusMinus

/-! ## 1. Events -/

/-- What a part of the compiler tells whoever debugs it. -/
inductive Trace where
  | lexing (path : String)
  | lexed (path : String) (tokens errors : Nat)
  | parsing (path : String)
  | parsed (declarations : Nat)
  | checking (path : String)
  | variableDeclared (name : String) (ty : Ty)
  | functionDeclared (label : String)
  | functionCompleted (label : String)
  | reported (kind : ProblemKind) (pos : Position) (text : String)
  | checked (errors warnings : Nat)
  | lowering (path : String)
  | loweringFunction (label : String)
  deriving DecidableEq, Repr

namespace Trace

/-- The part that speaks. -/
def source : Trace → String
  | .lexing _ | .parsing _ | .checking _ | .lowering _ => "cmmc.compiler"
  | .lexed _ _ _ => "cmmc.lexer"
  | .parsed _ => "cmmc.parser"
  | .variableDeclared _ _ | .functionDeclared _ | .functionCompleted _ => "cmmc.symbols"
  | .reported _ _ _ => "cmmc.errors"
  | .checked _ _ => "cmmc.semantics"
  | .loweringFunction _ => "cmmc.ir"

/-- What it says. -/
def message : Trace → String
  | .lexing path => s!"lexing {path}"
  | .lexed path tokens errors => s!"{path}: {tokens} token(s), {errors} error(s)"
  | .parsing path => s!"parsing {path}"
  | .parsed declarations => s!"parsed {declarations} top-level declaration(s)"
  | .checking path => s!"checking {path}"
  | .variableDeclared name ty => s!"declare variable {name}: {ty.text}"
  | .functionDeclared label => s!"declare function {label}"
  | .functionCompleted label => s!"define forward-declared function {label}"
  | .reported kind pos text => s!"{kind.name} at {pos.text}: {text}"
  | .checked errors warnings => s!"check finished: {errors} error(s), {warnings} warning(s)"
  | .lowering path => s!"translating {path}"
  | .loweringFunction label => s!"translating function {label}"

/-- The line that shows a trace. -/
def text (t : Trace) : String := s!"DEBUG {t.source}: {t.message}"

end Trace

/-- Something that happened. -/
inductive Event where
  | trace (t : Trace)
  | diagnostic (d : Diagnostic)
  /-- A line for the user that is no diagnostic. -/
  | notice (line : String)
  | fault (f : Fault)
  deriving DecidableEq, Repr

/-- What happened, in order. -/
abbrev Journal := List Event

/-! ## 2. Reading a journal -/

namespace Journal

/-- The first fault. -/
def fault? (j : Journal) : Option Fault :=
  j.findSome? fun e =>
    match e with
    | .fault f => some f
    | _ => none

/-- What stands before the first fault. -/
def beforeFault (j : Journal) : Journal :=
  j.takeWhile fun e =>
    match e with
    | .fault _ => false
    | _ => true

/-- The diagnostics. -/
def diagnostics (j : Journal) : List Diagnostic :=
  j.filterMap fun e =>
    match e with
    | .diagnostic d => some d
    | _ => none

/-- All but the diagnostics. -/
def silenced (j : Journal) : Journal :=
  j.filter fun e =>
    match e with
    | .diagnostic _ => false
    | _ => true

/-- The lines for the user: diagnostics and notices. -/
def userLines (j : Journal) : List String :=
  j.filterMap fun e =>
    match e with
    | .diagnostic d => some d.text
    | .notice line => some line
    | _ => none

/-- The lines for whoever debugs. -/
def traceLines (j : Journal) : List String :=
  j.filterMap fun e =>
    match e with
    | .trace t => some t.text
    | _ => none

/-- All lines in the order of the events. -/
def allLines (j : Journal) : List String :=
  j.filterMap fun e =>
    match e with
    | .trace t => some t.text
    | .diagnostic d => some d.text
    | .notice line => some line
    | .fault _ => none

/-- A defect is written down as a diagnostic. -/
def complain (pos : Position) (d : Defect) : Journal := [.diagnostic (d.diagnostic pos)]

/-- A defect that was handed in is traced, then written down. -/
def report (pos : Position) (d : Defect) : Journal :=
  [.trace (.reported d.kind pos d.message), .diagnostic (d.diagnostic pos)]

/-- Complains if the condition holds. -/
def complainIf (condition : Bool) (pos : Position) (d : Defect) : Journal :=
  if condition then complain pos d else []

@[simp] theorem diagnostics_nil : diagnostics [] = [] := rfl

@[simp] theorem diagnostics_append (i j : Journal) :
    diagnostics (i ++ j) = diagnostics i ++ diagnostics j := by
  simp [diagnostics, List.filterMap_append]

end Journal

/-- Each line with its line feed. -/
def unlines (lines : List String) : String := String.join (lines.map (· ++ "\n"))

end CMinusMinus
