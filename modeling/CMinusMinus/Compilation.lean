/-
  File:      CMinusMinus/Compilation.lean
  Subject:   Compiling a source text.

  A compilation goes through four phases: lexing, parsing, checking, lowering. Lexical and
  syntax errors end it before the next phase; semantic errors end it after the check, which always
  runs to its end and sums up what it found. A compilation that only checks stops there, too.

  * `compile` -- the journal of a compilation and how it ended;
  * `Report` -- the ending as a user of the compiler sees it.
-/
import CMinusMinus.Lower.Program
import CMinusMinus.Parse.Program
import CMinusMinus.Token.Scan

namespace CMinusMinus

/-! ## 1. Phases -/

/-- The last line after lexical and syntax errors. -/
def fatalAbort : String := "Confused by earlier errors: aborting"

/-- The last line after semantic errors. -/
def semanticAbort : String := "Compile error(s): aborting"

/-- How a compilation ended. -/
inductive Ending where
  /-- The program has errors; the line says which kind. -/
  | refused (line : String)
  /-- The program is free of errors and was only checked. -/
  | checked
  | lowered (code : List Instr)
  | faulted (f : Fault)
  deriving DecidableEq, Repr

/-- A compilation: what happened, up to a fault, and how it ended. -/
structure Compilation where
  journal : Journal
  ending : Ending
  deriving DecidableEq, Repr

namespace Compilation

/-- What happened before, then this. -/
def after (earlier : Journal) (c : Compilation) : Compilation :=
  { c with journal := earlier ++ c.journal }

/-- The end of a compilation of a program with errors. -/
def refuse (line : String) : Compilation := ⟨[.notice line], .refused line⟩

/-- The end of a compilation by a fault. -/
def fail (f : Fault) : Compilation := ⟨[], .faulted f⟩

end Compilation

open Compilation in
/-- The lowering of a checked program. -/
def lowerProgram (path : String) (p : Program) : Compilation :=
  let lowered := Lower.program p {}
  let journal := lowered.after.journal
  after (.trace (.lowering path) :: journal.beforeFault)
    (match journal.fault? with
     | some f => fail f
     | none => ⟨[], .lowered lowered.code⟩)

open Compilation in
/-- The check of a program, and its lowering unless it is only checked. -/
def checkProgram (path : String) (checkOnly : Bool) (p : Program) : Compilation :=
  let journal := Check.program p
  let diagnostics := journal.diagnostics
  after (.trace (.checking path) :: journal.beforeFault)
    (match journal.fault? with
     | some f => fail f
     | none =>
        after [.notice (Diagnostic.summary diagnostics)]
          (if Diagnostic.count diagnostics .semanticError ≠ 0 then refuse semanticAbort
           else if checkOnly then ⟨[], .checked⟩
           else lowerProgram path p))

open Compilation in
/-- Parsing, and what follows it. -/
def compileTokens (path : String) (checkOnly : Bool) (tokens : List Token) : Compilation :=
  after [.trace (.parsing path)]
    (match Parse.program tokens with
     | .error (.numeral f) => fail (.numeral f)
     | .error (.unexpected problem token) =>
        let pos := (token.map Token.pos).getD {}
        after [.diagnostic ⟨pos, .fatal, problem.message⟩] (refuse fatalAbort)
     | .ok p => after [.trace (.parsed p.decls.length)] (checkProgram path checkOnly p))

/-- The diagnostic of a lexical issue. -/
def LexicalIssue.diagnostic (severity : Severity) (i : LexicalIssue) : Diagnostic :=
  ⟨i.pos, severity, i.problem.message⟩

/-- What lexing tells the user: warnings first, then errors. -/
def Scan.diagnostics (s : Scan) : List Diagnostic :=
  s.warnings.map (·.diagnostic .warning) ++ s.errors.map (·.diagnostic .fatal)

open Compilation in
/-- Compiles a source text; the path only serves the traces. -/
def compile (path : String) (checkOnly : Bool) (source : List Char) : Compilation :=
  after [.trace (.lexing path)]
    (match scan source with
     | .error f => fail (.numeral f)
     | .ok s =>
        after (.trace (.lexed path s.tokens.length s.errors.length) ::
            s.diagnostics.map .diagnostic)
          (if s.errors.isEmpty then compileTokens path checkOnly s.tokens
           else refuse fatalAbort))

/-! ## 2. Reports -/

/-- The path that stands for a text that came from no file. -/
def inputPath : String := "<input>"

/-- The ending of a compilation as its user sees it. -/
structure Report where
  success : Bool
  outputFile : Option String := none
  errors : List String := []
  warnings : List String := []
  /-- The text of the code. -/
  code : Option String := none
  /-- Missing when the source could not be read at all. -/
  diagnostics : Option (List Diagnostic) := none
  deriving DecidableEq, Repr

/-- The text of a program's code, one instruction a line. -/
def programText (code : List Instr) : String := codeText (code.map Instr.line)

/-- The report of a compilation that wrote no file; none for a fault. -/
def Compilation.report (c : Compilation) : Except Fault Report :=
  let diagnostics := c.journal.diagnostics
  let warnings := Diagnostic.warnings diagnostics
  match c.ending with
  | .refused line => .ok
      { success := false, errors := Diagnostic.errors diagnostics ++ [line], warnings,
        diagnostics := some diagnostics }
  | .checked => .ok { success := true, warnings, diagnostics := some diagnostics }
  | .lowered code => .ok
      { success := true, warnings, code := some (programText code),
        diagnostics := some diagnostics }
  | .faulted f => .error f

end CMinusMinus
