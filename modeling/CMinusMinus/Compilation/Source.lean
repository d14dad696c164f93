/-
  File:      CMinusMinus/Compilation/Source.lean
  Subject:   Compiling a source file into an output file.

  A source file is read as a whole, decoded from UTF-8, and its line ends are made uniform before
  it is compiled. The code goes to the output file, if one is named, and only once all phases have
  succeeded. A file that cannot be opened makes the compilation fail with one error.

  What is decided and what touches files are kept apart:

  * `attempt` -- the compilation of what was read;
  * `Attempt.wanted` -- the file that is to be written, if any;
  * `Attempt.settle` -- the report, given how the writing went;
  * `Attempt.finish`, `compileFile` -- all of it on a file system.
-/
import CMinusMinus.Compilation
import CMinusMinus.Files
import CMinusMinus.Text.LineEnd

namespace CMinusMinus

/-! ## 1. Reading -/

/-- The path holds a zero character, which no path can. -/
def hasZero (path : String) : Bool := path.toList.contains '\x00'

/-- The text of a source file, or the bytes that are none. -/
def sourceText (bytes : List UInt8) : Except Text.Utf8Fault (List Char) :=
  (Text.decode bytes).map Text.normaliseLineEnds

/-- A compilation before its output file is written. -/
structure Attempt where
  report : Except Fault Report
  journal : Journal

/-- The compilation of a source file, given what opening it came to. -/
def attempt (path : String) (checkOnly : Bool) (opened : Except FileProblem (List UInt8)) :
    Attempt :=
  if hasZero path then ⟨.error .zeroInPath, []⟩
  else match opened with
    | .error e =>
        ⟨.ok { success := false,
               errors := ["Failed to read source file: " ++ e.describe path] }, []⟩
    | .ok bytes =>
        match sourceText bytes with
        | .error f => ⟨.error (.encoding f), []⟩
        | .ok source =>
            let c := compile path checkOnly source
            ⟨c.report, c.journal⟩

/-! ## 2. Writing -/

/-- The bytes of a text. -/
def textBytes (text : String) : List UInt8 := text.toUTF8.data.toList

namespace Attempt

/-- The file to be written and its bytes. Nothing is written without code, without a name, or
    under an empty name. -/
def wanted (a : Attempt) (output : Option String) : Option (String × List UInt8) :=
  match a.report, output with
  | .ok report, some name =>
      if name = "" || hasZero name then none
      else report.code.map fun text => (name, textBytes text)
  | _, _ => none

/-- The report once the output file is written; `problem` is what kept it from being written. An
    empty output name is kept in the report, but names no file. -/
def settle (a : Attempt) (output : Option String) (problem : Option FileProblem) :
    Except Fault Report :=
  match a.report, output with
  | .ok report, some name =>
      if report.code.isNone then .ok report
      else if hasZero name then .error .zeroInPath
      else match problem with
        | none => .ok { report with outputFile := some name }
        | some e => .ok
            { success := false,
              errors := ["Failed to write output file: " ++ e.describe name],
              warnings := report.warnings, diagnostics := report.diagnostics }
  | result, _ => result

end Attempt

/-! ## 3. On a file system -/

variable {σ : Type} [FileSystem σ]

/-- What compiling a file leaves behind: its report, what happened, and the files. -/
structure Build (σ : Type) where
  report : Except Fault Report
  journal : Journal
  files : σ

/-- What an attempt leaves behind once its output file is written, if it wants one. -/
def Attempt.finish (a : Attempt) (files : σ) (output : Option String) : Build σ :=
  match a.wanted output with
  | none => ⟨a.settle output none, a.journal, files⟩
  | some (name, bytes) =>
      match FileSystem.write files name bytes with
      | .ok files' => ⟨a.settle output none, a.journal, files'⟩
      | .error e => ⟨a.settle output (some e), a.journal, files⟩

/-- Compiles a source file. -/
def compileFile (files : σ) (path : String) (output : Option String) (checkOnly : Bool) : Build σ :=
  (attempt path checkOnly (FileSystem.read files path)).finish files output

end CMinusMinus
