/-
  File:      CMinusMinus/CommandLine/Session.lean
  Subject:   A run of the compiler from its arguments to its exit code.

  Code goes to standard output unless an output file is named or the program is only checked;
  diagnostics go to the other stream then, and to standard output otherwise. Traces go to standard
  error when they are asked for. A source that could not be read is an error on standard output.
-/
import CMinusMinus.CommandLine
import CMinusMinus.Compilation.Source

namespace CMinusMinus.CommandLine

/-! ## 1. Fixed texts -/

/-- The name of the command. -/
def commandName : String := "cmmc"

/-- The line that shows the arguments. -/
def usageLine : String := s!"usage: {commandName} [-h] [-o OUTPUT] [--check-only] [-v] source"

/-- The text of `-h`. -/
def helpText : String :=
  unlines
    [usageLine,
     "",
     "C-- to three-address code compiler",
     "",
     "positional arguments:",
     "  source         Input C-- source file",
     "",
     "options:",
     "  -h, --help     show this help message and exit",
     "  -o OUTPUT      Output file for the IR (default: stdout)",
     "  --check-only   Stop after semantic checking",
     "  -v, --verbose  Enable debug logging"]

/-- The text of a usage error. -/
def usageText (e : UsageError) : String :=
  unlines [usageLine, s!"{commandName}: error: {e.message}"]

/-! ## 2. Traces -/

/-- The environment variable that sets how much is logged. -/
def logVariable : String := "CMMC_LOG_LEVEL"

/-- The characters outside ASCII whose capital form is in ASCII. -/
def asciiCapitals : List (Char × String) :=
  [('ß', "SS"), ('ı', "I"), ('ſ', "S"), ('ﬀ', "FF"), ('ﬁ', "FI"), ('ﬂ', "FL"), ('ﬃ', "FFI"),
   ('ﬄ', "FFL"), ('ﬅ', "ST"), ('ﬆ', "ST")]

/-- The capital form of a text, as far as it is in ASCII. -/
def capitals (s : String) : String :=
  String.join (s.toList.map fun c => (asciiCapitals.lookup c).getD (String.singleton c.toUpper))

/-- The level shows traces; all other levels, and texts that are none, hide them. -/
def showsTraces (level : Option String) : Bool :=
  match level with
  | some text => capitals text == "DEBUG" || capitals text == "NOTSET"
  | none => false

/-! ## 3. Sessions -/

/-- What a run shows: its exit code, or the fault that ended it without one, and its streams. -/
structure Display where
  exit : Except Fault Nat
  stdout : String := ""
  stderr : String := ""

/-- The streams after a compilation: the lines of its journal, each on its stream. -/
def streams (toStdout traced : Bool) (j : Journal) : String × String :=
  if toStdout then (unlines j.userLines, if traced then unlines j.traceLines else "")
  else ("", unlines (if traced then j.allLines else j.userLines))

/-- An output file is named. -/
def isNamed (output : Option String) : Bool := output.any (· ≠ "")

/-- What follows the diagnostics on standard output. -/
def closing (output : Option String) (r : Report) : String :=
  if !r.success then
    if r.diagnostics.isNone then unlines (r.errors.map ("Error: " ++ ·)) else ""
  else if isNamed output then "" else r.code.getD ""

/-- What a build shows. -/
def display (output : Option String) (checkOnly traced : Bool) (journal : Journal)
    (report : Except Fault Report) : Display :=
  let (out, err) := streams (isNamed output || checkOnly) traced journal
  match report with
  | .error f => { exit := .error f, stdout := out, stderr := err }
  | .ok r =>
      { exit := .ok (if r.success then 0 else 1), stdout := out ++ closing output r,
        stderr := err }

/-- What a run leaves behind. -/
structure Session (σ : Type) where
  display : Display
  files : σ

/-- Runs the compiler on its arguments; `level` is the value of the environment variable. -/
def run {σ : Type} [FileSystem σ] (files : σ) (level : Option String) (arguments : List String) :
    Session σ :=
  match Command.ofArguments arguments with
  | .error e => ⟨{ exit := .ok 2, stderr := usageText e }, files⟩
  | .ok .help => ⟨{ exit := .ok 0, stdout := helpText }, files⟩
  | .ok (.build source output checkOnly verbose) =>
      let build := compileFile files source output checkOnly
      let traced := verbose || showsTraces level
      ⟨display output checkOnly traced build.journal build.report, build.files⟩

end CMinusMinus.CommandLine
