/-
  File:      CMinusMinus/Main.lean
  Subject:   The compiler as a command.

  All decisions are made elsewhere; here files are opened and texts are printed.
-/
import CMinusMinus.CommandLine.Session

namespace CMinusMinus.CommandLine

/-- The problem behind a failed file operation, as the machine numbers and words it. -/
def problemOf : IO.Error → FileProblem
  | .alreadyExists _ code details | .interrupted _ code details | .noFileOrDirectory _ code details
  | .invalidArgument _ code details | .permissionDenied _ code details
  | .resourceExhausted _ code details | .inappropriateType _ code details
  | .noSuchThing _ code details | .otherError code details | .resourceBusy code details
  | .resourceVanished code details | .unsupportedOperation code details
  | .hardwareFault code details | .unsatisfiedConstraints code details
  | .illegalOperation code details | .protocolError code details | .timeExpired code details =>
      ⟨code.toNat, details⟩
  | .unexpectedEof => ⟨5, "Input/output error"⟩
  | .userError details => ⟨5, details⟩

/-- The bytes of a file of the machine. -/
def openFile (path : String) : IO (Except FileProblem (List UInt8)) := do
  try
    let bytes ← IO.FS.readBinFile path
    return .ok bytes.data.toList
  catch e => return .error (problemOf e)

/-- Writes a file of the machine; what kept it from being written, if anything did. -/
def saveFile (path : String) (bytes : List UInt8) : IO (Option FileProblem) := do
  try
    IO.FS.writeBinFile path ⟨bytes.toArray⟩
    return none
  catch e => return some (problemOf e)

/-- Prints what a run shows; a fault is told on standard error. -/
def present (d : Display) : IO UInt32 := do
  IO.print d.stdout
  IO.eprint d.stderr
  match d.exit with
  | .ok code => return code.toUInt32
  | .error f =>
      IO.eprintln f.message
      return 1

/-- Runs the compiler on the files of the machine. -/
def runOnMachine (arguments : List String) : IO UInt32 := do
  match Command.ofArguments arguments with
  | .error e => present { exit := .ok 2, stderr := usageText e }
  | .ok .help => present { exit := .ok 0, stdout := helpText }
  | .ok (.build source output checkOnly verbose) => do
      let level ← IO.getEnv logVariable
      let a := attempt source checkOnly (← openFile source)
      let problem ← match a.wanted output with
        | some (name, bytes) => saveFile name bytes
        | none => pure none
      let traced := verbose || showsTraces level
      present (display output checkOnly traced a.journal (a.settle output problem))

end CMinusMinus.CommandLine

/-- The compiler as a command. -/
def main (arguments : List String) : IO UInt32 :=
  CMinusMinus.CommandLine.runOnMachine arguments
