import CMinusMinus.Address
import CMinusMinus.Allocator
import CMinusMinus.Check.Expr
import CMinusMinus.Check.Program
import CMinusMinus.Code.Draft
import CMinusMinus.Code.Instr
import CMinusMinus.Code.Line
import CMinusMinus.CommandLine
import CMinusMinus.CommandLine.Session
import CMinusMinus.Compilation
import CMinusMinus.Compilation.Source
import CMinusMinus.Defect
import CMinusMinus.Diagnostic
import CMinusMinus.Expr
import CMinusMinus.Fault
import CMinusMinus.Files
import CMinusMinus.Journal
import CMinusMinus.Lower.Expr
import CMinusMinus.Lower.Program
import CMinusMinus.Lower.State
import CMinusMinus.Main
import CMinusMinus.Parse.Expr
import CMinusMinus.Parse.Program
import CMinusMinus.Parse.Stream
import CMinusMinus.Position
import CMinusMinus.Program
import CMinusMinus.Proofs.ProperTrees
import CMinusMinus.Proofs.Reading
import CMinusMinus.Proofs.Spelling
import CMinusMinus.Scope
import CMinusMinus.Scope.Forest
import CMinusMinus.Text.Digit
import CMinusMinus.Text.Interval
import CMinusMinus.Text.Letter
import CMinusMinus.Text.LineEnd
import CMinusMinus.Text.Numeral
import CMinusMinus.Text.Numeric
import CMinusMinus.Text.Printable
import CMinusMinus.Text.Quoted
import CMinusMinus.Text.Utf8
import CMinusMinus.Token
import CMinusMinus.Token.Piece
import CMinusMinus.Token.Scan
import CMinusMinus.Token.Scanner
import CMinusMinus.Ty
import CMinusMinus.Proofs.Journals
import CMinusMinus.Proofs.Typing
import CMinusMinus.Proofs.WellTyped
import CMinusMinus.Proofs.BareScopes
import CMinusMinus.Proofs.Passage
import CMinusMinus.Proofs.Agreement
import CMinusMinus.Proofs.LabelText
import CMinusMinus.Proofs.TidyCode
import CMinusMinus.Proofs.Scanning
import CMinusMinus.Proofs.Segments
import CMinusMinus.Proofs.JumpClosure
import CMinusMinus.Proofs.FunctionLabels
import CMinusMinus.Proofs.Machine
import CMinusMinus.Proofs.Evaluation
import CMinusMinus.Proofs.Execution
import CMinusMinus.Proofs.MeaningPreserved
import CMinusMinus.Proofs.Walks
import CMinusMinus.Proofs.FactsOfCode
import CMinusMinus.Proofs.Literals
import CMinusMinus.Proofs.FunctionSites
import CMinusMinus.Proofs.Marks
import CMinusMinus.Proofs.CallDiscipline
import CMinusMinus.Proofs.Temporaries
import CMinusMinus.Proofs.CallForms
import CMinusMinus.Proofs.MissingValues
import CMinusMinus.Proofs.BooleanCode
import CMinusMinus.Proofs.Acceptance
import CMinusMinus.Proofs.Law
import CMinusMinus.Proofs.Tables
import CMinusMinus.Proofs.LawfulPrograms
import CMinusMinus.Proofs.Uses
import CMinusMinus.Proofs.UsesOfCode
import CMinusMinus.Proofs.Arrivals
import CMinusMinus.Proofs.CodeLayout
import CMinusMinus.Proofs.LexicalAddresses
import CMinusMinus.Proofs.Phrases
import CMinusMinus.Proofs.Outcomes
import CMinusMinus.Proofs.Numerals
import CMinusMinus.Proofs.ParserTotality
import CMinusMinus.Proofs.Recognition
import CMinusMinus.Proofs.Printing
import CMinusMinus.Proofs.RoundTrip
import CMinusMinus.Proofs.Grammar
import CMinusMinus.Proofs.ParserGrammar
import CMinusMinus.Proofs.SingleDefect
import CMinusMinus.Proofs.LexicalForms
import CMinusMinus.Proofs.ExactLexing
import CMinusMinus.Proofs.Phases
import CMinusMinus.Proofs.CompilationFaults
import CMinusMinus.Proofs.FailureReports
import CMinusMinus.Proofs.Encoding
import CMinusMinus.Proofs.SourceFiles
import CMinusMinus.Proofs.WrittenFiles
import CMinusMinus.Proofs.Delivery
import CMinusMinus.Proofs.SymbolTables
import CMinusMinus.Proofs.LinkedCalls
import CMinusMinus.Proofs.ParallelReading
import CMinusMinus.Proofs.Placeless
import CMinusMinus.Proofs.Layout
import CMinusMinus.Proofs.OperandTypes
import CMinusMinus.Proofs.ReturnStatements
import CMinusMinus.Proofs.Inputs
import CMinusMinus.Proofs.InputTargets
import CMinusMinus.Proofs.Relexing
import CMinusMinus.Proofs.MappedScopes
import CMinusMinus.Proofs.ShiftedCode
import CMinusMinus.Proofs.Spans
import CMinusMinus.Proofs.DiagnosticPlaces
import CMinusMinus.Proofs.SharedScopes
import CMinusMinus.Proofs.IsolatedBodies
import CMinusMinus.Proofs.LinesApart
import CMinusMinus.Proofs.OperandText
import CMinusMinus.Proofs.FreshNames
import CMinusMinus.Proofs.CodeReading
import CMinusMinus.Proofs.LegibleCode
