import TeachAsm.Analysis
import TeachAsm.Budget
import TeachAsm.Check.Form
import TeachAsm.Check.Logic
import TeachAsm.Check.Spelling
import TeachAsm.CommandLine.Arguments
import TeachAsm.CommandLine.Failure
import TeachAsm.CommandLine.Lint
import TeachAsm.CommandLine.Paths
import TeachAsm.CommandLine.Serve
import TeachAsm.CommandLine.Terminal
import TeachAsm.Completion
import TeachAsm.Diagnostic
import TeachAsm.Journal
import TeachAsm.Json.Misuse
import TeachAsm.Json.Parser
import TeachAsm.Json.Printer
import TeachAsm.Json.Value
import TeachAsm.Layout
import TeachAsm.Line
import TeachAsm.Main
import TeachAsm.Memory.Cell
import TeachAsm.Memory.Image
import TeachAsm.Memory.Load
import TeachAsm.Number.Binary64
import TeachAsm.Number.Integer
import TeachAsm.Number.Radix
import TeachAsm.Number.Word
import TeachAsm.Server.Basic
import TeachAsm.Server.Documents
import TeachAsm.Server.Frame
import TeachAsm.Server.Handlers
import TeachAsm.Server.Message
import TeachAsm.Server.Session
import TeachAsm.Settings
import TeachAsm.Symbols
import TeachAsm.Table
import TeachAsm.Text.Basic
import TeachAsm.Text.CodePoint
import TeachAsm.Text.Printable
import TeachAsm.Text.Quoted
import TeachAsm.Text.Utf8
import TeachAsm.Vocabulary
import TeachAsm.Proofs.Bindings
import TeachAsm.Proofs.LoadedMemory
import TeachAsm.Proofs.Findings
import TeachAsm.Proofs.Slices
import TeachAsm.Proofs.Truncation
import TeachAsm.Proofs.WalkAgreement
import TeachAsm.Proofs.DigitRuns
import TeachAsm.Proofs.FaultFreedom
import TeachAsm.Proofs.Publication
import TeachAsm.Proofs.NumberReaders
import TeachAsm.Proofs.Numerals
import TeachAsm.Proofs.JsonRoundTrip
import TeachAsm.Proofs.Framing
import TeachAsm.Proofs.FrameByFrame
import TeachAsm.Proofs.Silence
import TeachAsm.Proofs.WellFormed
import TeachAsm.Proofs.WholeIntegers
import TeachAsm.Proofs.Statement
import TeachAsm.Proofs.LeadingNumerals
import TeachAsm.Proofs.CleanProgram
import TeachAsm.Proofs.Loading
import TeachAsm.Proofs.Acceptance
import TeachAsm.Proofs.Turns
import TeachAsm.Proofs.Responses
import TeachAsm.Proofs.FailedTurns
import TeachAsm.Proofs.Revalidation
import TeachAsm.Proofs.Independence
import TeachAsm.Proofs.Positions
import TeachAsm.Proofs.SessionEnd
import TeachAsm.Proofs.BelowEnd
import TeachAsm.Proofs.Declarations
import TeachAsm.Proofs.Contents
import TeachAsm.Proofs.Jumps
import TeachAsm.Proofs.ChangedLines
import TeachAsm.Proofs.Renumbering
import TeachAsm.Proofs.ValidSettings
import TeachAsm.Proofs.BlankLines
import TeachAsm.Proofs.MemoryScan
import TeachAsm.Proofs.StrayOperands
import TeachAsm.Proofs.LabelReport
import TeachAsm.Proofs.Literals
import TeachAsm.Proofs.LogicReport
import TeachAsm.Proofs.Origins
import TeachAsm.Proofs.ReferenceText
import TeachAsm.Proofs.SurvivingStatements
import TeachAsm.Proofs.StoreHistory
import TeachAsm.Proofs.TypedWord
import TeachAsm.Proofs.OfferedLabels
import TeachAsm.Proofs.LineEndings
import TeachAsm.Proofs.LineParts
import TeachAsm.Proofs.TrailingComments
import TeachAsm.Proofs.WritableValues
import TeachAsm.Proofs.WritableLimits
