import Mandate.CommandLine
import Mandate.CommandLine.Files
import Mandate.CommandLine.Options
import Mandate.Console
import Mandate.Datatype
import Mandate.Document.Datum
import Mandate.Document.Inspect
import Mandate.Document.Json
import Mandate.Document.Lossless
import Mandate.Document.Tree
import Mandate.Error
import Mandate.Execution
import Mandate.Fault
import Mandate.Grammar.Automaton
import Mandate.Grammar.Parse
import Mandate.Grammar.Production
import Mandate.Grammar.Terminal
import Mandate.Grammar.Tree
import Mandate.Halt
import Mandate.Layout
import Mandate.Machine
import Mandate.Main
import Mandate.Node
import Mandate.Number.Binary
import Mandate.Number.Decimal
import Mandate.Number.Quantity
import Mandate.Number.Reading
import Mandate.Number.Text
import Mandate.Place
import Mandate.Program
import Mandate.Scope
import Mandate.Scopes
import Mandate.Semantics.Builtin
import Mandate.Semantics.Call
import Mandate.Semantics.Engine
import Mandate.Semantics.Expression
import Mandate.Semantics.Instruction
import Mandate.Semantics.Operator
import Mandate.Semantics.Run
import Mandate.Slot
import Mandate.Span
import Mandate.Store
import Mandate.Text.Blank
import Mandate.Text.CodePoint
import Mandate.Text.Digit
import Mandate.Text.Lines
import Mandate.Text.Printable
import Mandate.Text.Quoted
import Mandate.Text.Template
import Mandate.Token
import Mandate.Trace
import Mandate.Value
import Mandate.Value.Arithmetic
import Mandate.Value.Element
import Mandate.Value.Text
import Mandate.Proofs.Acceptance
import Mandate.Proofs.BasicSteps
import Mandate.Proofs.ArrayNesting
import Mandate.Proofs.ObjectMatching
import Mandate.Proofs.StepRelations
import Mandate.Proofs.RunRelations
import Mandate.Proofs.PairedRuns
import Mandate.Proofs.Correspondences
import Mandate.Proofs.DataInvariants
import Mandate.Proofs.ProgramTree
import Mandate.Proofs.Fitting
import Mandate.Proofs.Watch
import Mandate.Proofs.Steps
import Mandate.Proofs.Operators
import Mandate.Proofs.Expressions
import Mandate.Proofs.Instructions
import Mandate.Proofs.TypeSoundness
import Mandate.Proofs.Parsing
import Mandate.Proofs.Spanless
import Mandate.Proofs.Gaps
import Mandate.Proofs.Comments
import Mandate.Proofs.ParserSoundness
import Mandate.Proofs.ParserStates
import Mandate.Proofs.Derivations
import Mandate.Proofs.SpacedText
import Mandate.Proofs.ParserCompleteness
import Mandate.Proofs.Linking
import Mandate.Proofs.Isolation
import Mandate.Proofs.Retyping
import Mandate.Proofs.Grounding
import Mandate.Proofs.StoredCode
import Mandate.Proofs.StoredData
import Mandate.Proofs.ReadableText
import Mandate.Proofs.FiledTraces
import Mandate.Proofs.Tracing
import Mandate.Proofs.Rounding
import Mandate.Proofs.NumberBits
import Mandate.Proofs.Numerals
import Mandate.Proofs.DocumentText
import Mandate.Proofs.Placement
import Mandate.Proofs.StoredTrees
import Mandate.Proofs.StoredRuns
import Mandate.Proofs.TokenStream
import Mandate.Proofs.ErrorPlaces
import Mandate.Proofs.EffectFree
import Mandate.Proofs.ElementAssignment
import Mandate.Proofs.Pieces
import Mandate.Proofs.Provenance
import Mandate.Proofs.Oversight
import Mandate.Proofs.StepFamilies
import Mandate.Proofs.ScopeGrowth
import Mandate.Proofs.LineEnds
import Mandate.Proofs.TokenCoverage
import Mandate.Proofs.TokenBreaks
import Mandate.Proofs.TokenNesting
import Mandate.Proofs.CodeAround
import Mandate.Proofs.FreeLayout
import Mandate.Proofs.ProgramLines
import Mandate.Proofs.Concatenation
import Mandate.Proofs.AcceptanceOrder
import Mandate.Proofs.SpanNesting
import Mandate.Proofs.ErrorOrigins
import Mandate.Proofs.WrittenText
import Mandate.Proofs.PrintedDatatypes
import Mandate.Proofs.StringLiterals
import Mandate.Proofs.Fuel
import Mandate.Proofs.RunResults
import Mandate.Proofs.Unrolling
import Mandate.Proofs.Flattening
import Mandate.Proofs.InputReading
import Mandate.Proofs.NearestNumbers
import Mandate.Proofs.ShortestDecimals
import Mandate.Proofs.NumberGrammar
import Mandate.Proofs.NumberConversion
import Mandate.Proofs.PrintedNumbers
import Mandate.Proofs.LineAddresses
import Mandate.Proofs.ScopeHistory
