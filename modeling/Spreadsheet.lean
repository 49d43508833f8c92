import Spreadsheet.Main
import Spreadsheet.Proofs.Content
import Spreadsheet.Proofs.Dependents
import Spreadsheet.Proofs.CycleGuard
import Spreadsheet.Proofs.RangeCells
import Spreadsheet.Proofs.References
import Spreadsheet.Proofs.Expressions
import Spreadsheet.Proofs.PlainEvaluation
import Spreadsheet.Proofs.EvaluationOrder
import Spreadsheet.Proofs.ParseErrors
import Spreadsheet.Proofs.Pass
import Spreadsheet.Proofs.SheetEvaluation
import Spreadsheet.Proofs.CycleDetection
import Spreadsheet.Proofs.SheetGraph
import Spreadsheet.Proofs.Session
import Spreadsheet.Proofs.IncrementalExactness
import Spreadsheet.Proofs.StaleValues
import Spreadsheet.Proofs.Grammar
import Spreadsheet.Proofs.Parsing
import Spreadsheet.Proofs.ParserSoundness
import Spreadsheet.Proofs.ParserCompleteness
import Spreadsheet.Proofs.FormulaGrammar
import Spreadsheet.Proofs.Unaffected
import Spreadsheet.Proofs.WellFormedGraph
import Spreadsheet.Proofs.EngineGraph
import Spreadsheet.Proofs.Scheduling
import Spreadsheet.Proofs.RecalculationOrder
import Spreadsheet.Proofs.GraphChanges
import Spreadsheet.Proofs.ClosingEdges
import Spreadsheet.Proofs.CompleteOrders
import Spreadsheet.Proofs.BreadthFirst
import Spreadsheet.Proofs.Refinement
import Spreadsheet.Proofs.RangeCycles
import Spreadsheet.Proofs.Rereading
import Spreadsheet.Proofs.NestedEvaluation
import Spreadsheet.Proofs.ThreadedEvaluation
import Spreadsheet.Proofs.RangeArguments
import Spreadsheet.Proofs.Explanations
import Spreadsheet.Proofs.AddressCodec
import Spreadsheet.Proofs.FileFormats
import Spreadsheet.Proofs.JsonTokens
import Spreadsheet.Proofs.JsonText
import Spreadsheet.Proofs.FiniteDoubles
import Spreadsheet.Proofs.JsonReading
import Spreadsheet.Proofs.StandardFormat
import Spreadsheet.Proofs.SavedSheets
import Spreadsheet.Proofs.ReadSheets
import Spreadsheet.Proofs.SavedEdits
import Spreadsheet.Proofs.Transparency
import Spreadsheet.Proofs.Respelling
import Spreadsheet.Proofs.RespelledSheets
import Spreadsheet.Proofs.Readiness
import Spreadsheet.Proofs.InOrderPasses
import Spreadsheet.Proofs.FailingOperands
import Spreadsheet.Proofs.CompletePasses
import Spreadsheet.Proofs.NameTokens
import Spreadsheet.Proofs.Lexemes
import Spreadsheet.Proofs.Lookahead
import Spreadsheet.Proofs.RangeWalks
import Spreadsheet.Proofs.DoubleMagnitudes
import Spreadsheet.Proofs.NearestDoubles
import Spreadsheet.Proofs.RadixLiterals
import Spreadsheet.Proofs.ColumnOrder
import Spreadsheet.Proofs.Retyping
