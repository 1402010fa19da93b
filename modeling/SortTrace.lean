import SortTrace.Main
import SortTrace.Wire.Request
import SortTrace.Proofs.Results
import SortTrace.Proofs.Trace.Frame
import SortTrace.Proofs.Trace.Replay
import SortTrace.Proofs.Trace.Mismatch
import SortTrace.Proofs.Trace.Recording
import SortTrace.Proofs.Trace.Growth
import SortTrace.Proofs.Sorting.Rearrangement
import SortTrace.Proofs.Sorting.Sweep
import SortTrace.Proofs.Sorting.Bubble
import SortTrace.Proofs.Sorting.Insertion
import SortTrace.Proofs.Sorting.Selection
import SortTrace.Proofs.Sorting.Sorted
import SortTrace.Proofs.Script.Shell
import SortTrace.Proofs.Script.Bare
import SortTrace.Proofs.Script.BareGrammar
import SortTrace.Proofs.Script.Walk
import SortTrace.Proofs.Script.ShellOutline
import SortTrace.Proofs.Script.BareOutline
import SortTrace.Proofs.Synthesis.Shell
import SortTrace.Proofs.Synthesis.ShellRun
import SortTrace.Proofs.Synthesis.BareRun
import SortTrace.Proofs.Synthesis.GuardSearch
import SortTrace.Proofs.Numeral.Whole
import SortTrace.Proofs.Script.Phrase
import SortTrace.Proofs.Script.Spelling
import SortTrace.Proofs.Script.Statements
import SortTrace.Proofs.Script.Lexemes
import SortTrace.Proofs.Script.Scanned
import SortTrace.Proofs.Script.Opening
import SortTrace.Proofs.Script.Lines
import SortTrace.Proofs.Script.Layout
import SortTrace.Proofs.Script.Reader
import SortTrace.Proofs.Script.Following
import SortTrace.Proofs.Script.ReaderRules
import SortTrace.Proofs.Script.Indexed
import SortTrace.Proofs.Script.Extents
import SortTrace.Proofs.Script.GrammarExtents
import SortTrace.Proofs.Script.Spans
import SortTrace.Proofs.Script.FirstLoop
import SortTrace.Proofs.Numeral.Positional
import SortTrace.Proofs.Numeral.Rounding
import SortTrace.Proofs.Numeral.ReadBack
import SortTrace.Proofs.Script.Contents
import SortTrace.Proofs.Script.Forward
import SortTrace.Proofs.Script.Legible
import SortTrace.Proofs.Script.Printed
import SortTrace.Proofs.Script.Reread
import SortTrace.Proofs.Synthesis.FunctionBodies
import SortTrace.Proofs.Synthesis.GuardedScript
import SortTrace.Proofs.Synthesis.SetsAround
import SortTrace.Proofs.Synthesis.SetsRun
import SortTrace.Proofs.Synthesis.GuardedPlan
import SortTrace.Proofs.Synthesis.Iteration
import SortTrace.Proofs.Synthesis.GuardedRun
import SortTrace.Proofs.Synthesis.BubbleScript
import SortTrace.Proofs.Synthesis.BubbleRun
import SortTrace.Proofs.Synthesis.GuardedText
import SortTrace.Proofs.Synthesis.OperandOrder
import SortTrace.Proofs.Synthesis.Layout
import SortTrace.Proofs.Synthesis.LoopSteps
import SortTrace.Proofs.Synthesis.StepBudget
import SortTrace.Proofs.Script.Earlier
import SortTrace.Proofs.Sorting.LongSweep
import SortTrace.Proofs.Synthesis.NestedSorting
import SortTrace.Proofs.Synthesis.ExchangeCount
import SortTrace.Proofs.Synthesis.IdleLoop
import SortTrace.Proofs.Wire.Scalars
import SortTrace.Proofs.Wire.Written
import SortTrace.Proofs.Wire.Messages
import SortTrace.Proofs.Command.Pipeline
import SortTrace.Proofs.Synthesis.IndexPolicies
import SortTrace.Proofs.Synthesis.LoopComments
import SortTrace.Proofs.Sorting.Marks
import SortTrace.Proofs.Synthesis.EqualExpressions
import SortTrace.Proofs.Synthesis.TemporaryExchange
import SortTrace.Proofs.Synthesis.Renaming
import SortTrace.Proofs.Sorting.EventCounts
import SortTrace.Proofs.Synthesis.LoopShape
import SortTrace.Proofs.Synthesis.Discovery
import SortTrace.Proofs.Synthesis.PassMarks
import SortTrace.Proofs.Trace.Undo
import SortTrace.Proofs.Trace.Advisory
import SortTrace.Proofs.Trace.Validation
import SortTrace.Proofs.Synthesis.ComparedPairs
import SortTrace.Proofs.Script.Tiling
import SortTrace.Proofs.Script.Climbing
import SortTrace.Proofs.Script.Size
import SortTrace.Proofs.Synthesis.Words
import SortTrace.Proofs.Synthesis.WordPlan
import SortTrace.Proofs.Synthesis.WordRun
import SortTrace.Proofs.Script.OptionalSemicolons
import SortTrace.Proofs.Script.Mentions
import SortTrace.Proofs.Script.Numerals
import SortTrace.Proofs.Script.ElementTexts
import SortTrace.Proofs.Synthesis.Recognizers
import SortTrace.Proofs.Command.ExitCodes
