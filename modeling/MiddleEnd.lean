import MiddleEnd.Analysis
import MiddleEnd.CallGraph.Aggregate
import MiddleEnd.CallGraph.Basic
import MiddleEnd.CallGraph.Build
import MiddleEnd.CallGraph.Recursion
import MiddleEnd.Calls
import MiddleEnd.CommandLine
import MiddleEnd.CommandLine.Request
import MiddleEnd.ControlFlow
import MiddleEnd.Cycle
import MiddleEnd.DataFlow
import MiddleEnd.Level
import MiddleEnd.Location
import MiddleEnd.Main
import MiddleEnd.Message
import MiddleEnd.Metrics
import MiddleEnd.Number.Binary64
import MiddleEnd.Number.Decimal
import MiddleEnd.Number.Exact
import MiddleEnd.Number.Percent
import MiddleEnd.Number.Rounding
import MiddleEnd.Opportunity
import MiddleEnd.Optimizer
import MiddleEnd.Pass.DeadFunctions
import MiddleEnd.Pass.Folding
import MiddleEnd.Pass.Kind
import MiddleEnd.Pass.Marks
import MiddleEnd.Pass.StrengthReduction
import MiddleEnd.Proofs.Children
import MiddleEnd.Proofs.Folding.NormalForm
import MiddleEnd.Proofs.Folding.Rewriting
import MiddleEnd.Proofs.LiveFunctions
import MiddleEnd.Proofs.Recursion
import MiddleEnd.Proofs.Stability
import MiddleEnd.Proofs.StrengthReduction
import MiddleEnd.Reach
import MiddleEnd.Report
import MiddleEnd.Sample
import MiddleEnd.Symbol
import MiddleEnd.Transform
import MiddleEnd.Tree.Basic
import MiddleEnd.Tree.Literal
import MiddleEnd.Tree.Operator
import MiddleEnd.Tree.Printer
import MiddleEnd.Tree.Walk
import MiddleEnd.Proofs.DanglingCalls
import MiddleEnd.Proofs.Folding.Meaning
import MiddleEnd.Proofs.Printing.Reassociation
import MiddleEnd.Proofs.Printing.Token
import MiddleEnd.Proofs.Printing.Reader
import MiddleEnd.Proofs.Printing.Value
import MiddleEnd.Proofs.Outline
import MiddleEnd.Proofs.Printing.Control
import MiddleEnd.Proofs.CallGraph
import MiddleEnd.Proofs.Opportunities
import MiddleEnd.Proofs.Weight
import MiddleEnd.Proofs.Analyses
import MiddleEnd.Proofs.CallGraph.Representation
import MiddleEnd.Proofs.PruningOrder
import MiddleEnd.Proofs.FailedRuns
import MiddleEnd.Proofs.Levels
import MiddleEnd.Proofs.PowersOfTwo
import MiddleEnd.Proofs.SimultaneousReduction
import MiddleEnd.Proofs.Sizes
import MiddleEnd.Proofs.DataFlow
import MiddleEnd.Proofs.Histories
import MiddleEnd.Proofs.CallGraph.Totals
import MiddleEnd.Proofs.Number.Rounding
import MiddleEnd.Proofs.Number.Positional
import MiddleEnd.Proofs.Printing.Literal
import MiddleEnd.Proofs.Printing.Layout
import MiddleEnd.Proofs.Printing.Indentation
import MiddleEnd.Proofs.Number.Binary
import MiddleEnd.Proofs.Number.Significant
import MiddleEnd.Proofs.Printing.Float
import MiddleEnd.Proofs.CallWalks
import MiddleEnd.Proofs.CommandLine
import MiddleEnd.Proofs.Folding.Words
import MiddleEnd.Proofs.LevelSpellings
import MiddleEnd.Proofs.ExactExponents
