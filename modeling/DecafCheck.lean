import DecafCheck.Analysis.Basic
import DecafCheck.Analysis.Run
import DecafCheck.Command.Arguments
import DecafCheck.Command.Directory
import DecafCheck.Command.Execute
import DecafCheck.Diagnostic.Basic
import DecafCheck.Diagnostic.Problem
import DecafCheck.Failure
import DecafCheck.Forest.Basic
import DecafCheck.Forest.Dump
import DecafCheck.Forest.Planting
import DecafCheck.Forest.Tour
import DecafCheck.Main
import DecafCheck.Program.Basic
import DecafCheck.Program.Cursor
import DecafCheck.Program.Grammar
import DecafCheck.Program.Parser
import DecafCheck.Program.Parser.Basic
import DecafCheck.Program.Parser.Expression
import DecafCheck.Program.Printer
import DecafCheck.Proofs.Tree.Basic
import DecafCheck.Report.Basic
import DecafCheck.Report.Snippet
import DecafCheck.Scope.Build
import DecafCheck.Scope.Symbol
import DecafCheck.Scope.Table
import DecafCheck.Source.Span
import DecafCheck.Source.Line
import DecafCheck.Text.Width
import DecafCheck.Text.Outline
import DecafCheck.Text.Quoted
import DecafCheck.Token.Basic
import DecafCheck.Token.Dump
import DecafCheck.Token.Integer
import DecafCheck.Token.Lexer
import DecafCheck.Typing.Check
import DecafCheck.Typing.Inferred
import DecafCheck.Typing.Verdict
import DecafCheck.Proofs.Tree.Forest
import DecafCheck.Proofs.Program.Basic
import DecafCheck.Proofs.Tree.Planting
import DecafCheck.Proofs.Scope.Build
import DecafCheck.Proofs.Scope.Attached
import DecafCheck.Proofs.Scope.Program
import DecafCheck.Proofs.Scope.Resolution
import DecafCheck.Proofs.Typing.Walk
import DecafCheck.Proofs.Typing.Problems
import DecafCheck.Proofs.Typing.Agreement
import DecafCheck.Proofs.Analysis.Check
import DecafCheck.Proofs.Typing.Rules
import DecafCheck.Proofs.Typing.WellFormed
import DecafCheck.Proofs.Analysis.Safety
import DecafCheck.Proofs.Grammar.Form
import DecafCheck.Proofs.Grammar.Concrete
import DecafCheck.Proofs.Grammar.Expression
import DecafCheck.Proofs.Grammar.Statement
import DecafCheck.Proofs.Grammar.Unambiguous
import DecafCheck.Proofs.Grammar.Program
import DecafCheck.Proofs.Grammar.Parsing
import DecafCheck.Proofs.Token.Pattern
import DecafCheck.Proofs.Token.Tiling
import DecafCheck.Proofs.Token.Spelling
import DecafCheck.Proofs.Program.Bare
import DecafCheck.Proofs.Grammar.Writing
import DecafCheck.Proofs.Grammar.Printing
import DecafCheck.Proofs.Grammar.Locality
import DecafCheck.Proofs.Grammar.Lookahead
import DecafCheck.Proofs.Analysis.Run
import DecafCheck.Proofs.Grammar.Viability
import DecafCheck.Proofs.Grammar.Prompt.Basic
import DecafCheck.Proofs.Grammar.Prompt.Expression
import DecafCheck.Proofs.Grammar.Prompt.Statement
import DecafCheck.Proofs.Grammar.Earliest
import DecafCheck.Proofs.Tree.PostOrder
import DecafCheck.Proofs.Tree.Spread
import DecafCheck.Proofs.Grammar.Placement
import DecafCheck.Proofs.Analysis.Places
import DecafCheck.Proofs.Analysis.Spans
import DecafCheck.Proofs.Token.Locality
import DecafCheck.Proofs.Tree.Sketch
import DecafCheck.Proofs.Grammar.Text
import DecafCheck.Proofs.Scope.Sketched
import DecafCheck.Proofs.Typing.Local
import DecafCheck.Proofs.Typing.Alongside
import DecafCheck.Proofs.Typing.Sketched
import DecafCheck.Proofs.Analysis.Inside
import DecafCheck.Proofs.Analysis.Separate
import DecafCheck.Proofs.Tree.Relabel
import DecafCheck.Proofs.Scope.Renaming
import DecafCheck.Proofs.Typing.Renaming
import DecafCheck.Proofs.Analysis.Renaming
import DecafCheck.Proofs.Grammar.Layout
import DecafCheck.Proofs.Scope.Bare
import DecafCheck.Proofs.Typing.Bare
import DecafCheck.Proofs.Analysis.Layout
import DecafCheck.Proofs.Typing.Lookup
import DecafCheck.Proofs.Grammar.Declarations
import DecafCheck.Proofs.Analysis.Order
import DecafCheck.Analysis.Session
import DecafCheck.Proofs.Scope.Behind
import DecafCheck.Proofs.Typing.Behind
import DecafCheck.Proofs.Analysis.Residue
import DecafCheck.Proofs.Scope.Entries
import DecafCheck.Proofs.Analysis.Declarations
import DecafCheck.Proofs.Typing.Findings
import DecafCheck.Proofs.Analysis.Inference
import DecafCheck.Proofs.Analysis.Matching
import DecafCheck.Proofs.Analysis.Structure
import DecafCheck.Proofs.Analysis.Unrepeated
import DecafCheck.Proofs.Tree.Handmade
import DecafCheck.Proofs.Scope.Loose
import DecafCheck.Proofs.Typing.Stops
import DecafCheck.Proofs.Analysis.Malformed
import DecafCheck.Proofs.Scope.History
import DecafCheck.Proofs.Analysis.ArrayPolicy
import DecafCheck.Proofs.Analysis.Locations
import DecafCheck.Proofs.Token.Brackets
import DecafCheck.Proofs.Grammar.Brackets
import DecafCheck.Proofs.Analysis.Brackets
import DecafCheck.Proofs.Token.Lines
import DecafCheck.Proofs.Text.ByteOrder
import DecafCheck.Proofs.Scope.Sorted
import DecafCheck.Proofs.Analysis.Dump
import DecafCheck.Proofs.Grammar.Growing
import DecafCheck.Proofs.Grammar.Growth.Basic
import DecafCheck.Proofs.Grammar.Growth.Expression
import DecafCheck.Proofs.Grammar.Growth.Statement
import DecafCheck.Proofs.Analysis.Progress
import DecafCheck.Proofs.Token.Numeral
import DecafCheck.Proofs.Grammar.Growth.Calls
import DecafCheck.Proofs.Analysis.Limits
