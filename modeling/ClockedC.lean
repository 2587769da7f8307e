import ClockedC.Ast.DataType
import ClockedC.Ast.Expr
import ClockedC.Ast.Operator
import ClockedC.Ast.Outline
import ClockedC.Ast.Program
import ClockedC.Ast.Statement
import ClockedC.Ast.Trees
import ClockedC.CommandLine.Disk
import ClockedC.CommandLine.Options
import ClockedC.CommandLine.Session
import ClockedC.Compile
import ClockedC.Diagnostic.Basic
import ClockedC.Diagnostic.CompileError
import ClockedC.Diagnostic.Fault
import ClockedC.Diagnostic.Render
import ClockedC.Diagnostic.Warning
import ClockedC.Grammar.Expression
import ClockedC.Grammar.Program
import ClockedC.Grammar.Reader
import ClockedC.Grammar.Statement
import ClockedC.Grammar.Variable
import ClockedC.Hardware.Expression
import ClockedC.Hardware.Generator
import ClockedC.Hardware.Locals
import ClockedC.Hardware.Program
import ClockedC.Hardware.Signals
import ClockedC.Hardware.Statement
import ClockedC.Location
import ClockedC.Log
import ClockedC.Main
import ClockedC.Proofs.Assignments.Increments
import ClockedC.Proofs.Assignments.Rewinding
import ClockedC.Proofs.Blocks.Items
import ClockedC.Proofs.Blocks.Lookahead
import ClockedC.Proofs.Blocks.Noninterference
import ClockedC.Proofs.Blocks.Rebracing
import ClockedC.Proofs.ControlFlow.Behavior
import ClockedC.Proofs.ControlFlow.Execution
import ClockedC.Proofs.ControlFlow.Legibility
import ClockedC.Proofs.ControlFlow.Lines
import ClockedC.Proofs.ControlFlow.Nesting
import ClockedC.Proofs.ControlFlow.Returns
import ClockedC.Proofs.ControlFlow.Rounds
import ClockedC.Proofs.ControlFlow.Simulation
import ClockedC.Proofs.Grouping.Grammar
import ClockedC.Proofs.Grouping.Lexemes
import ClockedC.Proofs.Grouping.Lowering
import ClockedC.Proofs.Grouping.Sorts
import ClockedC.Proofs.Grouping.Texts
import ClockedC.Proofs.Hardware.BitStrings
import ClockedC.Proofs.Hardware.Calls
import ClockedC.Proofs.Hardware.Declarations
import ClockedC.Proofs.Hardware.DistinctNames
import ClockedC.Proofs.Hardware.Emission
import ClockedC.Proofs.Hardware.FreshNames
import ClockedC.Proofs.Hardware.Generation
import ClockedC.Proofs.Hardware.Heads
import ClockedC.Proofs.Hardware.HelperNames
import ClockedC.Proofs.Hardware.LocalSignals
import ClockedC.Proofs.Hardware.Scope
import ClockedC.Proofs.Hardware.SignalNames
import ClockedC.Proofs.Hardware.Values
import ClockedC.Proofs.Indexing.Arrays
import ClockedC.Proofs.Indexing.Bounds
import ClockedC.Proofs.Indexing.Check
import ClockedC.Proofs.Indexing.Locality
import ClockedC.Proofs.Indexing.Sites
import ClockedC.Proofs.Indexing.Spelling
import ClockedC.Proofs.Indexing.Walks
import ClockedC.Proofs.Layout.Grammar
import ClockedC.Proofs.Layout.Hardware
import ClockedC.Proofs.Layout.Noninterference
import ClockedC.Proofs.Layout.Unlocated
import ClockedC.Proofs.Locations.Excerpts
import ClockedC.Proofs.Locations.Landmarks
import ClockedC.Proofs.Locations.Reports
import ClockedC.Proofs.Outline.Decoding
import ClockedC.Proofs.Outline.Drawing
import ClockedC.Proofs.Outline.Labels
import ClockedC.Proofs.Precedence.Climbing
import ClockedC.Proofs.Precedence.Lookahead
import ClockedC.Proofs.Printing.Expression
import ClockedC.Proofs.Printing.Lexemes
import ClockedC.Proofs.Printing.Program
import ClockedC.Proofs.Printing.Statement
import ClockedC.Proofs.Printing.Variable
import ClockedC.Proofs.Reading.Accepted
import ClockedC.Proofs.Reading.Admissible
import ClockedC.Proofs.Reading.Canonical
import ClockedC.Proofs.Reading.Courses
import ClockedC.Proofs.Reading.Errors
import ClockedC.Proofs.Reading.Expression
import ClockedC.Proofs.Reading.Horizon
import ClockedC.Proofs.Reading.Locality
import ClockedC.Proofs.Reading.Marks
import ClockedC.Proofs.Reading.Moves
import ClockedC.Proofs.Reading.Names
import ClockedC.Proofs.Reading.Places
import ClockedC.Proofs.Reading.Positions
import ClockedC.Proofs.Reading.Program
import ClockedC.Proofs.Reading.Segments
import ClockedC.Proofs.Reading.Statement
import ClockedC.Proofs.Reading.Steps
import ClockedC.Proofs.Reading.Variable
import ClockedC.Proofs.Recursion.Progress
import ClockedC.Proofs.Recursion.Termination
import ClockedC.Proofs.Recursion.Unfolding
import ClockedC.Proofs.Reporting.Log
import ClockedC.Proofs.Scanning.LineBreaks
import ClockedC.Proofs.Scanning.Pieces
import ClockedC.Proofs.Scanning.RoundTrip
import ClockedC.Proofs.Scanning.Tiling
import ClockedC.Proofs.Scoping.Braces
import ClockedC.Proofs.Scoping.Lexical
import ClockedC.Proofs.Scoping.Renaming
import ClockedC.Proofs.Scoping.Source
import ClockedC.Proofs.Structs.Histories
import ClockedC.Proofs.Structs.Records
import ClockedC.Proofs.Structs.Sessions
import ClockedC.Proofs.Structs.Table
import ClockedC.Proofs.Structs.Uses
import ClockedC.Tables
import ClockedC.Text.Blank
import ClockedC.Text.Control
import ClockedC.Text.Lines
import ClockedC.Text.Numeral
import ClockedC.Token.Basic
import ClockedC.Token.Piece
import ClockedC.Token.Queue
import ClockedC.Token.Stream
import ClockedC.Vhdl.BitString
import ClockedC.Vhdl.Design
import ClockedC.Vhdl.Expr
import ClockedC.Vhdl.Sequential
