import LuaCompiler.Batch
import LuaCompiler.Binary64.Basic
import LuaCompiler.Binary64.Shortest
import LuaCompiler.CallSite
import LuaCompiler.Comment
import LuaCompiler.CommentQueue
import LuaCompiler.Compile
import LuaCompiler.Diagnostic
import LuaCompiler.Emit.Binding
import LuaCompiler.Emit.Call
import LuaCompiler.Emit.Class
import LuaCompiler.Emit.Context
import LuaCompiler.Emit.Expression
import LuaCompiler.Emit.Progress
import LuaCompiler.Emit.Statement
import LuaCompiler.Emit.Walk
import LuaCompiler.FileTree
import LuaCompiler.Generator.Expression
import LuaCompiler.Generator.State
import LuaCompiler.Generator.Statement
import LuaCompiler.Generator.Walk
import LuaCompiler.Name
import LuaCompiler.NameSet
import LuaCompiler.Numeral
import LuaCompiler.Options
import LuaCompiler.Parser
import LuaCompiler.Parser.Basic
import LuaCompiler.Parser.Grammar
import LuaCompiler.Parser.Priority
import LuaCompiler.Path
import LuaCompiler.Position
import LuaCompiler.Proofs.Comment.Queue
import LuaCompiler.Proofs.Comment.Reading
import LuaCompiler.Proofs.Emit.Alias
import LuaCompiler.Proofs.Emit.Bindings
import LuaCompiler.Proofs.Emit.CallStyles
import LuaCompiler.Proofs.Emit.Capture
import LuaCompiler.Proofs.Emit.Constants
import LuaCompiler.Proofs.Emit.Created
import LuaCompiler.Proofs.Emit.Declared
import LuaCompiler.Proofs.Emit.Faults
import LuaCompiler.Proofs.Emit.Footprint
import LuaCompiler.Proofs.Emit.Frame
import LuaCompiler.Proofs.Emit.Introductions
import LuaCompiler.Proofs.Emit.Layout
import LuaCompiler.Proofs.Emit.Lays
import LuaCompiler.Proofs.Emit.Leaves
import LuaCompiler.Proofs.Emit.Logic
import LuaCompiler.Proofs.Emit.Lowering
import LuaCompiler.Proofs.Emit.Methods
import LuaCompiler.Proofs.Emit.NumericLoops
import LuaCompiler.Proofs.Emit.Operators
import LuaCompiler.Proofs.Emit.Outline
import LuaCompiler.Proofs.Emit.Placement
import LuaCompiler.Proofs.Emit.Recorded
import LuaCompiler.Proofs.Emit.Rendered
import LuaCompiler.Proofs.Emit.Rendering
import LuaCompiler.Proofs.Emit.Searches
import LuaCompiler.Proofs.Emit.Sites
import LuaCompiler.Proofs.Emit.Spelling
import LuaCompiler.Proofs.Emit.Tables
import LuaCompiler.Proofs.Emit.Tasks
import LuaCompiler.Proofs.Emit.Texts
import LuaCompiler.Proofs.Emit.Traces
import LuaCompiler.Proofs.Emit.Truth
import LuaCompiler.Proofs.Emit.ValueLists
import LuaCompiler.Proofs.Emit.Visible
import LuaCompiler.Proofs.Generator.Agreement
import LuaCompiler.Proofs.Generator.Compiled
import LuaCompiler.Proofs.Generator.Follows
import LuaCompiler.Proofs.Generator.Frame
import LuaCompiler.Proofs.Output.CallStyles
import LuaCompiler.Proofs.Output.Comments
import LuaCompiler.Proofs.Output.Declarations
import LuaCompiler.Proofs.Output.Enclosure
import LuaCompiler.Proofs.Output.ErrorBlock
import LuaCompiler.Proofs.Output.Failures
import LuaCompiler.Proofs.Output.Jumps
import LuaCompiler.Proofs.Output.LoopScopes
import LuaCompiler.Proofs.Output.Published
import LuaCompiler.Proofs.Output.Receiver
import LuaCompiler.Proofs.Output.ReceiverAlias
import LuaCompiler.Proofs.Output.Sealing
import LuaCompiler.Proofs.Output.Shadowing
import LuaCompiler.Proofs.Output.Surface
import LuaCompiler.Proofs.Output.WellFormed
import LuaCompiler.Proofs.Parser.Accounts
import LuaCompiler.Proofs.Parser.Ahead
import LuaCompiler.Proofs.Parser.Calls
import LuaCompiler.Proofs.Parser.Climbing
import LuaCompiler.Proofs.Parser.Derivation
import LuaCompiler.Proofs.Parser.Descent
import LuaCompiler.Proofs.Parser.Forward
import LuaCompiler.Proofs.Parser.Growth
import LuaCompiler.Proofs.Parser.Inverse
import LuaCompiler.Proofs.Parser.LineEndings
import LuaCompiler.Proofs.Parser.Natural
import LuaCompiler.Proofs.Parser.Operands
import LuaCompiler.Proofs.Parser.Phrases
import LuaCompiler.Proofs.Parser.Placed
import LuaCompiler.Proofs.Parser.Printer
import LuaCompiler.Proofs.Parser.Progress
import LuaCompiler.Proofs.Parser.Respaced
import LuaCompiler.Proofs.Parser.Rows
import LuaCompiler.Proofs.Parser.Run
import LuaCompiler.Proofs.Parser.Shaped
import LuaCompiler.Proofs.Parser.Sound
import LuaCompiler.Proofs.Parser.Statements
import LuaCompiler.Proofs.Parser.Suffixes
import LuaCompiler.Proofs.Parser.Taken
import LuaCompiler.Proofs.Parser.Targets
import LuaCompiler.Proofs.Parser.Termination
import LuaCompiler.Proofs.Parser.Trail
import LuaCompiler.Proofs.Registries.Isolation
import LuaCompiler.Proofs.Registries.Merge
import LuaCompiler.Proofs.Registries.Noninterference
import LuaCompiler.Proofs.Registries.Run
import LuaCompiler.Proofs.Registries.Wrapping
import LuaCompiler.Proofs.Rising
import LuaCompiler.Proofs.Scope.Apart
import LuaCompiler.Proofs.Scope.Binders
import LuaCompiler.Proofs.Scope.Decisions
import LuaCompiler.Proofs.Scope.Declarative
import LuaCompiler.Proofs.Scope.FreeNames
import LuaCompiler.Proofs.Scope.Generated
import LuaCompiler.Proofs.Scope.Merged
import LuaCompiler.Proofs.Scope.Naming
import LuaCompiler.Proofs.Scope.Nesting
import LuaCompiler.Proofs.Scope.Renaming
import LuaCompiler.Proofs.Scope.Repeated
import LuaCompiler.Proofs.Scope.Resolution
import LuaCompiler.Proofs.Scope.Skeleton
import LuaCompiler.Proofs.Scope.Tracker
import LuaCompiler.Proofs.Script.Calculation
import LuaCompiler.Proofs.Script.CountingLoop
import LuaCompiler.Proofs.Script.Decision
import LuaCompiler.Proofs.Script.Expression
import LuaCompiler.Proofs.Script.Grouped
import LuaCompiler.Proofs.Script.Literals
import LuaCompiler.Proofs.Script.LongStrings
import LuaCompiler.Proofs.Script.NumeralValues
import LuaCompiler.Proofs.Script.Numerals
import LuaCompiler.Proofs.Script.Pieces
import LuaCompiler.Proofs.Script.Reader
import LuaCompiler.Proofs.Script.Respelled
import LuaCompiler.Proofs.Script.ShortStrings
import LuaCompiler.Proofs.Script.StringValues
import LuaCompiler.Proofs.Script.Values
import LuaCompiler.Proofs.Script.WholeNumerals
import LuaCompiler.Proofs.Token.Comments
import LuaCompiler.Proofs.Token.LineEndings
import LuaCompiler.Proofs.Token.Spaced
import LuaCompiler.Proofs.Token.Spelled
import LuaCompiler.Proofs.Token.Tiling
import LuaCompiler.Proofs.Tree.CallStyles
import LuaCompiler.Proofs.Tree.Nodes
import LuaCompiler.Proofs.Tree.Outline
import LuaCompiler.Proofs.Tree.Views
import LuaCompiler.Raw
import LuaCompiler.Registries
import LuaCompiler.Scope.Annotations
import LuaCompiler.Scope.Event
import LuaCompiler.Scope.Globals
import LuaCompiler.StringLiteral
import LuaCompiler.Text.Blank
import LuaCompiler.Text.Search
import LuaCompiler.Token
import LuaCompiler.Token.Lexeme
import LuaCompiler.Token.Scan
import LuaCompiler.Tree
