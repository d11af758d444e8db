import Parlance.CommandLine.Options
import Parlance.CommandLine.Run
import Parlance.Entries
import Parlance.Error
import Parlance.Expr.Basic
import Parlance.Expr.Builtin
import Parlance.Expr.Evaluate
import Parlance.Expr.Grammar
import Parlance.Expr.Joining
import Parlance.Expr.Lexeme
import Parlance.Expr.Phrase
import Parlance.Expr.Token
import Parlance.Host.Console
import Parlance.Host.Disk
import Parlance.Host.Files
import Parlance.Machine.Action
import Parlance.Machine.Basic
import Parlance.Machine.Loop
import Parlance.Machine.Run
import Parlance.Main
import Parlance.NameMap
import Parlance.Number.Binary64
import Parlance.Number.Division
import Parlance.Number.Read
import Parlance.Number.Shortest
import Parlance.Number.Written
import Parlance.Proofs.Expr.Acceptance
import Parlance.Proofs.Expr.Adjacency
import Parlance.Proofs.Expr.Alone
import Parlance.Proofs.Expr.Bindings
import Parlance.Proofs.Expr.Blanks
import Parlance.Proofs.Expr.Brackets
import Parlance.Proofs.Expr.Characters
import Parlance.Proofs.Expr.Completeness
import Parlance.Proofs.Expr.Concatenation
import Parlance.Proofs.Expr.Derivation
import Parlance.Proofs.Expr.Extremes
import Parlance.Proofs.Expr.Freshness
import Parlance.Proofs.Expr.Growth
import Parlance.Proofs.Expr.Indexing
import Parlance.Proofs.Expr.Leaves
import Parlance.Proofs.Expr.Letters
import Parlance.Proofs.Expr.Literals
import Parlance.Proofs.Expr.NormalForm
import Parlance.Proofs.Expr.OuterTexts
import Parlance.Proofs.Expr.Printing
import Parlance.Proofs.Expr.Properties
import Parlance.Proofs.Expr.Reading
import Parlance.Proofs.Expr.ReadingBack
import Parlance.Proofs.Expr.Recursion
import Parlance.Proofs.Expr.Regrouping
import Parlance.Proofs.Expr.Scanning
import Parlance.Proofs.Expr.Sharing
import Parlance.Proofs.Expr.Shortcut
import Parlance.Proofs.Expr.Spans
import Parlance.Proofs.Expr.Spelling
import Parlance.Proofs.Expr.Substitution
import Parlance.Proofs.Expr.UndefinedNames
import Parlance.Proofs.Machine.BindingOrder
import Parlance.Proofs.Machine.CallDepth
import Parlance.Proofs.Machine.CellShape
import Parlance.Proofs.Machine.CleanFailure
import Parlance.Proofs.Machine.Composition
import Parlance.Proofs.Machine.Containment
import Parlance.Proofs.Machine.Contract
import Parlance.Proofs.Machine.ControlFlow
import Parlance.Proofs.Machine.DistinctNames
import Parlance.Proofs.Machine.Executed
import Parlance.Proofs.Machine.Inventory
import Parlance.Proofs.Machine.LoopRounds
import Parlance.Proofs.Machine.Numbering
import Parlance.Proofs.Machine.Provenance
import Parlance.Proofs.Machine.Session
import Parlance.Proofs.Machine.SharedState
import Parlance.Proofs.Machine.Simple
import Parlance.Proofs.Machine.StoryObjects
import Parlance.Proofs.Machine.Termination
import Parlance.Proofs.Machine.WriteSet
import Parlance.Proofs.Number.Division
import Parlance.Proofs.Number.Zero
import Parlance.Proofs.Repl.Awaiting
import Parlance.Proofs.Repl.Submissions
import Parlance.Proofs.Statement.Accounting
import Parlance.Proofs.Statement.Arguments
import Parlance.Proofs.Statement.Comments
import Parlance.Proofs.Statement.Comparisons
import Parlance.Proofs.Statement.Conditions
import Parlance.Proofs.Statement.Contents
import Parlance.Proofs.Statement.Forms
import Parlance.Proofs.Statement.Greetings
import Parlance.Proofs.Statement.Happenings
import Parlance.Proofs.Statement.Headers
import Parlance.Proofs.Statement.Joining
import Parlance.Proofs.Statement.Layout
import Parlance.Proofs.Statement.Numbering
import Parlance.Proofs.Statement.Outline
import Parlance.Proofs.Statement.Separators
import Parlance.Proofs.Statement.Source
import Parlance.Proofs.Text.Cutting
import Parlance.Proofs.Text.Pieces
import Parlance.Proofs.Text.Replacing
import Parlance.Proofs.Text.Trimming
import Parlance.Proofs.Text.Words
import Parlance.Proofs.Value.Bisimilarity
import Parlance.Proofs.Value.Blame
import Parlance.Proofs.Value.Copy
import Parlance.Proofs.Value.Detached
import Parlance.Proofs.Value.DistinctNames
import Parlance.Proofs.Value.Freshness
import Parlance.Proofs.Value.Growth
import Parlance.Proofs.Value.Integers
import Parlance.Proofs.Value.Ordering
import Parlance.Proofs.Value.Walk
import Parlance.Random
import Parlance.Repl.Basic
import Parlance.Repl.Collector
import Parlance.Repl.Command
import Parlance.Session
import Parlance.Settings.Basic
import Parlance.Settings.Json
import Parlance.Settings.Read
import Parlance.Statement.Basic
import Parlance.Statement.Block
import Parlance.Statement.Condition
import Parlance.Statement.Form
import Parlance.Statement.Line
import Parlance.Store
import Parlance.Text.Blank
import Parlance.Text.Case
import Parlance.Text.Cluster
import Parlance.Text.ClusterClass
import Parlance.Text.Cut
import Parlance.Text.Letter
import Parlance.Text.Quoted
import Parlance.Value.Arithmetic
import Parlance.Value.Basic
import Parlance.Value.Detach
import Parlance.Value.Equality
import Parlance.Value.Order
import Parlance.Value.Show
