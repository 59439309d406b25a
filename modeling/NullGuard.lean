import NullGuard.Access.Absent
import NullGuard.Access.Pattern
import NullGuard.Access.SafeAccess
import NullGuard.Chain.Decompose
import NullGuard.Chain.Guard
import NullGuard.Chain.Step
import NullGuard.Command.Arguments
import NullGuard.Command.Batch
import NullGuard.Command.Check
import NullGuard.Command.Explain
import NullGuard.Command.Host
import NullGuard.Command.Init
import NullGuard.Command.Invocation
import NullGuard.Command.Rehearsal
import NullGuard.Command.Run
import NullGuard.Command.Transform
import NullGuard.Config.Settings
import NullGuard.Diagnostics.Diagnostic
import NullGuard.Diagnostics.Explanation
import NullGuard.Diagnostics.Files
import NullGuard.Diagnostics.Record
import NullGuard.Files.Path
import NullGuard.Files.Tree
import NullGuard.Main
import NullGuard.Proofs.Assignments
import NullGuard.Proofs.CarriedCalls
import NullGuard.Proofs.CarriedNodes
import NullGuard.Proofs.CarriedRewrites
import NullGuard.Proofs.Carrying
import NullGuard.Proofs.Confinement
import NullGuard.Proofs.Decomposition
import NullGuard.Proofs.Evaluator
import NullGuard.Proofs.FailureMessages
import NullGuard.Proofs.FastPath
import NullGuard.Proofs.FreshNames
import NullGuard.Proofs.GuardMeaning
import NullGuard.Proofs.Homes
import NullGuard.Proofs.Hygiene
import NullGuard.Proofs.IdleWords
import NullGuard.Proofs.Kept
import NullGuard.Proofs.Matching
import NullGuard.Proofs.Occurrences
import NullGuard.Proofs.Outlines
import NullGuard.Proofs.ParameterUse
import NullGuard.Proofs.Pieces
import NullGuard.Proofs.PlainRewrites
import NullGuard.Proofs.PlainScripts
import NullGuard.Proofs.PlannedCalls
import NullGuard.Proofs.References
import NullGuard.Proofs.Remarks
import NullGuard.Proofs.Resolution
import NullGuard.Proofs.Rewrites
import NullGuard.Proofs.Scoping
import NullGuard.Proofs.Spans
import NullGuard.Proofs.Temporaries
import NullGuard.Proofs.Transformations
import NullGuard.Reading.Class
import NullGuard.Reading.Dialect
import NullGuard.Reading.Expression
import NullGuard.Reading.Fault
import NullGuard.Reading.Function
import NullGuard.Reading.Markup
import NullGuard.Reading.Program
import NullGuard.Reading.Reader
import NullGuard.Reading.Rules
import NullGuard.Reading.Statement
import NullGuard.Reading.Token
import NullGuard.Reading.Type
import NullGuard.Scope.NameSupply
import NullGuard.Scope.Outline
import NullGuard.Scope.Recognition
import NullGuard.Scope.Table
import NullGuard.Text.Blank
import NullGuard.Text.Capitals
import NullGuard.Text.Escape
import NullGuard.Text.Json
import NullGuard.Text.Letters
import NullGuard.Text.Lines
import NullGuard.Text.Span
import NullGuard.Text.Style
import NullGuard.Text.Word
import NullGuard.Toml.Document
import NullGuard.Toml.Item
import NullGuard.Toml.Moment
import NullGuard.Toml.Number
import NullGuard.Toml.Quoted
import NullGuard.Toml.Scan
import NullGuard.Toml.Value
import NullGuard.Transform.Calls
import NullGuard.Transform.Options
import NullGuard.Transform.Plan
import NullGuard.Transform.Program
import NullGuard.Transform.Rejection
import NullGuard.Transform.Removal
import NullGuard.Transform.Session
import NullGuard.Tree.Comment
import NullGuard.Tree.Node
import NullGuard.Tree.Operator
import NullGuard.Writing.Expressions
import NullGuard.Writing.Layout
import NullGuard.Writing.Markup
import NullGuard.Writing.Printed
import NullGuard.Writing.Program
import NullGuard.Writing.Statements
import NullGuard.Writing.Types
import NullGuard.Proofs.Meanings
import NullGuard.Proofs.Composites
import NullGuard.Proofs.Frame
import NullGuard.Proofs.RemovedDeclarations
import NullGuard.Proofs.FunctionBodies
import NullGuard.Proofs.TypeAnnotations
import NullGuard.Proofs.Prologues
import NullGuard.Proofs.SessionReports
import NullGuard.Proofs.Callees
import NullGuard.Proofs.Subtrees
import NullGuard.Proofs.Stems
import NullGuard.Proofs.Reruns
import NullGuard.Proofs.Verdicts
import NullGuard.Proofs.ShortCircuit
import NullGuard.Proofs.Policies
import NullGuard.Proofs.Accessors
import NullGuard.Proofs.TypeQueries
import NullGuard.Proofs.Awaits
import NullGuard.Proofs.Holders
import NullGuard.Proofs.Templates
import NullGuard.Proofs.Classification
import NullGuard.Proofs.MovedComments
import NullGuard.Proofs.Redeclarations
import NullGuard.Proofs.TextOrder
import NullGuard.Proofs.Redefinitions
import NullGuard.Proofs.LineTable
import NullGuard.Proofs.ShownLines
import NullGuard.Proofs.CodeFrames
import NullGuard.Proofs.Scans
import NullGuard.Proofs.JsonReading
import NullGuard.Proofs.JsonLines
import NullGuard.Proofs.StringNotations
import NullGuard.Proofs.SettingsFiles
import NullGuard.Proofs.Shorthands
import NullGuard.Proofs.LevelGrouping
import NullGuard.Proofs.NameSequences
import NullGuard.Proofs.Visits
import NullGuard.Proofs.Analyzers
import NullGuard.Proofs.AnalyzedTables
