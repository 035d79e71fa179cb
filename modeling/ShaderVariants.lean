import ShaderVariants.Command.Arguments
import ShaderVariants.Command.Generate
import ShaderVariants.Command.Load
import ShaderVariants.Command.Manifest
import ShaderVariants.Command.Outcome
import ShaderVariants.Command.Selection
import ShaderVariants.Command.Show
import ShaderVariants.Condition.ActiveInputs
import ShaderVariants.Condition.Chain
import ShaderVariants.Condition.Directive
import ShaderVariants.Condition.Expr
import ShaderVariants.Condition.Lexeme
import ShaderVariants.Condition.Literal
import ShaderVariants.Condition.Parser
import ShaderVariants.ConfigFile
import ShaderVariants.DataType
import ShaderVariants.Disk.Basic
import ShaderVariants.Disk.Path
import ShaderVariants.Disk.Search
import ShaderVariants.Include
import ShaderVariants.Input
import ShaderVariants.InputSet
import ShaderVariants.Json.Basic
import ShaderVariants.Json.Overlay
import ShaderVariants.Json.Printer
import ShaderVariants.Layout
import ShaderVariants.Main
import ShaderVariants.Mutator
import ShaderVariants.Program.Basic
import ShaderVariants.Program.Canonical
import ShaderVariants.Program.Declaration
import ShaderVariants.Program.Error
import ShaderVariants.Program.Line
import ShaderVariants.Program.Parser
import ShaderVariants.Program.Summary
import ShaderVariants.Proofs.CanonicalForms
import ShaderVariants.Proofs.Command.Recorded
import ShaderVariants.Proofs.Command.Selected
import ShaderVariants.Proofs.Command.Written
import ShaderVariants.Proofs.Condition.Arms
import ShaderVariants.Proofs.Condition.Blind
import ShaderVariants.Proofs.Condition.Comments
import ShaderVariants.Proofs.Condition.Definedness
import ShaderVariants.Proofs.Condition.Eager
import ShaderVariants.Proofs.Condition.Faults
import ShaderVariants.Proofs.Condition.Grammar
import ShaderVariants.Proofs.Condition.Guards
import ShaderVariants.Proofs.Condition.Lexing
import ShaderVariants.Proofs.Condition.Literals
import ShaderVariants.Proofs.Condition.Names
import ShaderVariants.Proofs.Condition.Nesting
import ShaderVariants.Proofs.Condition.Outline
import ShaderVariants.Proofs.Condition.Precedence
import ShaderVariants.Proofs.Condition.Runs
import ShaderVariants.Proofs.Condition.Splice
import ShaderVariants.Proofs.Condition.Unasked
import ShaderVariants.Proofs.Condition.Written
import ShaderVariants.Proofs.Disk.Places
import ShaderVariants.Proofs.Disk.Spellings
import ShaderVariants.Proofs.Enumeration
import ShaderVariants.Proofs.InputSets
import ShaderVariants.Proofs.Iterates
import ShaderVariants.Proofs.Json.Defaults
import ShaderVariants.Proofs.Json.Overlay
import ShaderVariants.Proofs.Json.Paths
import ShaderVariants.Proofs.Layers
import ShaderVariants.Proofs.Layout.Comparison
import ShaderVariants.Proofs.Layout.Growth
import ShaderVariants.Proofs.Layout.Rules
import ShaderVariants.Proofs.Program.Acting
import ShaderVariants.Proofs.Program.BlockMoves
import ShaderVariants.Proofs.Program.BlockSequence
import ShaderVariants.Proofs.Program.Buffers
import ShaderVariants.Proofs.Program.Consistent
import ShaderVariants.Proofs.Program.DirectiveLines
import ShaderVariants.Proofs.Program.Followed
import ShaderVariants.Proofs.Program.IncludeDepth
import ShaderVariants.Proofs.Program.Inlining
import ShaderVariants.Proofs.Program.Invariant
import ShaderVariants.Proofs.Program.Located
import ShaderVariants.Proofs.Program.Mentions
import ShaderVariants.Proofs.Program.Numbering
import ShaderVariants.Proofs.Program.OnceOnly
import ShaderVariants.Proofs.Program.Reading
import ShaderVariants.Proofs.Program.Rendering
import ShaderVariants.Proofs.Program.RoundTrip
import ShaderVariants.Proofs.Program.Routing
import ShaderVariants.Proofs.Program.RuleGrammar
import ShaderVariants.Proofs.Program.Rules
import ShaderVariants.Proofs.Program.SingleFile
import ShaderVariants.Proofs.Program.Stages
import ShaderVariants.Proofs.Program.Standing
import ShaderVariants.Proofs.Program.Step
import ShaderVariants.Proofs.Program.Trace
import ShaderVariants.Proofs.Program.WellFormed
import ShaderVariants.Proofs.Rewriting
import ShaderVariants.Proofs.Text.Comments
import ShaderVariants.Proofs.Text.Lines
import ShaderVariants.Proofs.Text.Numerals
import ShaderVariants.Proofs.Text.OneLine
import ShaderVariants.Proofs.Text.Tokens
import ShaderVariants.Proofs.Text.Words
import ShaderVariants.Proofs.Variant.BehindHeader
import ShaderVariants.Proofs.Variant.BlockAgreement
import ShaderVariants.Proofs.Variant.BlockText
import ShaderVariants.Proofs.Variant.Consistency
import ShaderVariants.Proofs.Variant.Consumed
import ShaderVariants.Proofs.Variant.Definitions
import ShaderVariants.Proofs.Variant.Discarded
import ShaderVariants.Proofs.Variant.Emitted
import ShaderVariants.Proofs.Variant.Fitting
import ShaderVariants.Proofs.Variant.Generated
import ShaderVariants.Proofs.Variant.GuardedChain
import ShaderVariants.Proofs.Variant.GuardedInputs
import ShaderVariants.Proofs.Variant.Header
import ShaderVariants.Proofs.Variant.Marks
import ShaderVariants.Proofs.Variant.Noninterference
import ShaderVariants.Proofs.Variant.Resources
import ShaderVariants.Proofs.Variant.Shadowing
import ShaderVariants.Proofs.Variant.SourceText
import ShaderVariants.Rewrite
import ShaderVariants.Settings
import ShaderVariants.Stage
import ShaderVariants.Text.Basic
import ShaderVariants.Text.Lines
import ShaderVariants.Text.Numeral
import ShaderVariants.Text.Word
import ShaderVariants.Token
import ShaderVariants.Toml.Moment
import ShaderVariants.Toml.Quoted
import ShaderVariants.Toml.Reader
import ShaderVariants.Toml.Scalar
import ShaderVariants.Toml.Table
import ShaderVariants.Toml.Value
import ShaderVariants.Variant.Basic
import ShaderVariants.Variant.Header
