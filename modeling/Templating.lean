import Templating.Artifact.Document
import Templating.Artifact.Text
import Templating.Engine.Basic
import Templating.Engine.Cache
import Templating.Engine.Store
import Templating.Error
import Templating.Filter.Basic
import Templating.Filter.Builtin
import Templating.Inheritance
import Templating.Json.Basic
import Templating.Json.Decode
import Templating.Json.Reader
import Templating.Json.Writer
import Templating.Machine.Frame
import Templating.Machine.Output
import Templating.Machine.Run
import Templating.Machine.Step
import Templating.Number.Binary
import Templating.Number.Decimal
import Templating.Number.Integer
import Templating.Number.Shortest
import Templating.Options
import Templating.Options.Document
import Templating.Program.Compilation
import Templating.Program.Emission
import Templating.Program.Expression
import Templating.Program.Instruction
import Templating.Program.LineTable
import Templating.Proofs.Artifact.Document
import Templating.Proofs.Artifact.Reload
import Templating.Proofs.Artifact.Text
import Templating.Proofs.Artifact.Width
import Templating.Proofs.Emission.Agreement
import Templating.Proofs.Emission.Completion
import Templating.Proofs.Emission.Composition
import Templating.Proofs.Emission.Construction
import Templating.Proofs.Emission.Detachment
import Templating.Proofs.Emission.Embedding
import Templating.Proofs.Emission.Escaping
import Templating.Proofs.Emission.Expression
import Templating.Proofs.Emission.FilterChains
import Templating.Proofs.Emission.Growth
import Templating.Proofs.Emission.Importing
import Templating.Proofs.Emission.Laws
import Templating.Proofs.Emission.Layout
import Templating.Proofs.Emission.Lenient
import Templating.Proofs.Emission.Origins
import Templating.Proofs.Emission.Outcomes
import Templating.Proofs.Emission.Places
import Templating.Proofs.Emission.Reentry
import Templating.Proofs.Emission.References
import Templating.Proofs.Emission.Relocation
import Templating.Proofs.Emission.ScopedTemplates
import Templating.Proofs.Emission.Scopes
import Templating.Proofs.Emission.Sealed
import Templating.Proofs.Emission.SourceMap
import Templating.Proofs.Emission.SourceMapTemplates
import Templating.Proofs.Emission.Splicing
import Templating.Proofs.Emission.Substitution
import Templating.Proofs.Emission.Supplied
import Templating.Proofs.Emission.TagCode
import Templating.Proofs.Emission.Tame
import Templating.Proofs.Emission.Templates
import Templating.Proofs.Engine.Cache
import Templating.Proofs.Engine.History
import Templating.Proofs.Engine.Imports
import Templating.Proofs.Engine.Inclusion
import Templating.Proofs.Engine.Lenient
import Templating.Proofs.Engine.Paths
import Templating.Proofs.Engine.Transparency
import Templating.Proofs.Engine.Verbatim
import Templating.Proofs.Failures
import Templating.Proofs.Filter.Duplicates
import Templating.Proofs.Filter.Markup
import Templating.Proofs.Filter.Percent
import Templating.Proofs.Filter.Quoting
import Templating.Proofs.Filter.Sorting
import Templating.Proofs.Filter.Tags
import Templating.Proofs.Json.Decode
import Templating.Proofs.Json.Layout
import Templating.Proofs.Json.Numbers
import Templating.Proofs.Json.Spelling
import Templating.Proofs.Json.Width
import Templating.Proofs.Json.Written
import Templating.Proofs.Machine.Above
import Templating.Proofs.Machine.Balance
import Templating.Proofs.Machine.Blame
import Templating.Proofs.Machine.Choices
import Templating.Proofs.Machine.Continuation
import Templating.Proofs.Machine.Escaping
import Templating.Proofs.Machine.Evaluation
import Templating.Proofs.Machine.ExpressionCode
import Templating.Proofs.Machine.Faults
import Templating.Proofs.Machine.Lockstep
import Templating.Proofs.Machine.Loops
import Templating.Proofs.Machine.Outputs
import Templating.Proofs.Machine.Resemblance
import Templating.Proofs.Machine.Runs
import Templating.Proofs.Machine.Safety
import Templating.Proofs.Machine.Scopes
import Templating.Proofs.Machine.Termination
import Templating.Proofs.Machine.Words
import Templating.Proofs.Number.Places
import Templating.Proofs.Number.Rounding
import Templating.Proofs.Program.CodeEdits
import Templating.Proofs.Program.Escaping
import Templating.Proofs.Program.Imports
import Templating.Proofs.Program.Inheritance
import Templating.Proofs.Program.Inlining
import Templating.Proofs.Program.Isolation
import Templating.Proofs.Program.LineTable
import Templating.Proofs.Program.LiteralText
import Templating.Proofs.Program.Loading
import Templating.Proofs.Program.References
import Templating.Proofs.Program.Rejections
import Templating.Proofs.Program.Relocation
import Templating.Proofs.Program.ScopeClosing
import Templating.Proofs.Program.Scopes
import Templating.Proofs.Program.Soundness
import Templating.Proofs.Program.SourceMap
import Templating.Proofs.Program.Splicing
import Templating.Proofs.Program.Structured
import Templating.Proofs.Program.Tagless
import Templating.Proofs.Program.Termination
import Templating.Proofs.Program.Words
import Templating.Proofs.Sorting
import Templating.Proofs.Template.Acceptance
import Templating.Proofs.Template.Arguments
import Templating.Proofs.Template.Chains
import Templating.Proofs.Template.Constants
import Templating.Proofs.Template.Contracts
import Templating.Proofs.Template.Delimiters
import Templating.Proofs.Template.Division
import Templating.Proofs.Template.Everywhere
import Templating.Proofs.Template.Flattening
import Templating.Proofs.Template.Including
import Templating.Proofs.Template.Inheritance
import Templating.Proofs.Template.Items
import Templating.Proofs.Template.Lexing
import Templating.Proofs.Template.Limits
import Templating.Proofs.Template.Loading
import Templating.Proofs.Template.Nesting
import Templating.Proofs.Template.ParsedLines
import Templating.Proofs.Template.Parsing
import Templating.Proofs.Template.Paths
import Templating.Proofs.Template.Pieces
import Templating.Proofs.Template.Precedence
import Templating.Proofs.Template.Printing
import Templating.Proofs.Template.Progress
import Templating.Proofs.Template.Readback
import Templating.Proofs.Template.Refusal
import Templating.Proofs.Template.Regions
import Templating.Proofs.Template.Rejections
import Templating.Proofs.Template.Resolution
import Templating.Proofs.Template.Respelling
import Templating.Proofs.Template.RoundTrip
import Templating.Proofs.Template.Segments
import Templating.Proofs.Template.StartLines
import Templating.Proofs.Template.TokenLines
import Templating.Proofs.Template.TokenText
import Templating.Proofs.Template.Verbatim
import Templating.Proofs.Template.Whitespace
import Templating.Proofs.Text.Entities
import Templating.Proofs.Text.Literal
import Templating.Proofs.Text.Markup
import Templating.Proofs.Text.Utf8
import Templating.Proofs.Value.Arithmetic
import Templating.Proofs.Value.Comparison
import Templating.Proofs.Value.Equality
import Templating.Proofs.Value.Json
import Templating.Proofs.Value.Markup
import Templating.Proofs.Value.Order
import Templating.Registry
import Templating.Sorting
import Templating.Tag.Basic
import Templating.Template.Grammar
import Templating.Template.Lexer
import Templating.Template.Parser
import Templating.Template.Reading
import Templating.Template.Token
import Templating.Template.Tree
import Templating.TemplateSet
import Templating.Text.Blank
import Templating.Text.Case
import Templating.Text.CaseTable
import Templating.Text.Literal
import Templating.Text.Markup
import Templating.Text.Percent
import Templating.Text.Search
import Templating.Value.Arithmetic
import Templating.Value.Basic
import Templating.Value.Data
import Templating.Value.Json
import Templating.Value.Lookup
import Templating.Value.Order
