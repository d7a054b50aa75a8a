import TreeFacts.Compiler
import TreeFacts.Config.Basic
import TreeFacts.Config.Json
import TreeFacts.Encoding.Field
import TreeFacts.Encoding.Forest
import TreeFacts.Encoding.Structured
import TreeFacts.Engine
import TreeFacts.Entries
import TreeFacts.Error
import TreeFacts.Fact.Files
import TreeFacts.Fact.Reader
import TreeFacts.Fact.Set
import TreeFacts.Fact.Table
import TreeFacts.Fact.Value
import TreeFacts.Grammar
import TreeFacts.Json.Basic
import TreeFacts.Json.Literal
import TreeFacts.Json.Printer
import TreeFacts.Json.Reader
import TreeFacts.Keccak
import TreeFacts.Lifting.Lift
import TreeFacts.Lifting.Value
import TreeFacts.Process
import TreeFacts.Program.Assembly
import TreeFacts.Program.Comment
import TreeFacts.Program.Component
import TreeFacts.Program.Expansion
import TreeFacts.Program.Interface
import TreeFacts.Program.Lexeme
import TreeFacts.Program.Offset
import TreeFacts.Program.Statement
import TreeFacts.Schema.Basic
import TreeFacts.Schema.Derive
import TreeFacts.Schema.SkipSet
import TreeFacts.Session
import TreeFacts.Shell.Builtin
import TreeFacts.Shell.Reader
import TreeFacts.Shell.Run
import TreeFacts.Shell.Syntax
import TreeFacts.Solidity.Constant
import TreeFacts.Solidity.Enrichment
import TreeFacts.Solidity.Kind
import TreeFacts.Solidity.Signature
import TreeFacts.Solidity.TypeName
import TreeFacts.Solidity.TypeStrings
import TreeFacts.Solidity.Version
import TreeFacts.Template.Format
import TreeFacts.Template.Syntax
import TreeFacts.Text.Alphanumeric
import TreeFacts.Text.Basic
import TreeFacts.Text.Numeral
import TreeFacts.Text.Printable
import TreeFacts.Text.Utf8
import TreeFacts.Tree.Basic
import TreeFacts.Tree.Index
import TreeFacts.Tree.Loading
import TreeFacts.Tree.Span
import TreeFacts.Types.Basic
import TreeFacts.Types.Operation
import TreeFacts.Types.Registry
import TreeFacts.Types.Store
import TreeFacts.Proofs.Ends
import TreeFacts.Proofs.Fact.Typing
import TreeFacts.Proofs.Numeral
import TreeFacts.Proofs.Encoding.Coverage
import TreeFacts.Proofs.Encoding.Slots
import TreeFacts.Proofs.Fact.Reading
import TreeFacts.Proofs.Fact.Table
import TreeFacts.Proofs.Fact.Transport
import TreeFacts.Proofs.Lifting.Cell
import TreeFacts.Proofs.Lifting.Encoded
import TreeFacts.Proofs.Fact.Accepted
import TreeFacts.Proofs.Lifting.Accepted
import TreeFacts.Proofs.Schema.Growth
import TreeFacts.Proofs.Schema.Identifiers
import TreeFacts.Proofs.Encoding.Membership
import TreeFacts.Proofs.Schema.Built
import TreeFacts.Proofs.Program.Fields
import TreeFacts.Proofs.Program.Scan
import TreeFacts.Proofs.Program.Reading
import TreeFacts.Proofs.Program.Interface
import TreeFacts.Proofs.Schema.Printed
import TreeFacts.Proofs.Program.Closed
import TreeFacts.Proofs.Program.Arguments
import TreeFacts.Proofs.Program.Forms
import TreeFacts.Proofs.Program.Cutting
import TreeFacts.Proofs.Program.Contents
import TreeFacts.Proofs.Program.Masking
import TreeFacts.Proofs.Program.Resolution
import TreeFacts.Proofs.Program.Nesting
import TreeFacts.Proofs.Program.Paths
import TreeFacts.Proofs.Program.Instances
import TreeFacts.Proofs.Fact.Normal
import TreeFacts.Proofs.Schema.Below
import TreeFacts.Proofs.Schema.Restriction
import TreeFacts.Proofs.Encoding.Restriction
import TreeFacts.Proofs.Tree.Documents
import TreeFacts.Proofs.Fact.Layout
import TreeFacts.Proofs.Fact.Unquoted
import TreeFacts.Proofs.Fact.Files
import TreeFacts.Proofs.Fact.Requests
import TreeFacts.Proofs.Fact.Nullary
import TreeFacts.Proofs.Encoding.Additive
import TreeFacts.Proofs.Tree.Preorder
import TreeFacts.Proofs.Tree.MapNodes
import TreeFacts.Proofs.Solidity.TypeStrings
import TreeFacts.Proofs.Types.Hierarchy
import TreeFacts.Proofs.Types.Store
import TreeFacts.Proofs.Types.Operations
import TreeFacts.Proofs.Types.NearestKind
import TreeFacts.Proofs.Types.Layered
import TreeFacts.Proofs.Schema.Contained
import TreeFacts.Proofs.Lifting.Lowering
import TreeFacts.Proofs.Types.Subtyping
import TreeFacts.Proofs.Encoding.Respelling
import TreeFacts.Proofs.Lifting.Refined
import TreeFacts.Proofs.Occurrence
import TreeFacts.Proofs.Solidity.TypeText
import TreeFacts.Proofs.Solidity.ExternalCall
import TreeFacts.Proofs.Solidity.ParameterType
import TreeFacts.Proofs.Solidity.CanonicalType
import TreeFacts.Proofs.Solidity.ConstantExpression
import TreeFacts.Proofs.Runs
import TreeFacts.Proofs.Template.Pieces
import TreeFacts.Proofs.Template.Format
import TreeFacts.Proofs.Tree.Detached
import TreeFacts.Proofs.Template.References
import TreeFacts.Proofs.Slice
import TreeFacts.Proofs.Program.Balance
import TreeFacts.Proofs.Program.Header
import TreeFacts.Proofs.Program.Extent
import TreeFacts.Proofs.Program.Offset
