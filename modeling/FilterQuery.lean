import FilterQuery.Text
import FilterQuery.Text.Displayed
import FilterQuery.Error
import FilterQuery.Operator
import FilterQuery.Token
import FilterQuery.Token.Lexer
import FilterQuery.Node
import FilterQuery.Grammar
import FilterQuery.Literal
import FilterQuery.Quoting
import FilterQuery.Field
import FilterQuery.Filter
import FilterQuery.Cache
import FilterQuery.Json.Token
import FilterQuery.Json.Tree
import FilterQuery.Json.Value
import FilterQuery.Yaml.Cursor
import FilterQuery.Yaml.Scalar
import FilterQuery.Yaml.Scanner
import FilterQuery.Yaml.Node
import FilterQuery.Schema
import FilterQuery.Schema.Decoding
import FilterQuery.Schema.Formats
import FilterQuery.Invocation
import FilterQuery.Invocation.Arguments
import FilterQuery.Main
import FilterQuery.Proofs.Lists
import FilterQuery.Proofs.Nesting
import FilterQuery.Proofs.Refusal
import FilterQuery.Proofs.Token.Pieces
import FilterQuery.Proofs.Token.LongestMatch
import FilterQuery.Proofs.Token.Quotes
import FilterQuery.Proofs.Token.Groups
import FilterQuery.Proofs.Token.Interior
import FilterQuery.Proofs.Token.Levels
import FilterQuery.Proofs.Token.Unquoted
import FilterQuery.Proofs.Token.Scan
import FilterQuery.Proofs.Token.Balance
import FilterQuery.Proofs.Token.Segmentation
import FilterQuery.Proofs.Grammar.WellFormed
import FilterQuery.Proofs.Grammar.Filling
import FilterQuery.Proofs.Grammar.Acceptance
import FilterQuery.Proofs.Grammar.Closing
import FilterQuery.Proofs.Grammar.Concatenation
import FilterQuery.Proofs.Grammar.Outcomes
import FilterQuery.Proofs.Grammar.Walk
import FilterQuery.Proofs.Grammar.Prefixes
import FilterQuery.Proofs.Grammar.Depth
import FilterQuery.Proofs.Grammar.Offsets
import FilterQuery.Proofs.Grammar.Rendering
import FilterQuery.Proofs.Sql.Lexer
import FilterQuery.Proofs.Sql.Literals
import FilterQuery.Proofs.Sql.Delimiting
import FilterQuery.Proofs.Sql.Units
import FilterQuery.Proofs.Sql.Conditions
import FilterQuery.Proofs.Sql.Structure
import FilterQuery.Proofs.Filter.Terms
import FilterQuery.Proofs.Filter.Binding
import FilterQuery.Proofs.Filter.Leaves
import FilterQuery.Proofs.Filter.Columns
import FilterQuery.Proofs.Filter.Faults
import FilterQuery.Proofs.Filter.Locality
import FilterQuery.Proofs.Filter.Outcomes
import FilterQuery.Proofs.Filter.Layout
import FilterQuery.Proofs.Filter.Wildcard
import FilterQuery.Proofs.Filter.Formula
import FilterQuery.Proofs.Filter.Meaning
import FilterQuery.Proofs.Filter.Template
import FilterQuery.Proofs.Filter.Composition
import FilterQuery.Proofs.Filter.Quoted
import FilterQuery.Proofs.Filter.Opened
import FilterQuery.Proofs.Filter.Numerals
import FilterQuery.Proofs.Cache.Transparency
import FilterQuery.Proofs.Cache.Contents
import FilterQuery.Proofs.Json.Writing
import FilterQuery.Proofs.Json.Reading
import FilterQuery.Proofs.Json.Printing
import FilterQuery.Proofs.Json.Indented
import FilterQuery.Proofs.Yaml.Scalars
import FilterQuery.Proofs.Yaml.Flow
import FilterQuery.Proofs.Yaml.Compact
import FilterQuery.Proofs.Schema.Decoding
import FilterQuery.Proofs.Schema.Encodings
import FilterQuery.Proofs.Schema.FrontEnds
import FilterQuery.Proofs.Invocation.Given
import FilterQuery.Proofs.Invocation.Spelling
import FilterQuery.Proofs.Invocation.Line
import FilterQuery.Proofs.Invocation.Overrides
import FilterQuery.Proofs.Invocation.Tree
import FilterQuery.Proofs.Invocation.Listing
