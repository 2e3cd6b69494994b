import TypeFootprint.CommandLine.Arguments
import TypeFootprint.CommandLine.Color
import TypeFootprint.CommandLine.ExitCode
import TypeFootprint.CommandLine.Program
import TypeFootprint.Config
import TypeFootprint.Config.File
import TypeFootprint.Config.Json
import TypeFootprint.Config.Yaml
import TypeFootprint.Decimal.Shortest
import TypeFootprint.Document
import TypeFootprint.Files.Glob
import TypeFootprint.Files.Path
import TypeFootprint.Files.Pattern
import TypeFootprint.Files.Tree
import TypeFootprint.Footprint.Collect
import TypeFootprint.Footprint.Expand
import TypeFootprint.Footprint.Policy
import TypeFootprint.Footprint.Report
import TypeFootprint.Footprint.Resolve
import TypeFootprint.Fragments
import TypeFootprint.Grammar.Document
import TypeFootprint.Grammar.Parser
import TypeFootprint.Grammar.TypeSystem
import TypeFootprint.Grammar.Value
import TypeFootprint.Inference.Context
import TypeFootprint.Inference.Rules
import TypeFootprint.Inference.Typing
import TypeFootprint.Inference.Walk
import TypeFootprint.Insertion
import TypeFootprint.Introspection.Decode
import TypeFootprint.Introspection.Result
import TypeFootprint.Introspection.Sdl
import TypeFootprint.Json
import TypeFootprint.Json.Fault
import TypeFootprint.Json.Number
import TypeFootprint.Json.Reader
import TypeFootprint.Json.Record
import TypeFootprint.Json.Writer
import TypeFootprint.Loading
import TypeFootprint.Main
import TypeFootprint.Name
import TypeFootprint.OrderedSet
import TypeFootprint.Proofs.Footprint.Members
import TypeFootprint.Proofs.Footprint.Merging
import TypeFootprint.Proofs.Inference.Agreement
import TypeFootprint.Proofs.Inference.Literals
import TypeFootprint.Proofs.Inference.Visits
import TypeFootprint.Proofs.Schema.Trim
import TypeFootprint.Schema
import TypeFootprint.Schema.Build
import TypeFootprint.Schema.BuiltIn
import TypeFootprint.Text.Blank
import TypeFootprint.Text.Block
import TypeFootprint.Text.Escape
import TypeFootprint.Text.Hidden
import TypeFootprint.Text.Quoted
import TypeFootprint.Text.Visible
import TypeFootprint.Token
import TypeFootprint.Token.Number
import TypeFootprint.Token.Scan
import TypeFootprint.TypeRef
import TypeFootprint.TypeSystem
import TypeFootprint.Value
import TypeFootprint.Yaml.Cursor
import TypeFootprint.Yaml.Layout
import TypeFootprint.Yaml.Node
import TypeFootprint.Yaml.Plain
import TypeFootprint.Yaml.Quoted
import TypeFootprint.Yaml.Scan
import TypeFootprint.Yaml.Token
import TypeFootprint.Proofs.Footprint.Trimming
import TypeFootprint.Proofs.Footprint.Sources
import TypeFootprint.Proofs.Footprint.Defined
import TypeFootprint.Proofs.OrderedSet
import TypeFootprint.Proofs.Schema.Unwrapped
import TypeFootprint.Proofs.Footprint.Listing
import TypeFootprint.Proofs.Inference.SameCores
import TypeFootprint.Proofs.Footprint.Wrappers
import TypeFootprint.Proofs.Footprint.Contributions
import TypeFootprint.Proofs.Footprint.Places
import TypeFootprint.Proofs.Footprint.Unfolding
import TypeFootprint.Proofs.Schema.Extension
import TypeFootprint.Proofs.Inference.Deletion
import TypeFootprint.Proofs.Footprint.Growth
import TypeFootprint.Proofs.Footprint.CanonicalNames
import TypeFootprint.Proofs.Token.Spelling
import TypeFootprint.Proofs.Token.Strings
import TypeFootprint.Proofs.Grammar.Readings
import TypeFootprint.Proofs.Grammar.Constants
import TypeFootprint.Proofs.Introspection.Correspondence
import TypeFootprint.Proofs.Introspection.Items
import TypeFootprint.Proofs.Introspection.Definitions
import TypeFootprint.Proofs.Introspection.Directives
import TypeFootprint.Proofs.Schema.Assembly
import TypeFootprint.Proofs.Introspection.RoundTrip
import TypeFootprint.Proofs.Footprint.Idempotence
import TypeFootprint.Proofs.Footprint.Report
import TypeFootprint.Proofs.Lists
import TypeFootprint.Proofs.Loading
import TypeFootprint.Proofs.CommandLine.Outcome
import TypeFootprint.Proofs.Token.Acceptance
import TypeFootprint.Proofs.Grammar.Acceptance
import TypeFootprint.Proofs.Introspection.References
import TypeFootprint.Proofs.Introspection.Outline
import TypeFootprint.Proofs.Introspection.AcceptedItems
import TypeFootprint.Proofs.Introspection.AcceptedDefinitions
import TypeFootprint.Proofs.Introspection.Acceptance
import TypeFootprint.Proofs.Introspection.Roots
import TypeFootprint.Proofs.Introspection.Descriptions
import TypeFootprint.Proofs.Footprint.Expansion
import TypeFootprint.Proofs.Inference.Enclosure
import TypeFootprint.Proofs.Inference.Kinds
import TypeFootprint.Proofs.Footprint.Skipping
import TypeFootprint.Proofs.Footprint.Positions
import TypeFootprint.Proofs.Schema.Reach
import TypeFootprint.Proofs.Footprint.Reach
import TypeFootprint.Proofs.Footprint.Rewriting
import TypeFootprint.Proofs.Footprint.Splicing
import TypeFootprint.Proofs.Token.Prefixes
import TypeFootprint.Proofs.Token.BlockValue
import TypeFootprint.Proofs.Introspection.Texts
import TypeFootprint.Proofs.Introspection.Notation
import TypeFootprint.Proofs.Text.ByteOrder
import TypeFootprint.Proofs.Config.Entries
import TypeFootprint.Proofs.Config.RoundTrip
import TypeFootprint.Proofs.Files.Folder
import TypeFootprint.Proofs.Files.Paths
import TypeFootprint.Proofs.Json.Reading
import TypeFootprint.Proofs.Json.RoundTrip
import TypeFootprint.Proofs.Introspection.Variations
import TypeFootprint.Proofs.Introspection.Parts
import TypeFootprint.Proofs.Introspection.Records
import TypeFootprint.Proofs.Introspection.Tolerance
import TypeFootprint.Proofs.Files.Upward
import TypeFootprint.Proofs.Config.Nearest
import TypeFootprint.Proofs.Inference.Parts
import TypeFootprint.Proofs.Inference.Balance
import TypeFootprint.Proofs.CommandLine.Words
import TypeFootprint.Proofs.CommandLine.Rearranging
import TypeFootprint.Proofs.CommandLine.Exceptions
import TypeFootprint.Proofs.TypeRef.Notation
import TypeFootprint.Proofs.TypeRef.Lookup
