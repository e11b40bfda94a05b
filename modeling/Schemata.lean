import Schemata.Assoc
import Schemata.Coerce.Basic
import Schemata.Coerce.Date
import Schemata.CommandLine.Arguments
import Schemata.CommandLine.Run
import Schemata.Config.Basic
import Schemata.Config.Loading
import Schemata.Config.Printer
import Schemata.Config.Settings
import Schemata.Diagnostics
import Schemata.Directive.Basic
import Schemata.Directive.Canonical
import Schemata.Directive.Kind
import Schemata.DocText
import Schemata.Double.Basic
import Schemata.Double.Reading
import Schemata.Double.Shortest
import Schemata.FileTree
import Schemata.Json.Basic
import Schemata.Json.Decode
import Schemata.Json.Parser
import Schemata.Json.Printer
import Schemata.Json.SyntaxError
import Schemata.Main
import Schemata.Naming.Mangle
import Schemata.Naming.Table
import Schemata.Pass.Basic
import Schemata.Pass.Binding
import Schemata.Pass.Budget
import Schemata.Pass.Compiler
import Schemata.Pass.Constraints
import Schemata.Pass.Definition
import Schemata.Pass.Element
import Schemata.Pass.Literals
import Schemata.Pass.Members
import Schemata.Pass.Occurrence
import Schemata.Pass.Opening
import Schemata.Pass.Overlay
import Schemata.Pass.Request
import Schemata.Primitive
import Schemata.Proofs.Assoc
import Schemata.Proofs.Coerce.Integers
import Schemata.Proofs.Coerce.Soundness
import Schemata.Proofs.Directive.Effects
import Schemata.Proofs.Directive.Emptiness
import Schemata.Proofs.Directive.Extensions
import Schemata.Proofs.Directive.Idempotence
import Schemata.Proofs.Directive.Literals
import Schemata.Proofs.Directive.Lookups
import Schemata.Proofs.Directive.References
import Schemata.Proofs.Directive.Settled
import Schemata.Proofs.Directive.Texts
import Schemata.Proofs.DocText.Reading
import Schemata.Proofs.DocText.Splitting
import Schemata.Proofs.DocText.Strays
import Schemata.Proofs.Double.Integral
import Schemata.Proofs.Json.Settled
import Schemata.Proofs.Naming.Assignment
import Schemata.Proofs.Naming.Calls
import Schemata.Proofs.Naming.Distinct
import Schemata.Proofs.Naming.Mangling
import Schemata.Proofs.Naming.Recursion
import Schemata.Proofs.Naming.Strict
import Schemata.Proofs.Pass.Abandonment
import Schemata.Proofs.Pass.Advice
import Schemata.Proofs.Pass.Beginning
import Schemata.Proofs.Pass.Bounds
import Schemata.Proofs.Pass.Calls
import Schemata.Proofs.Pass.Closed
import Schemata.Proofs.Pass.Confinement
import Schemata.Proofs.Pass.Contents
import Schemata.Proofs.Pass.Contract
import Schemata.Proofs.Pass.Counting
import Schemata.Proofs.Pass.Course
import Schemata.Proofs.Pass.Coverage
import Schemata.Proofs.Pass.Decoration
import Schemata.Proofs.Pass.Defaults
import Schemata.Proofs.Pass.Depth
import Schemata.Proofs.Pass.Descent
import Schemata.Proofs.Pass.EmptyTexts
import Schemata.Proofs.Pass.Enumerations
import Schemata.Proofs.Pass.Extensions
import Schemata.Proofs.Pass.Flattening
import Schemata.Proofs.Pass.Frame
import Schemata.Proofs.Pass.Growth
import Schemata.Proofs.Pass.Idempotence
import Schemata.Proofs.Pass.Integrity
import Schemata.Proofs.Pass.KeyedMaps
import Schemata.Proofs.Pass.Kindred
import Schemata.Proofs.Pass.Layers
import Schemata.Proofs.Pass.Literals
import Schemata.Proofs.Pass.Lockstep
import Schemata.Proofs.Pass.Loops
import Schemata.Proofs.Pass.Marks
import Schemata.Proofs.Pass.MediaTypes
import Schemata.Proofs.Pass.Nodes
import Schemata.Proofs.Pass.Omission
import Schemata.Proofs.Pass.Order
import Schemata.Proofs.Pass.Outcome
import Schemata.Proofs.Pass.Pairing
import Schemata.Proofs.Pass.Parallel
import Schemata.Proofs.Pass.Parts
import Schemata.Proofs.Pass.Plain
import Schemata.Proofs.Pass.Policies
import Schemata.Proofs.Pass.Reach
import Schemata.Proofs.Pass.References
import Schemata.Proofs.Pass.Refusals
import Schemata.Proofs.Pass.Registered
import Schemata.Proofs.Pass.Reordering
import Schemata.Proofs.Pass.Replay
import Schemata.Proofs.Pass.StatedDefaults
import Schemata.Proofs.Pass.Steps
import Schemata.Proofs.Pass.Structure
import Schemata.Proofs.Pass.Substitution
import Schemata.Proofs.Pass.Termination
import Schemata.Proofs.Pass.Towers
import Schemata.Proofs.Pass.Trail
import Schemata.Proofs.Pass.Transparency
import Schemata.Proofs.Pass.TypeUse
import Schemata.Proofs.Pass.Unwrapping
import Schemata.Proofs.Pass.Upheld
import Schemata.Proofs.Pass.Views
import Schemata.Proofs.Pass.Vocabulary
import Schemata.Proofs.Pass.Written
import Schemata.Proofs.PropertyNaming
import Schemata.Proofs.Schema.Alike
import Schemata.Proofs.Schema.Collection
import Schemata.Proofs.Schema.Facets
import Schemata.Proofs.Schema.Following
import Schemata.Proofs.Schema.Keywords
import Schemata.Proofs.Schema.Mapping
import Schemata.Proofs.Schema.Properties
import Schemata.Proofs.Schema.References
import Schemata.Proofs.Schema.Required
import Schemata.Proofs.Schema.RoundTrip
import Schemata.Proofs.Text.Blanks
import Schemata.Proofs.Text.Integers
import Schemata.Proofs.Text.Splitting
import Schemata.Proofs.Translation.Backward
import Schemata.Proofs.Translation.Bare
import Schemata.Proofs.Translation.Mentions
import Schemata.Proofs.Translation.Refinement
import Schemata.Proofs.Translation.Simulation
import Schemata.Proofs.Translation.Stateless
import Schemata.Proofs.TypeRef.Acceptance
import Schemata.Proofs.TypeRef.Exactness
import Schemata.Proofs.TypeRef.Grammar
import Schemata.Proofs.TypeRef.Occurrences
import Schemata.Proofs.TypeRef.Positions
import Schemata.Proofs.TypeRef.Reading
import Schemata.Proofs.TypeRef.RoundTrip
import Schemata.Proofs.TypeRef.Spacing
import Schemata.Proofs.Universe.Concrete
import Schemata.Proofs.Universe.Constants
import Schemata.Proofs.Universe.Insertion
import Schemata.Proofs.Universe.Instantiation
import Schemata.Proofs.Universe.Keys
import Schemata.Proofs.Universe.Permuted
import Schemata.Proofs.Universe.Preorder
import Schemata.Proofs.Universe.Reachability
import Schemata.Proofs.Universe.Reordering
import Schemata.Proofs.Universe.Scope
import Schemata.Proofs.Universe.Searches
import Schemata.Proofs.Universe.Walks
import Schemata.PropertyNaming
import Schemata.Registry
import Schemata.Schema.Basic
import Schemata.Schema.Document
import Schemata.Schema.Keyword
import Schemata.Schema.Reader
import Schemata.Schema.Type
import Schemata.Sum
import Schemata.Text.Alphanumeric
import Schemata.Text.Blank
import Schemata.Text.CaseMap
import Schemata.Text.Fuzzy
import Schemata.Text.Integer
import Schemata.Text.Lowercase
import Schemata.Text.Quoted
import Schemata.Text.Ranges
import Schemata.Text.Split
import Schemata.Toml.Date
import Schemata.Toml.Parser
import Schemata.Toml.Printer
import Schemata.Toml.Scalar
import Schemata.Toml.Tree
import Schemata.TypeRef.Basic
import Schemata.TypeRef.Codec
import Schemata.TypeRef.Parser
import Schemata.Universe.Ancestry
import Schemata.Universe.Basic
import Schemata.Universe.Codec
import Schemata.Universe.Decl
import Schemata.Universe.Lineage
import Schemata.Universe.Loading
import Schemata.Universe.Representation
