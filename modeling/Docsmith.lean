import Docsmith.Cli.Arguments
import Docsmith.Cli.Command
import Docsmith.Failure
import Docsmith.Files.Path
import Docsmith.Files.Tree
import Docsmith.Form.Basic
import Docsmith.Form.Label
import Docsmith.Form.Printer
import Docsmith.Form.ReadError
import Docsmith.Form.Reader
import Docsmith.Form.Token
import Docsmith.Log
import Docsmith.Main
import Docsmith.Model.Basic
import Docsmith.Number.Arithmetic
import Docsmith.Number.Binary64
import Docsmith.Number.Numeral
import Docsmith.Number.Shortest
import Docsmith.Options.Basic
import Docsmith.Options.Keys
import Docsmith.Options.Listing
import Docsmith.Options.Load
import Docsmith.Options.Project
import Docsmith.Output.Markup
import Docsmith.Output.Page
import Docsmith.Output.Site
import Docsmith.Output.Writer
import Docsmith.Pipeline.Defaults
import Docsmith.Pipeline.Merge
import Docsmith.Pipeline.Provenance
import Docsmith.Pipeline.Selection
import Docsmith.Proofs.Acceptance
import Docsmith.Proofs.Atomicity
import Docsmith.Proofs.Atoms
import Docsmith.Proofs.Backslashes
import Docsmith.Proofs.Causes
import Docsmith.Proofs.Changes
import Docsmith.Proofs.Conditionals
import Docsmith.Proofs.Confinement
import Docsmith.Proofs.Constructors
import Docsmith.Proofs.Contents
import Docsmith.Proofs.Context
import Docsmith.Proofs.Contributions
import Docsmith.Proofs.Conversion
import Docsmith.Proofs.DataFile
import Docsmith.Proofs.Descent
import Docsmith.Proofs.Dictionaries
import Docsmith.Proofs.Documents
import Docsmith.Proofs.Enumeration
import Docsmith.Proofs.Erasure
import Docsmith.Proofs.Escaping
import Docsmith.Proofs.Expansion
import Docsmith.Proofs.Extraction
import Docsmith.Proofs.Features
import Docsmith.Proofs.Frames
import Docsmith.Proofs.Freshness
import Docsmith.Proofs.Grammar
import Docsmith.Proofs.Grouping
import Docsmith.Proofs.Hidden
import Docsmith.Proofs.Indifference
import Docsmith.Proofs.Keeping
import Docsmith.Proofs.Layers
import Docsmith.Proofs.Legible
import Docsmith.Proofs.Lines
import Docsmith.Proofs.Linking
import Docsmith.Proofs.Literals
import Docsmith.Proofs.Loading
import Docsmith.Proofs.Locality
import Docsmith.Proofs.Loggers
import Docsmith.Proofs.Lookups
import Docsmith.Proofs.Matching
import Docsmith.Proofs.Merging
import Docsmith.Proofs.Metadata
import Docsmith.Proofs.Misconfiguration
import Docsmith.Proofs.Navigation
import Docsmith.Proofs.Nesting
import Docsmith.Proofs.Openings
import Docsmith.Proofs.Order
import Docsmith.Proofs.Outcome
import Docsmith.Proofs.Overlay
import Docsmith.Proofs.Pages
import Docsmith.Proofs.Partition
import Docsmith.Proofs.Passes
import Docsmith.Proofs.Pieces
import Docsmith.Proofs.Placement
import Docsmith.Proofs.Positions
import Docsmith.Proofs.Precedence
import Docsmith.Proofs.Presence
import Docsmith.Proofs.Privacy
import Docsmith.Proofs.ProjectFiles
import Docsmith.Proofs.PropertyLists
import Docsmith.Proofs.Provenance
import Docsmith.Proofs.Readings
import Docsmith.Proofs.Recovery
import Docsmith.Proofs.Regularity
import Docsmith.Proofs.RoundTrip
import Docsmith.Proofs.Sections
import Docsmith.Proofs.Selecting
import Docsmith.Proofs.Sequencing
import Docsmith.Proofs.Serialisable
import Docsmith.Proofs.Settings
import Docsmith.Proofs.Spacing
import Docsmith.Proofs.Spelling
import Docsmith.Proofs.Splices
import Docsmith.Proofs.Stacking
import Docsmith.Proofs.Stages
import Docsmith.Proofs.Verbatim
import Docsmith.Proofs.Ways
import Docsmith.Proofs.Whereabouts
import Docsmith.Regex.Basic
import Docsmith.Regex.Fault
import Docsmith.Regex.Matcher
import Docsmith.Regex.Parser
import Docsmith.Regex.Posix
import Docsmith.Registry
import Docsmith.Run.Commit
import Docsmith.Run.Generate
import Docsmith.Run.Workspace
import Docsmith.Source.Definition
import Docsmith.Source.Dialect
import Docsmith.Source.Documents
import Docsmith.Source.Listing
import Docsmith.Table
import Docsmith.Text.Basic
import Docsmith.Text.Blank
import Docsmith.Text.Case
import Docsmith.Text.Digit
import Docsmith.Text.Lines
import Docsmith.Text.Names
import Docsmith.Text.Printable
import Docsmith.Text.Quoted
import Docsmith.Text.Utf8
import Docsmith.Text.Word
import Docsmith.Value.Basic
import Docsmith.Value.Json
import Docsmith.Value.Layout
import Docsmith.Value.Literal
import Docsmith.Value.OfForm
import Docsmith.Yaml.Cursor
import Docsmith.Yaml.Node
import Docsmith.Yaml.Scalar
import Docsmith.Yaml.ScalarText
import Docsmith.Yaml.Tag
import Docsmith.Yaml.Token
import Docsmith.Yaml.Value
