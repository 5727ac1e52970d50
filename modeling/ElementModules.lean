import ElementModules.Category
import ElementModules.Command.Arguments
import ElementModules.Command.Response
import ElementModules.Config.Basic
import ElementModules.Config.Check
import ElementModules.Config.Encoding
import ElementModules.Config.Layout
import ElementModules.Descriptor.Conversion
import ElementModules.Descriptor.Frame
import ElementModules.Descriptor.Generation
import ElementModules.Descriptor.Indentation
import ElementModules.Descriptor.IndexModule
import ElementModules.Descriptor.Procedure
import ElementModules.Descriptor.Repair
import ElementModules.Descriptor.Selection
import ElementModules.Descriptor.Synthesis
import ElementModules.ElementTable
import ElementModules.Failure
import ElementModules.Fault
import ElementModules.Ignore.Glob
import ElementModules.Ignore.Rule
import ElementModules.Json.Printer
import ElementModules.Json.Reader
import ElementModules.Json.Shape
import ElementModules.Json.Token
import ElementModules.Json.Value
import ElementModules.Keyed
import ElementModules.Library
import ElementModules.Main
import ElementModules.Number.Double
import ElementModules.Number.Shortest
import ElementModules.Order
import ElementModules.Path
import ElementModules.Project.Arrangement
import ElementModules.Project.Conversion
import ElementModules.Project.Generation
import ElementModules.Project.IndexFile
import ElementModules.Project.ModuleDir
import ElementModules.Project.Registration
import ElementModules.Project.Run
import ElementModules.Proofs.Descriptor.Agreement
import ElementModules.Proofs.Descriptor.Answers
import ElementModules.Proofs.Descriptor.Calls
import ElementModules.Proofs.Descriptor.Carrying
import ElementModules.Proofs.Descriptor.Convergence
import ElementModules.Proofs.Descriptor.Converting
import ElementModules.Proofs.Descriptor.Declared
import ElementModules.Proofs.Descriptor.Drafting
import ElementModules.Proofs.Descriptor.Exporting
import ElementModules.Proofs.Descriptor.Frame
import ElementModules.Proofs.Descriptor.Gathering
import ElementModules.Proofs.Descriptor.Generated
import ElementModules.Proofs.Descriptor.Header
import ElementModules.Proofs.Descriptor.Identity
import ElementModules.Proofs.Descriptor.Indentation
import ElementModules.Proofs.Descriptor.Lines
import ElementModules.Proofs.Descriptor.Naming
import ElementModules.Proofs.Descriptor.Planning
import ElementModules.Proofs.Descriptor.ReadBack
import ElementModules.Proofs.Descriptor.Reading
import ElementModules.Proofs.Descriptor.Rendering
import ElementModules.Proofs.Descriptor.Repaired
import ElementModules.Proofs.Descriptor.Spacing
import ElementModules.Proofs.Descriptor.Synthesis
import ElementModules.Proofs.Descriptor.Tidy
import ElementModules.Proofs.Descriptor.Writing
import ElementModules.Proofs.Json.Scanning
import ElementModules.Proofs.Json.ReadingBack
import ElementModules.Proofs.Json.Surviving
import ElementModules.Proofs.Path
import ElementModules.Proofs.Prefixes
import ElementModules.Proofs.Project.Flattening
import ElementModules.Proofs.Project.Placing
import ElementModules.Proofs.Project.Rearranging
import ElementModules.Proofs.Script.Bindings
import ElementModules.Proofs.Script.Blanks
import ElementModules.Proofs.Script.Calls
import ElementModules.Proofs.Script.Commas
import ElementModules.Proofs.Script.Content
import ElementModules.Proofs.Script.Declarations
import ElementModules.Proofs.Script.Declaring
import ElementModules.Proofs.Script.Enclosed
import ElementModules.Proofs.Script.Fields
import ElementModules.Proofs.Script.Gaps
import ElementModules.Proofs.Script.Heads
import ElementModules.Proofs.Script.Inert
import ElementModules.Proofs.Script.Joining
import ElementModules.Proofs.Script.Keys
import ElementModules.Proofs.Script.Labels
import ElementModules.Proofs.Script.Listings
import ElementModules.Proofs.Script.Names
import ElementModules.Proofs.Script.Nesting
import ElementModules.Proofs.Script.Openings
import ElementModules.Proofs.Script.Pieces
import ElementModules.Proofs.Script.Places
import ElementModules.Proofs.Script.Runs
import ElementModules.Proofs.Script.Squeezing
import ElementModules.Proofs.Script.Statements
import ElementModules.Proofs.Script.Written
import ElementModules.Proofs.Text.Trim
import ElementModules.Proofs.Tree.Entering
import ElementModules.Proofs.Tree.Extending
import ElementModules.Proofs.Tree.Listed
import ElementModules.Proofs.Tree.Locating
import ElementModules.Proofs.Tree.Making
import ElementModules.Proofs.Tree.Moving
import ElementModules.Registry
import ElementModules.Report.Basic
import ElementModules.Report.Encoding
import ElementModules.Script.Bracket
import ElementModules.Script.Field
import ElementModules.Script.Identifier
import ElementModules.Script.Literal
import ElementModules.Script.Scanner
import ElementModules.Script.Segment
import ElementModules.Script.Token
import ElementModules.Text.Basic
import ElementModules.Text.Blank
import ElementModules.Text.Casing
import ElementModules.Text.Casing.Run
import ElementModules.Text.Casing.Table
import ElementModules.Text.Position
import ElementModules.Text.Quoted
import ElementModules.Tree.Access
import ElementModules.Tree.Basic
import ElementModules.Tree.Change
import ElementModules.Tree.Each
import ElementModules.Tree.Listing
import ElementModules.Proofs.Path.Relative
import ElementModules.Proofs.Project.Generating
import ElementModules.Proofs.Project.Indexing
import ElementModules.Proofs.Project.Reporting
import ElementModules.Proofs.Descriptor.Repairing
import ElementModules.Proofs.Project.Preserving
import ElementModules.Proofs.Project.Failing
import ElementModules.Proofs.Tree.History
import ElementModules.Proofs.Project.Accounting
import ElementModules.Proofs.Project.BackingUp
import ElementModules.Proofs.Project.Origins
import ElementModules.Proofs.Project.Sites
import ElementModules.Proofs.Project.Settling
import ElementModules.Proofs.Project.Repeating
import ElementModules.Proofs.Project.Verdicts
import ElementModules.Proofs.Project.Regenerating
import ElementModules.Proofs.Project.Rerunning
import ElementModules.Proofs.Script.Resegmenting
import ElementModules.Proofs.Descriptor.Recognizing
import ElementModules.Proofs.Descriptor.Receivers
import ElementModules.Proofs.Project.Excluding
import ElementModules.Proofs.Descriptor.Synthesized
import ElementModules.Proofs.Descriptor.Logs
import ElementModules.Proofs.Project.MovingUp
import ElementModules.Proofs.Project.Pruning
import ElementModules.Proofs.Project.Completing
import ElementModules.Proofs.Text.Utf8
import ElementModules.Proofs.Script.Offsets
import ElementModules.Proofs.Script.Matching
import ElementModules.Proofs.Script.Bytes
import ElementModules.Proofs.Script.Composing
import ElementModules.Proofs.Project.Owning
import ElementModules.Proofs.Descriptor.Specifiers
import ElementModules.Proofs.Descriptor.IndexHeader
import ElementModules.Proofs.Descriptor.IndexReading
import ElementModules.Proofs.Text.Slices
import ElementModules.Proofs.Script.Placed
import ElementModules.Proofs.Script.Cursors
import ElementModules.Proofs.Script.Slicing
import ElementModules.Proofs.Script.Identifiers
import ElementModules.Proofs.Descriptor.Quoting
import ElementModules.Proofs.Descriptor.Removing
import ElementModules.Proofs.Descriptor.Layout
