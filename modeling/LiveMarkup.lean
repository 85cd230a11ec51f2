import LiveMarkup.OrderedMap
import LiveMarkup.Text.Blank
import LiveMarkup.Text.EntityName
import LiveMarkup.Text.Entity
import LiveMarkup.Text.Printable
import LiveMarkup.Text.Quoted
import LiveMarkup.Number.Basic
import LiveMarkup.Number.Rounding
import LiveMarkup.Number.Shortest
import LiveMarkup.Number.Text
import LiveMarkup.Number.Read
import LiveMarkup.Markup.Error
import LiveMarkup.Markup.Token
import LiveMarkup.Markup.Scan
import LiveMarkup.Markup.Node
import LiveMarkup.Markup.Void
import LiveMarkup.Markup.Nesting
import LiveMarkup.Document.Tree
import LiveMarkup.Document.Property
import LiveMarkup.Document.Basic
import LiveMarkup.Document.Edit
import LiveMarkup.Document.Copy
import LiveMarkup.Template.Basic
import LiveMarkup.Template.Compile
import LiveMarkup.Template.Cache
import LiveMarkup.Value
import LiveMarkup.Instance.Basic
import LiveMarkup.Instance.Span
import LiveMarkup.Instance.Patch
import LiveMarkup.Instance.Stage
import LiveMarkup.Mount
import LiveMarkup.Component.Element
import LiveMarkup.Component.Program
import LiveMarkup.Component.Mounting
import LiveMarkup.Component.Page
import LiveMarkup.Component.Flush
import LiveMarkup.Report
import LiveMarkup.Main
import LiveMarkup.Proofs.Markup.Grammar
import LiveMarkup.Proofs.Document.Effects
import LiveMarkup.Proofs.Document.Branch
import LiveMarkup.Proofs.Document.Moves
import LiveMarkup.Proofs.Document.Placed
import LiveMarkup.Proofs.Document.Runs
import LiveMarkup.Proofs.Document.Planted
import LiveMarkup.Proofs.Document.Attributes
import LiveMarkup.Proofs.Document.Scene
import LiveMarkup.Proofs.Template.Substitution
import LiveMarkup.Proofs.Template.Tables
import LiveMarkup.Proofs.Instance.Layout
import LiveMarkup.Proofs.Instance.Creation
import LiveMarkup.Proofs.Instance.Bindings
import LiveMarkup.Proofs.Instance.Regions
import LiveMarkup.Proofs.Instance.Rendering
import LiveMarkup.Proofs.Instance.Refinement
import LiveMarkup.Proofs.Component.Steps
import LiveMarkup.Proofs.Component.Update
import LiveMarkup.Proofs.Component.Reachable
import LiveMarkup.Proofs.Component.Course
import LiveMarkup.Proofs.Component.Conduct
import LiveMarkup.Proofs.Component.Queue
import LiveMarkup.Proofs.Component.Schedule
import LiveMarkup.Proofs.Component.Writes
import LiveMarkup.Proofs.Component.Commitment
import LiveMarkup.Proofs.Component.Trace
import LiveMarkup.Proofs.Component.TraceLaw
import LiveMarkup.Proofs.Component.History
import LiveMarkup.Proofs.Component.Rounds
import LiveMarkup.Proofs.Component.Renderers
import LiveMarkup.Proofs.Component.Connection
import LiveMarkup.Proofs.Component.Sites
import LiveMarkup.Proofs.Component.Requests
import LiveMarkup.Proofs.Component.Aborted
import LiveMarkup.Proofs.Component.Staging
import LiveMarkup.Proofs.Component.Unseen
import LiveMarkup.Proofs.Component.Batching
import LiveMarkup.Proofs.Markup.Parsing
import LiveMarkup.Proofs.Markup.Scanning
import LiveMarkup.Proofs.Markup.Writing
import LiveMarkup.Proofs.Document.Reachable
import LiveMarkup.Proofs.Document.Hierarchy
import LiveMarkup.Proofs.Document.Traversals
import LiveMarkup.Proofs.Document.Copies
import LiveMarkup.Proofs.Document.Evolution
import LiveMarkup.Proofs.Document.Neighbours
import LiveMarkup.Proofs.Document.Shapes
import LiveMarkup.Proofs.Document.Rewriting
import LiveMarkup.Proofs.Document.Operations
import LiveMarkup.Proofs.Document.Insertion
import LiveMarkup.Proofs.Instance.Links
import LiveMarkup.Proofs.Instance.Gathering
import LiveMarkup.Proofs.Instance.Spans
import LiveMarkup.Proofs.Instance.Nesting
import LiveMarkup.Proofs.Instance.Sparing
import LiveMarkup.Proofs.Instance.Replacing
import LiveMarkup.Proofs.Instance.Newborn
import LiveMarkup.Proofs.Instance.Resolution
import LiveMarkup.Proofs.Instance.Placing
import LiveMarkup.Proofs.Instance.Coherence
import LiveMarkup.Proofs.Instance.Lifting
import LiveMarkup.Proofs.Text.References
import LiveMarkup.Proofs.Template.Serialization
import LiveMarkup.Proofs.Markup.Boundaries
import LiveMarkup.Proofs.Template.Spots
import LiveMarkup.Proofs.Template.Numbering
import LiveMarkup.Proofs.Template.Rereading
import LiveMarkup.Proofs.Template.Outline
import LiveMarkup.Proofs.Document.Subtrees
import LiveMarkup.Proofs.Document.Strewn
import LiveMarkup.Proofs.Document.Duplicates
import LiveMarkup.Proofs.Instance.Tying
import LiveMarkup.Proofs.Instance.Opening
import LiveMarkup.Proofs.Instance.Refilling
import LiveMarkup.Proofs.Instance.Remembered
import LiveMarkup.Proofs.Instance.Drifting
import LiveMarkup.Proofs.Instance.Lives
import LiveMarkup.Proofs.Instance.Tending
import LiveMarkup.Proofs.Instance.InPlace
import LiveMarkup.Proofs.Instance.Agreement
import LiveMarkup.Proofs.Instance.Calm
import LiveMarkup.Proofs.Instance.Touching
import LiveMarkup.Proofs.Instance.Inertness
import LiveMarkup.Proofs.Instance.Hiding
import LiveMarkup.Proofs.Mount.Containers
import LiveMarkup.Proofs.Mount.Calls
import LiveMarkup.Proofs.Mount.Reached
import LiveMarkup.Proofs.Instance.Reaching
import LiveMarkup.Proofs.Mount.Shortcut
import LiveMarkup.Proofs.Markup.Lexemes
import LiveMarkup.Proofs.Markup.Searching
import LiveMarkup.Proofs.Markup.Stepping
import LiveMarkup.Proofs.Markup.Cursor
import LiveMarkup.Proofs.Markup.Tags
import LiveMarkup.Proofs.Markup.Enclosing
import LiveMarkup.Proofs.Markup.Belonging
import LiveMarkup.Proofs.Template.Cache
