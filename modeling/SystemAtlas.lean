import SystemAtlas.Build
import SystemAtlas.CommandLine
import SystemAtlas.Declaration.Checked
import SystemAtlas.Declaration.Fault
import SystemAtlas.Declaration.Form
import SystemAtlas.Declaration.Member
import SystemAtlas.Declaration.MemberReader
import SystemAtlas.Declaration.Styles
import SystemAtlas.Declaration.Value
import SystemAtlas.Declaration.View
import SystemAtlas.Declaration.ViewReader
import SystemAtlas.Declaration.Workspace
import SystemAtlas.Distinct
import SystemAtlas.Edit
import SystemAtlas.Error
import SystemAtlas.Identifier.Ledger
import SystemAtlas.Identifier.LocalName
import SystemAtlas.Identifier.Registry
import SystemAtlas.Identifier.Slug
import SystemAtlas.Json.Basic
import SystemAtlas.Json.Reader
import SystemAtlas.Json.Token
import SystemAtlas.Json.Writer
import SystemAtlas.Layout.Acyclic
import SystemAtlas.Layout.Diagram
import SystemAtlas.Layout.Layers
import SystemAtlas.Layout.Placement
import SystemAtlas.Layout.Strategy
import SystemAtlas.Main
import SystemAtlas.Model.Assembly
import SystemAtlas.Model.Element
import SystemAtlas.Model.Graph
import SystemAtlas.Model.Implied
import SystemAtlas.Model.Indexed
import SystemAtlas.Model.Relationship
import SystemAtlas.Model.Replication
import SystemAtlas.Model.Script
import SystemAtlas.Model.Tags
import SystemAtlas.Number.Decimal
import SystemAtlas.Number.Shortest
import SystemAtlas.Payload
import SystemAtlas.Progress
import SystemAtlas.Proofs.Build.Closure
import SystemAtlas.Proofs.Build.Coloring
import SystemAtlas.Proofs.Build.Grouping
import SystemAtlas.Proofs.Build.Independence
import SystemAtlas.Proofs.Build.Refusal
import SystemAtlas.Proofs.Build.Rendering
import SystemAtlas.Proofs.Build.Theming
import SystemAtlas.Proofs.CommandLine.Refusal
import SystemAtlas.Proofs.Declaration.Forms
import SystemAtlas.Proofs.Declaration.NormalForm
import SystemAtlas.Proofs.Declaration.Parts
import SystemAtlas.Proofs.Declaration.Reading
import SystemAtlas.Proofs.Declaration.Rereading
import SystemAtlas.Proofs.Declaration.Styling
import SystemAtlas.Proofs.Identifier.Allocating
import SystemAtlas.Proofs.Identifier.Earlier
import SystemAtlas.Proofs.Identifier.FreeName
import SystemAtlas.Proofs.Identifier.Ledger
import SystemAtlas.Proofs.Identifier.Matching
import SystemAtlas.Proofs.Identifier.Narrowing
import SystemAtlas.Proofs.Identifier.Resolving
import SystemAtlas.Proofs.Identifier.Slug
import SystemAtlas.Proofs.Keyed
import SystemAtlas.Proofs.Layout.Acyclic
import SystemAtlas.Proofs.Layout.Cycles
import SystemAtlas.Proofs.Layout.Ordering
import SystemAtlas.Proofs.Layout.Placement
import SystemAtlas.Proofs.Layout.Ranks
import SystemAtlas.Proofs.Layout.Searching
import SystemAtlas.Proofs.Layout.Seats
import SystemAtlas.Proofs.Model.Alike
import SystemAtlas.Proofs.Model.Beginning
import SystemAtlas.Proofs.Model.Binding
import SystemAtlas.Proofs.Model.Copying
import SystemAtlas.Proofs.Model.Declaring
import SystemAtlas.Proofs.Model.Deferring
import SystemAtlas.Proofs.Model.Derived
import SystemAtlas.Proofs.Model.Descent
import SystemAtlas.Proofs.Model.Enclosing
import SystemAtlas.Proofs.Model.Entries
import SystemAtlas.Proofs.Model.Flattening
import SystemAtlas.Proofs.Model.Forest
import SystemAtlas.Proofs.Model.Growth
import SystemAtlas.Proofs.Model.Implying
import SystemAtlas.Proofs.Model.InStep
import SystemAtlas.Proofs.Model.Indexed
import SystemAtlas.Proofs.Model.Lawful
import SystemAtlas.Proofs.Model.Linking
import SystemAtlas.Proofs.Model.Locating
import SystemAtlas.Proofs.Model.Naming
import SystemAtlas.Proofs.Model.Nesting
import SystemAtlas.Proofs.Model.Offering
import SystemAtlas.Proofs.Model.Origin
import SystemAtlas.Proofs.Model.Refusal
import SystemAtlas.Proofs.Model.Registered
import SystemAtlas.Proofs.Model.Renaming
import SystemAtlas.Proofs.Model.Reordering
import SystemAtlas.Proofs.Model.Soundness
import SystemAtlas.Proofs.Model.Step
import SystemAtlas.Proofs.Model.Tagging
import SystemAtlas.Proofs.Model.Traffic
import SystemAtlas.Proofs.Model.Typing
import SystemAtlas.Proofs.Model.Unwinding
import SystemAtlas.Proofs.Model.Walks
import SystemAtlas.Proofs.Refusal
import SystemAtlas.Proofs.Style.Cascade
import SystemAtlas.Proofs.Style.Loading
import SystemAtlas.Proofs.Style.Refusal
import SystemAtlas.Proofs.Style.Selecting
import SystemAtlas.Proofs.Text.Dotted
import SystemAtlas.Proofs.Text.Trimming
import SystemAtlas.Proofs.View.Alike
import SystemAtlas.Proofs.View.Animating
import SystemAtlas.Proofs.View.Expansion
import SystemAtlas.Proofs.View.Filtering
import SystemAtlas.Proofs.View.Hosting
import SystemAtlas.Proofs.View.Reach
import SystemAtlas.Proofs.View.Refusal
import SystemAtlas.Proofs.View.Registration
import SystemAtlas.Proofs.View.Resuming
import SystemAtlas.Proofs.View.Revealing
import SystemAtlas.Resource.Address
import SystemAtlas.Resource.Files
import SystemAtlas.Resource.Path
import SystemAtlas.Resource.Url
import SystemAtlas.Resource.World
import SystemAtlas.Scope
import SystemAtlas.Settings
import SystemAtlas.Style.Cascade
import SystemAtlas.Style.Color
import SystemAtlas.Style.Fault
import SystemAtlas.Style.Line
import SystemAtlas.Style.Rule
import SystemAtlas.Style.Shape
import SystemAtlas.Style.Theme
import SystemAtlas.Table
import SystemAtlas.Text.Basic
import SystemAtlas.Text.Blank
import SystemAtlas.Text.Casing
import SystemAtlas.Text.CasingTable
import SystemAtlas.Text.Encoding
import SystemAtlas.Text.Lossy
import SystemAtlas.Text.PrintableTable
import SystemAtlas.Text.Quoted
import SystemAtlas.Text.Terminal
import SystemAtlas.View.Animation
import SystemAtlas.View.Basic
import SystemAtlas.View.Catalogue
import SystemAtlas.View.Focus
import SystemAtlas.View.Kind
