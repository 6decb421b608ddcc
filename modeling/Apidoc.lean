import Apidoc.Build.Context
import Apidoc.Build.Environment
import Apidoc.Build.Session
import Apidoc.CommandLine.Arguments
import Apidoc.CommandLine.Grammar
import Apidoc.CommandLine.Help
import Apidoc.CommandLine.Message
import Apidoc.CommandLine.Program
import Apidoc.Comment.Doc
import Apidoc.Comment.Heading
import Apidoc.Comment.Inline
import Apidoc.Comment.Renderer
import Apidoc.Comment.Target
import Apidoc.Decimal.Shortest
import Apidoc.Decimal.Text
import Apidoc.External.Index
import Apidoc.External.Network
import Apidoc.External.Overview
import Apidoc.Failure
import Apidoc.Files.Action
import Apidoc.Files.Change
import Apidoc.Files.Error
import Apidoc.Files.Path
import Apidoc.Files.Pattern
import Apidoc.Files.Search
import Apidoc.Files.Tree
import Apidoc.Graph.Record
import Apidoc.Graph.Symbols
import Apidoc.Html.Entity
import Apidoc.Html.Entity.Table
import Apidoc.Html.Event
import Apidoc.Html.Node
import Apidoc.Java.Measure
import Apidoc.Java.Piece
import Apidoc.Java.Reader
import Apidoc.Java.Syntax
import Apidoc.Java.Tree
import Apidoc.Java.TypeName
import Apidoc.Json.Printer
import Apidoc.Json.Reader
import Apidoc.Json.Shown
import Apidoc.Json.Value
import Apidoc.Log
import Apidoc.Main
import Apidoc.Model.Ancestors
import Apidoc.Model.Element
import Apidoc.Model.Index
import Apidoc.Model.Position
import Apidoc.Model.QualifiedName
import Apidoc.Model.Reference
import Apidoc.Model.Unit
import Apidoc.Proofs.Build.Again
import Apidoc.Proofs.Build.Callbacks
import Apidoc.Proofs.Build.Circumstances
import Apidoc.Proofs.Build.Collecting
import Apidoc.Proofs.Build.Environment
import Apidoc.Proofs.Build.MainPass
import Apidoc.Proofs.Build.Pass
import Apidoc.Proofs.Build.SamplePass
import Apidoc.Proofs.Build.Session
import Apidoc.Proofs.CommandLine.Program
import Apidoc.Proofs.Comment.Brace
import Apidoc.Proofs.Comment.Doc
import Apidoc.Proofs.Comment.Inline
import Apidoc.Proofs.Comment.Markup
import Apidoc.Proofs.Comment.Reference
import Apidoc.Proofs.Comment.Renderer
import Apidoc.Proofs.Comment.Section
import Apidoc.Proofs.Comment.Tag
import Apidoc.Proofs.External.Attempts
import Apidoc.Proofs.External.Fetching
import Apidoc.Proofs.External.Index
import Apidoc.Proofs.External.Overview
import Apidoc.Proofs.Files.Action
import Apidoc.Proofs.Files.Search
import Apidoc.Proofs.Files.Tree
import Apidoc.Proofs.Files.Under
import Apidoc.Proofs.Files.Walk
import Apidoc.Proofs.Graph.History
import Apidoc.Proofs.Graph.Record
import Apidoc.Proofs.Graph.Symbols
import Apidoc.Proofs.Html.Markup
import Apidoc.Proofs.Java.Border
import Apidoc.Proofs.Java.Descriptor
import Apidoc.Proofs.Java.Head
import Apidoc.Proofs.Java.Layout
import Apidoc.Proofs.Java.Lookahead
import Apidoc.Proofs.Java.Name
import Apidoc.Proofs.Java.Piece
import Apidoc.Proofs.Java.Reading
import Apidoc.Proofs.Java.Row
import Apidoc.Proofs.Java.Tree
import Apidoc.Proofs.Java.TypeName
import Apidoc.Proofs.Java.WrittenType
import Apidoc.Proofs.Json.Printed
import Apidoc.Proofs.Model.Ancestors
import Apidoc.Proofs.Model.Declared
import Apidoc.Proofs.Model.Element
import Apidoc.Proofs.Model.Forest
import Apidoc.Proofs.Model.Index
import Apidoc.Proofs.Model.Name
import Apidoc.Proofs.Model.Position
import Apidoc.Proofs.Model.Precedence
import Apidoc.Proofs.Model.QualifiedName
import Apidoc.Proofs.Model.Qualify
import Apidoc.Proofs.Model.Reference
import Apidoc.Proofs.Model.Search
import Apidoc.Proofs.Model.Signature
import Apidoc.Proofs.Model.SourceCode
import Apidoc.Proofs.Model.Span
import Apidoc.Proofs.Model.Superclass
import Apidoc.Proofs.Model.Unit
import Apidoc.Proofs.Run
import Apidoc.Proofs.Sample.Again
import Apidoc.Proofs.Sample.Cache
import Apidoc.Proofs.Sample.Clean
import Apidoc.Proofs.Sample.Confined
import Apidoc.Proofs.Sample.History
import Apidoc.Proofs.Sample.Library
import Apidoc.Proofs.Sample.Listing
import Apidoc.Proofs.Sample.Mark
import Apidoc.Proofs.Sample.Miss
import Apidoc.Proofs.Sample.Noise
import Apidoc.Proofs.Sample.Removal
import Apidoc.Proofs.Sample.Request
import Apidoc.Proofs.Sample.Search
import Apidoc.Proofs.Sample.Shape
import Apidoc.Proofs.Settings.Origin
import Apidoc.Proofs.Site.Again
import Apidoc.Proofs.Site.Anchor
import Apidoc.Proofs.Site.Files
import Apidoc.Proofs.Site.IndexPage
import Apidoc.Proofs.Site.Link
import Apidoc.Proofs.Site.Navigation
import Apidoc.Proofs.Site.Page
import Apidoc.Proofs.Site.Reference
import Apidoc.Proofs.Site.Sample
import Apidoc.Proofs.Site.Section
import Apidoc.Proofs.Site.ShownName
import Apidoc.Proofs.Site.Writer
import Apidoc.Proofs.Sorting
import Apidoc.Proofs.Text.Blank
import Apidoc.Proofs.Text.Lines
import Apidoc.Proofs.Text.Utf8
import Apidoc.Sample.Cache
import Apidoc.Sample.Clean
import Apidoc.Sample.Library
import Apidoc.Sample.Listing
import Apidoc.Settings.Build
import Apidoc.Settings.Check
import Apidoc.Settings.Logging
import Apidoc.Settings.Origin
import Apidoc.Settings.Problem
import Apidoc.Site.Address
import Apidoc.Site.Asset
import Apidoc.Site.Editor
import Apidoc.Site.Navigation
import Apidoc.Site.Page
import Apidoc.Site.Writer
import Apidoc.Text.Blank
import Apidoc.Text.Letter
import Apidoc.Text.Letter.Alphanumeric
import Apidoc.Text.Letter.Digit
import Apidoc.Text.Letter.Lowercase
import Apidoc.Text.Letter.SmallForm
import Apidoc.Text.Letter.Unprintable
import Apidoc.Text.Lines
import Apidoc.Text.Quoted
import Apidoc.Text.Slice
import Apidoc.Text.Utf8
