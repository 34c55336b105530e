import ScriptDocs.Main
import ScriptDocs.Proofs.Comment.Span
import ScriptDocs.Proofs.Comment.Target
import ScriptDocs.Proofs.Namespace
import ScriptDocs.Proofs.Produced
import ScriptDocs.Proofs.Source
import ScriptDocs.Proofs.Symbol
import ScriptDocs.Proofs.Source.Fault
import ScriptDocs.Proofs.Source.FileComment
import ScriptDocs.Proofs.Comment.Following
import ScriptDocs.Proofs.Comment.Section
import ScriptDocs.Proofs.Comment.Standing
import ScriptDocs.Proofs.Comment.Block
import ScriptDocs.Proofs.Catalog
import ScriptDocs.Proofs.Json.Reader
import ScriptDocs.Proofs.Parsing
import ScriptDocs.Proofs.File.Store
import ScriptDocs.Proofs.Command.Run
import ScriptDocs.Proofs.Site.Pages
import ScriptDocs.Proofs.Site.Order
import ScriptDocs.Proofs.Site.Names
import ScriptDocs.Proofs.Html.Values
import ScriptDocs.Proofs.Html.Passages
import ScriptDocs.Proofs.Page.Content
import ScriptDocs.Proofs.Page.Anchors
import ScriptDocs.Proofs.Page.Links
import ScriptDocs.Proofs.Page.Divisions
import ScriptDocs.Proofs.Comment.Longest
import ScriptDocs.Proofs.Comment.Stranded
import ScriptDocs.Proofs.Comment.Decoration
import ScriptDocs.Proofs.Comment.Parts
import ScriptDocs.Proofs.Page.Fault
import ScriptDocs.Proofs.Flag.Typed
import ScriptDocs.Proofs.Comment.Whole
import ScriptDocs.Proofs.Flag.Described
import ScriptDocs.Proofs.Declaration
import ScriptDocs.Proofs.Flag.Named
import ScriptDocs.Proofs.Page.Summaries
import ScriptDocs.Proofs.Link.Web
import ScriptDocs.Proofs.Catalog.Duplicates
import ScriptDocs.Proofs.Link.Scan
import ScriptDocs.Proofs.Link.References
import ScriptDocs.Proofs.Text.Utf8
import ScriptDocs.Proofs.File.Path
import ScriptDocs.Proofs.File.Walk
import ScriptDocs.Proofs.File.Tree
import ScriptDocs.Proofs.Comment.Gaps
import ScriptDocs.Proofs.Comment.Marks
