import AccessibleMarkdown.Audit.AltText
import AccessibleMarkdown.Audit.Contrast
import AccessibleMarkdown.Audit.Diagnostic
import AccessibleMarkdown.Audit.HeadingRole
import AccessibleMarkdown.Audit.ImageFile
import AccessibleMarkdown.Audit.Pass
import AccessibleMarkdown.Audit.Pipeline
import AccessibleMarkdown.Audit.Role
import AccessibleMarkdown.Audit.TableSemantics
import AccessibleMarkdown.Audit.Title
import AccessibleMarkdown.Checker
import AccessibleMarkdown.Command.Arguments
import AccessibleMarkdown.Command.Failure
import AccessibleMarkdown.Command.Run
import AccessibleMarkdown.Command.Sources
import AccessibleMarkdown.Config
import AccessibleMarkdown.Decimal.Binary64
import AccessibleMarkdown.Decimal.Fixed
import AccessibleMarkdown.Decimal.Shortest
import AccessibleMarkdown.Element.Attributes
import AccessibleMarkdown.Element.Basic
import AccessibleMarkdown.Element.Tag
import AccessibleMarkdown.File.Lookup
import AccessibleMarkdown.File.Name
import AccessibleMarkdown.File.Tree
import AccessibleMarkdown.Image.Bytes
import AccessibleMarkdown.Image.Decode
import AccessibleMarkdown.Image.Deflate
import AccessibleMarkdown.Image.Format
import AccessibleMarkdown.Image.Luminance
import AccessibleMarkdown.Image.Png
import AccessibleMarkdown.Json
import AccessibleMarkdown.Main
import AccessibleMarkdown.Markdown.Block
import AccessibleMarkdown.Markdown.BlockReader
import AccessibleMarkdown.Markdown.Builder
import AccessibleMarkdown.Markdown.Cursor
import AccessibleMarkdown.Markdown.Deletion
import AccessibleMarkdown.Markdown.Destination
import AccessibleMarkdown.Markdown.Document
import AccessibleMarkdown.Markdown.Emphasis
import AccessibleMarkdown.Markdown.Entity
import AccessibleMarkdown.Markdown.EntityTable
import AccessibleMarkdown.Markdown.Event
import AccessibleMarkdown.Markdown.Html
import AccessibleMarkdown.Markdown.Inline
import AccessibleMarkdown.Markdown.InlineReader
import AccessibleMarkdown.Markdown.Marker
import AccessibleMarkdown.Markdown.Reference
import AccessibleMarkdown.Markdown.Table
import AccessibleMarkdown.Report
import AccessibleMarkdown.Text.Blank
import AccessibleMarkdown.Text.CaseFold
import AccessibleMarkdown.Text.CharSet
import AccessibleMarkdown.Text.Pair
import AccessibleMarkdown.Text.Printable
import AccessibleMarkdown.Text.Punctuation
import AccessibleMarkdown.Text.Quoted
import AccessibleMarkdown.Text.Slice
import AccessibleMarkdown.Toml.Decode
import AccessibleMarkdown.Toml.Document
import AccessibleMarkdown.Toml.Number
import AccessibleMarkdown.Toml.Scan
import AccessibleMarkdown.Toml.Text
import AccessibleMarkdown.Toml.Value
import AccessibleMarkdown.Tree.Basic
import AccessibleMarkdown.Tree.Outline
import AccessibleMarkdown.Tree.Path
import AccessibleMarkdown.Tree.Trace
import AccessibleMarkdown.Tree.Walk
import AccessibleMarkdown.Proofs.Audit.AltRepair
import AccessibleMarkdown.Proofs.Audit.AltRepeats
import AccessibleMarkdown.Proofs.Audit.Assembling
import AccessibleMarkdown.Proofs.Audit.Contrasts
import AccessibleMarkdown.Proofs.Audit.Coverage
import AccessibleMarkdown.Proofs.Audit.Effects
import AccessibleMarkdown.Proofs.Audit.Extent
import AccessibleMarkdown.Proofs.Audit.Findings
import AccessibleMarkdown.Proofs.Audit.HeadingRoles
import AccessibleMarkdown.Proofs.Audit.Independence
import AccessibleMarkdown.Proofs.Audit.Markers
import AccessibleMarkdown.Proofs.Audit.Marking
import AccessibleMarkdown.Proofs.Audit.Ownership
import AccessibleMarkdown.Proofs.Audit.Pointing
import AccessibleMarkdown.Proofs.Audit.Repeats
import AccessibleMarkdown.Proofs.Audit.Rerun
import AccessibleMarkdown.Proofs.Audit.TableParts
import AccessibleMarkdown.Proofs.Checker.Annotations
import AccessibleMarkdown.Proofs.Checker.Staging
import AccessibleMarkdown.Proofs.Checker.Success
import AccessibleMarkdown.Proofs.Checker.Texts
import AccessibleMarkdown.Proofs.Checker.Verdict
import AccessibleMarkdown.Proofs.Element.AttributeTable
import AccessibleMarkdown.Proofs.Element.Attributes
import AccessibleMarkdown.Proofs.Markdown.Additions
import AccessibleMarkdown.Proofs.Markdown.Building
import AccessibleMarkdown.Proofs.Markdown.Contents
import AccessibleMarkdown.Proofs.Markdown.Deletion
import AccessibleMarkdown.Proofs.Markdown.Draft
import AccessibleMarkdown.Proofs.Markdown.Drawing
import AccessibleMarkdown.Proofs.Markdown.Filling
import AccessibleMarkdown.Proofs.Markdown.Frames
import AccessibleMarkdown.Proofs.Markdown.Hyphens
import AccessibleMarkdown.Proofs.Markdown.ImageBlock
import AccessibleMarkdown.Proofs.Markdown.Meaning
import AccessibleMarkdown.Proofs.Markdown.Nesting
import AccessibleMarkdown.Proofs.Markdown.Pouring
import AccessibleMarkdown.Proofs.Markdown.Progress
import AccessibleMarkdown.Proofs.Markdown.Reading
import AccessibleMarkdown.Proofs.Markdown.Recutting
import AccessibleMarkdown.Proofs.Markdown.Standing
import AccessibleMarkdown.Proofs.Markdown.TableBlock
import AccessibleMarkdown.Proofs.Markdown.Tables
import AccessibleMarkdown.Proofs.Markdown.Wording
import AccessibleMarkdown.Proofs.Text.Pair
import AccessibleMarkdown.Proofs.Text.Trim
import AccessibleMarkdown.Proofs.Tree.Arena
import AccessibleMarkdown.Proofs.Tree.Coordinates
import AccessibleMarkdown.Proofs.Tree.Grove
import AccessibleMarkdown.Proofs.Tree.Growth
import AccessibleMarkdown.Proofs.Tree.Handlers
import AccessibleMarkdown.Proofs.Tree.Links
import AccessibleMarkdown.Proofs.Tree.Order
import AccessibleMarkdown.Proofs.Tree.Painting
import AccessibleMarkdown.Proofs.Tree.Reach
import AccessibleMarkdown.Proofs.Tree.Route
import AccessibleMarkdown.Proofs.Tree.Session
import AccessibleMarkdown.Proofs.Tree.Texts
import AccessibleMarkdown.Proofs.Tree.Whole
import AccessibleMarkdown.Proofs.Tree.Attaching
import AccessibleMarkdown.Proofs.Tree.Sprouting
import AccessibleMarkdown.Proofs.Tree.Dispatch
import AccessibleMarkdown.Proofs.Tree.Overriding
import AccessibleMarkdown.Proofs.Tree.Tracing
import AccessibleMarkdown.Proofs.Tree.Outline
import AccessibleMarkdown.Proofs.Tree.Paths
import AccessibleMarkdown.Proofs.Tree.Listing
import AccessibleMarkdown.Proofs.Element.Agreement
import AccessibleMarkdown.Proofs.Text.Delimiting
import AccessibleMarkdown.Proofs.Json.Compact
import AccessibleMarkdown.Proofs.Audit.Records
import AccessibleMarkdown.Proofs.Text.Quoting
import AccessibleMarkdown.Proofs.Element.Line
import AccessibleMarkdown.Proofs.Tree.Isomorphism
import AccessibleMarkdown.Proofs.Tree.Legibility
import AccessibleMarkdown.Proofs.Text.Lines
import AccessibleMarkdown.Proofs.Audit.Messages
import AccessibleMarkdown.Proofs.Checker.Captions
import AccessibleMarkdown.Proofs.Checker.ReportLines
