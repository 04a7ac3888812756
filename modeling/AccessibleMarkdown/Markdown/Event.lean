/-!
Document events: a document as a sequence of starts, ends and leaves, the way a reader meets them.
-/

namespace AccessibleMarkdown.Markdown

inductive Alignment
  | none | left | center | right
  deriving DecidableEq, Repr

def Alignment.side? : Alignment → Option String
  | none => Option.none
  | left => some "left"
  | center => some "center"
  | right => some "right"

/-- The kinds of spans, without their particulars. -/
inductive SpanKind
  | paragraph | heading | blockQuote | codeBlock | htmlBlock | list | item | footnoteDefinition
  | definitionList | definitionTitle | definition | table | tableHead | tableRow | tableCell
  | emphasis | strong | strikethrough | link | image | metadataBlock
  deriving DecidableEq, Repr

inductive Span
  | paragraph
  | heading (level : Nat)
  | blockQuote
  /-- The info string of a fenced block; none for an indented one. -/
  | codeBlock (info : Option String)
  | htmlBlock
  /-- The first number of an ordered list; none for a bullet list. -/
  | list (start : Option Nat)
  | item
  | footnoteDefinition (label : String)
  | definitionList
  | definitionTitle
  | definition
  | table (alignments : List Alignment)
  | tableHead
  | tableRow
  | tableCell
  | emphasis
  | strong
  | strikethrough
  | link (dest title : String)
  | image (dest title : String)
  | metadataBlock
  deriving DecidableEq, Repr

def Span.kind : Span → SpanKind
  | paragraph => .paragraph
  | heading _ => .heading
  | blockQuote => .blockQuote
  | codeBlock _ => .codeBlock
  | htmlBlock => .htmlBlock
  | list _ => .list
  | item => .item
  | footnoteDefinition _ => .footnoteDefinition
  | definitionList => .definitionList
  | definitionTitle => .definitionTitle
  | definition => .definition
  | table _ => .table
  | tableHead => .tableHead
  | tableRow => .tableRow
  | tableCell => .tableCell
  | emphasis => .emphasis
  | strong => .strong
  | strikethrough => .strikethrough
  | link _ _ => .link
  | image _ _ => .image
  | metadataBlock => .metadataBlock

inductive Event
  | start (span : Span)
  | stop (kind : SpanKind)
  | text (text : String)
  | code (text : String)
  | inlineMath (text : String)
  | displayMath (text : String)
  | html (text : String)
  | inlineHtml (text : String)
  | footnoteReference (label : String)
  | softBreak
  | hardBreak
  | rule
  | taskMarker (checked : Bool)
  deriving DecidableEq, Repr

end AccessibleMarkdown.Markdown
