import AccessibleMarkdown.Markdown.Builder
import AccessibleMarkdown.Proofs.Tree.Grove

/-!
# What a document means

A document without tables is a forest of leaves and containers. Its events are its serialisation;
its meaning is a grove, read off the forest by recursion: runs of character data become text between
elements, and a container becomes an element around the meaning of what is inside it.
-/

namespace AccessibleMarkdown.Markdown

/-! ## 1. Forests -/

inductive Leaf
  | text (text : String)
  | softBreak
  | hardBreak
  | code (text : String)
  | rule
  | footnoteReference (label : String)
  | taskMarker (checked : Bool)
  | html (text : String)
  | inlineHtml (text : String)
  | inlineMath (text : String)
  | displayMath (text : String)
  deriving DecidableEq, Repr

def Leaf.event : Leaf → Event
  | text s => .text s
  | softBreak => .softBreak
  | hardBreak => .hardBreak
  | code s => .code s
  | rule => .rule
  | footnoteReference label => .footnoteReference label
  | taskMarker checked => .taskMarker checked
  | html s => .html s
  | inlineHtml s => .inlineHtml s
  | inlineMath s => .inlineMath s
  | displayMath s => .displayMath s

/-- The spans that are no part of a table. -/
inductive Container
  | paragraph
  | heading (level : Nat)
  | blockQuote
  | codeBlock (info : Option String)
  | htmlBlock
  | list (start : Option Nat)
  | item
  | footnoteDefinition (label : String)
  | definitionList
  | definitionTitle
  | definition
  | emphasis
  | strong
  | strikethrough
  | link (dest title : String)
  | image (dest title : String)
  | metadataBlock
  deriving DecidableEq, Repr

def Container.span : Container → Span
  | paragraph => .paragraph
  | heading level => .heading level
  | blockQuote => .blockQuote
  | codeBlock info => .codeBlock info
  | htmlBlock => .htmlBlock
  | list start => .list start
  | item => .item
  | footnoteDefinition label => .footnoteDefinition label
  | definitionList => .definitionList
  | definitionTitle => .definitionTitle
  | definition => .definition
  | emphasis => .emphasis
  | strong => .strong
  | strikethrough => .strikethrough
  | link dest title => .link dest title
  | image dest title => .image dest title
  | metadataBlock => .metadataBlock

/-- Nothing but the parts of tables is left out. -/
theorem exists_container : (s : Span) →
    (∃ c : Container, c.span = s) ∨ s.kind ∈ [.table, .tableHead, .tableRow, .tableCell]
  | .table _ | .tableHead | .tableRow | .tableCell => .inr (by simp [Span.kind])
  | .paragraph => .inl ⟨.paragraph, rfl⟩
  | .heading level => .inl ⟨.heading level, rfl⟩
  | .blockQuote => .inl ⟨.blockQuote, rfl⟩
  | .codeBlock info => .inl ⟨.codeBlock info, rfl⟩
  | .htmlBlock => .inl ⟨.htmlBlock, rfl⟩
  | .list start => .inl ⟨.list start, rfl⟩
  | .item => .inl ⟨.item, rfl⟩
  | .footnoteDefinition label => .inl ⟨.footnoteDefinition label, rfl⟩
  | .definitionList => .inl ⟨.definitionList, rfl⟩
  | .definitionTitle => .inl ⟨.definitionTitle, rfl⟩
  | .definition => .inl ⟨.definition, rfl⟩
  | .emphasis => .inl ⟨.emphasis, rfl⟩
  | .strong => .inl ⟨.strong, rfl⟩
  | .strikethrough => .inl ⟨.strikethrough, rfl⟩
  | .link dest title => .inl ⟨.link dest title, rfl⟩
  | .image dest title => .inl ⟨.image dest title, rfl⟩
  | .metadataBlock => .inl ⟨.metadataBlock, rfl⟩

/-- Nothing, or a leaf or a container followed by a forest. -/
inductive Forest
  | nil
  | leaf (l : Leaf) (rest : Forest)
  | container (c : Container) (inner rest : Forest)
  deriving DecidableEq, Repr

def Forest.events : Forest → List Event
  | nil => []
  | leaf l rest => l.event :: rest.events
  | container c inner rest => .start c.span :: (inner.events ++ .stop c.span.kind :: rest.events)

/-! ## 2. Content: text and elements in their order -/

inductive Content
  | nil
  | text (run : String) (rest : Content)
  | element (e : Element) (inner rest : Content)
  deriving DecidableEq, Repr

namespace Content

def append : Content → Content → Content
  | nil, after => after
  | text run rest, after => text run (rest.append after)
  | element e inner rest, after => element e inner (rest.append after)

instance : Append Content := ⟨append⟩

def ofSegments : List Segment → Content
  | [] => nil
  | .text run :: rest => text run (ofSegments rest)
  | .deleted run :: rest => element { tag := .del, text := some run } nil (ofSegments rest)

end Content

/-- What is done with character data. -/
structure Mode where
  /-- Deletion markup is taken out of it. -/
  cuts : Bool
  /-- It is dropped. -/
  drops : Bool := false
  deriving DecidableEq, Repr

def Mode.run (m : Mode) (run : String) : Content :=
  if run.isEmpty then .nil
  else if m.cuts then .ofSegments (Deletion.split run)
  else .text run .nil

/-- What a leaf stands for: more character data, or an element. -/
inductive Leaf.Sense
  | data (text : String)
  | element (e : Element)

/-- HTML and formulas add nothing to the run that they stand in. -/
def Leaf.sense : Leaf → Leaf.Sense
  | text s => .data s
  | softBreak => .data "\n"
  | html _ | inlineHtml _ | inlineMath _ | displayMath _ => .data ""
  | hardBreak => .element { tag := .other "br" }
  | code s => .element { tag := .other "code", text := some s }
  | rule => .element { tag := .other "hr" }
  | footnoteReference label => .element { tag := .other "sup", text := some label }
  | taskMarker checked => .element
    { tag := .other "input",
      attrs := .ofList (("type", "checkbox") :: if checked then [("checked", "checked")] else []) }

/-- How a container shows in the tree. -/
inductive Container.Shell
  | element (e : Element)
  /-- As an element in another one, its character data kept as it is. -/
  | verbatim (outer e : Element)
  /-- As an image, its content made the alternative text. -/
  | image (attrs : List (String × String))
  /-- Not at all, and its character data is dropped. -/
  | silent
  /-- Not at all, and its content flows on. -/
  | clear

def headingTag : Nat → Tag
  | 1 => .h1
  | 2 => .h2
  | 3 => .h3
  | 4 => .h4
  | 5 => .h5
  | _ => .h6

def Container.shell : Container → Container.Shell
  | paragraph => .element { tag := .p }
  | heading level => .element { tag := headingTag level }
  | blockQuote => .element { tag := .other "blockquote" }
  | codeBlock info => .verbatim { tag := .other "pre" }
    { tag := .other "code"
      attrs := .ofList (match info with
        | some language => if language.isEmpty then [] else [("class", "language-" ++ language)]
        | none => []) }
  | htmlBlock | metadataBlock => .silent
  | list (some start) => .element
    { tag := .other "ol", attrs := .ofList (if start = 1 then [] else [("start", toString start)]) }
  | list none => .element { tag := .other "ul" }
  | item => .element { tag := .other "li" }
  | footnoteDefinition label => .element { tag := .div, attrs := .ofList [("id", "fn:" ++ label)] }
  | definitionList | definitionTitle | definition => .clear
  | emphasis => .element { tag := .other "em" }
  | strong => .element { tag := .other "strong" }
  | strikethrough => .element { tag := .del }
  | link dest title => .element
    { tag := .other "a"
      attrs := .ofList (("href", dest) :: if title.isEmpty then [] else [("title", title)]) }
  | image dest title => .image (("src", dest) :: if title.isEmpty then [] else [("title", title)])

/-- The alternative text of an image around a forest: markup does not show, and breaks are
blanks. -/
def Forest.alt : Forest → String
  | nil => ""
  | leaf (.text s) rest | leaf (.code s) rest => s ++ rest.alt
  | leaf .softBreak rest | leaf .hardBreak rest => " " ++ rest.alt
  | leaf _ rest => rest.alt
  | container _ inner rest => inner.alt ++ rest.alt

/-- The content of a container. What is inside it is read in the mode that the container asks for;
`alt` is what is left of it in an image. -/
def Container.Shell.content (deletion : Bool) (m : Mode) (inner : Mode → Content) (alt : String) :
    Container.Shell → Content
  | element e => .element e (inner { cuts := deletion }) .nil
  | verbatim outer e => .element outer (.element e (inner { cuts := false }) .nil) .nil
  | image attrs => .element { tag := .img, attrs := .ofList (attrs ++ [("alt", alt)]) } .nil .nil
  | silent => inner { cuts := deletion, drops := true }
  | clear => inner m

/-- The content of a forest that follows the character data `run`. -/
def Forest.content (deletion : Bool) : Mode → String → Forest → Content
  | m, run, nil => m.run run
  | m, run, leaf l rest =>
    match l.sense with
    | .data s => rest.content deletion m (if m.drops then run else run ++ s)
    | .element e => m.run run ++ .element e .nil .nil ++ rest.content deletion m ""
  | m, run, container c inner rest =>
    m.run run ++ c.shell.content deletion m (fun m => inner.content deletion m "") inner.alt ++
      rest.content deletion m ""

/-! ## 3. Texts and tails -/

def joinText (old : Option String) : Option String → Option String
  | none => old
  | some more => some (old.getD "" ++ more)

/-- The text before the first element. -/
def Content.lead : Content → Option String
  | nil => none
  | text run rest => some (run ++ rest.lead.getD "")
  | element _ _ _ => none

/-- The elements, with the text before the first of them left out. -/
def Content.grove : Content → Grove
  | nil => .nil
  | text _ rest => rest.grove
  | element e inner rest => .node
    { e with text := joinText e.text inner.lead, tail := joinText e.tail rest.lead }
      inner.grove rest.grove

/-- A root without text gets a line break if the first element below it is not a title. -/
def titleMark (top : Grove) (lead : Option String) : Option String :=
  match top with
  | .nil => lead
  | .node e _ _ => if e.tag = .h1 then lead else some (lead.getD "\n")

/-- The tree of a document. -/
def Forest.meaning (deletion : Bool) (f : Forest) : Grove :=
  let c := f.content deletion { cuts := deletion } ""
  .node { tag := .div, text := titleMark c.grove c.lead } c.grove .nil

end AccessibleMarkdown.Markdown
