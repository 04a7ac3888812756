import AccessibleMarkdown.Markdown.Deletion
import AccessibleMarkdown.Markdown.Event
import AccessibleMarkdown.Tree.Basic

/-!
Building an element tree from document events. Each start, images apart, opens one frame and each
end closes one, so spans that have no element keep the frames in step. Text is held back until
something else comes; then it goes to the text of the container, or to the tail of its last child.
A hook is called as each table is complete, on the tree as it then is.
-/

namespace AccessibleMarkdown.Markdown

/-- Called with the parent of a table that is complete; `σ` is what it gathers. -/
abbrev TableHook (σ : Type) := NodeId → Tree × σ → Tree × σ

def TableHook.none : TableHook Unit := fun _ s => s

structure Frame where
  container : NodeId
  /-- Drop character data. -/
  skip : Bool := false
  /-- Keep character data as it is. -/
  raw : Bool := false
  deriving DecidableEq, Repr

structure OpenTable where
  table : NodeId
  body : Option NodeId := none
  alignments : List Alignment
  column : Nat := 0
  inHead : Bool := false
  deriving DecidableEq, Repr

structure OpenImage where
  node : NodeId
  alt : String := ""
  /-- Images open inside this one. -/
  depth : Nat := 0
  deriving DecidableEq, Repr

/-- The state of a building; `frames` has the innermost first. -/
structure Builder (σ : Type) where
  tree : Tree
  gathered : σ
  frames : List Frame := []
  pending : String := ""
  table : Option OpenTable := none
  image : Option OpenImage := none
  deletion : Bool

namespace Builder

variable {σ : Type}

def start (deletion : Bool) (gathered : σ) : Builder σ := { tree := .empty, gathered, deletion }

def frame (b : Builder σ) : Frame := b.frames.head?.getD { container := Tree.rootId }

def appendTo (b : Builder σ) (parent : NodeId) (e : Element) :
    Except TreeError (Builder σ × NodeId) :=
  let (tree, result) := b.tree.append parent e
  result.map fun id => ({ b with tree }, id)

/-- Appends an element to the container. -/
def append (b : Builder σ) (e : Element) : Except TreeError (Builder σ × NodeId) :=
  b.appendTo b.frame.container e

def pushFrame (b : Builder σ) (f : Frame) : Builder σ := { b with frames := f :: b.frames }

/-- Appends an element to the container and makes it the container. -/
def openElement (b : Builder σ) (e : Element) : Except TreeError (Builder σ) := do
  let (b, id) ← b.append e
  return b.pushFrame { container := id }

/-! ## Text -/

def addText (e : Element) (run : String) : Element :=
  { e with text := some (e.text.getD "" ++ run) }

def addTail (e : Element) (run : String) : Element :=
  { e with tail := some (e.tail.getD "" ++ run) }

/-- Adds text at the end of a node. -/
def appendRun (t : Tree) (container : NodeId) (run : String) : Tree :=
  match t.lastChild? container with
  | some last => t.modify last (addTail · run)
  | none => t.modify container (addText · run)

def appendText (b : Builder σ) (container : NodeId) (run : String) : Builder σ :=
  { b with tree := appendRun b.tree container run }

def appendSegment (container : NodeId) (b : Builder σ) : Segment → Except TreeError (Builder σ)
  | .text run => .ok (b.appendText container run)
  | .deleted run => (b.appendTo container { tag := .del, text := some run }).map Prod.fst

/-- Moves the text held back into the tree. -/
def flush (b : Builder σ) : Except TreeError (Builder σ) :=
  if b.pending.isEmpty then .ok b
  else
    let text := b.pending
    let frame := b.frame
    let b := { b with pending := "" }
    if !b.deletion || frame.raw then .ok (b.appendText frame.container text)
    else (Deletion.split text).foldlM (appendSegment frame.container) b

/-- Holds text back, unless it is to be dropped. -/
def hold (b : Builder σ) (text : String) : Builder σ :=
  if b.frame.skip then b else { b with pending := b.pending ++ text }

/-! ## Starts -/

def element (tag : String) (attrs : List (String × String)) : Element :=
  { tag := .ofName tag, attrs := .ofList attrs }

def textElement (tag text : String) : Element := { tag := .ofName tag, text := some text }

/-- An attribute that is left out if its value is empty. -/
def given (name value : String) : List (String × String) :=
  if value.isEmpty then [] else [(name, value)]

def cellAttrs (align : Option Alignment) : List (String × String) :=
  match align.bind Alignment.side? with
  | some side => [("style", "text-align: " ++ side ++ ";")]
  | none => []

/-- The next cell of the open table, and the table after it. -/
def nextCell : Option OpenTable → Element × Option OpenTable
  | some t =>
    (element (if t.inHead then "th" else "td") (cellAttrs t.alignments[t.column]?),
      some { t with column := t.column + 1 })
  | none => (element "td" [], none)

/-- The row group of body rows, made for the first of them. Outside tables rows go to the
container. -/
def body (b : Builder σ) : Except TreeError (Builder σ × NodeId) :=
  match b.table with
  | none => .ok (b, b.frame.container)
  | some t =>
    match t.body with
    | some id => .ok (b, id)
    | none => do
      let (b, id) ← b.appendTo t.table (element "tbody" [])
      return ({ b with table := some { t with body := some id } }, id)

/-- Puts the open table back to its first column. -/
def startRow (b : Builder σ) (inHead : Bool → Bool) : Builder σ :=
  { b with table := b.table.map fun t => { t with column := 0, inHead := inHead t.inHead } }

def openSpan (b : Builder σ) : Span → Except TreeError (Builder σ)
  | .paragraph => b.openElement { tag := .p }
  | .heading level => b.openElement { tag := (Tag.heading? level).getD .h6 }
  | .blockQuote => b.openElement (element "blockquote" [])
  | .codeBlock info => do
    let (b, pre) ← b.append (element "pre" [])
    let language := (info.filter (!·.isEmpty)).map ("language-" ++ ·)
    let (b, code) ← b.appendTo pre (element "code" (given "class" (language.getD "")))
    return b.pushFrame { container := code, raw := true }
  | .list (some start) =>
    b.openElement (element "ol" (if start = 1 then [] else [("start", toString start)]))
  | .list none => b.openElement (element "ul" [])
  | .item => b.openElement (element "li" [])
  | .footnoteDefinition label => b.openElement (element "div" [("id", "fn:" ++ label)])
  | .emphasis => b.openElement (element "em" [])
  | .strong => b.openElement (element "strong" [])
  | .strikethrough => b.openElement (element "del" [])
  | .link dest title => b.openElement (element "a" (("href", dest) :: given "title" title))
  | .image dest title => do
    let (b, node) ← b.append (element "img" (("src", dest) :: given "title" title))
    return { b with image := some { node } }
  | .table alignments => do
    let (b, table) ← b.append { tag := .table }
    return { b.pushFrame { container := table } with table := some { table, alignments } }
  | .tableHead => do
    let (b, thead) ← b.append { tag := .thead }
    let (b, tr) ← b.appendTo thead { tag := .tr }
    return (b.startRow fun _ => true).pushFrame { container := tr }
  | .tableRow => do
    let (b, tbody) ← b.body
    let (b, tr) ← b.appendTo tbody { tag := .tr }
    return (b.startRow id).pushFrame { container := tr }
  | .tableCell =>
    let (cell, table) := nextCell b.table
    { b with table }.openElement cell
  | .htmlBlock | .metadataBlock =>
    .ok (b.pushFrame { container := b.frame.container, skip := true })
  | .definitionList | .definitionTitle | .definition => .ok (b.pushFrame b.frame)

/-! ## Ends -/

def appendCells (b : Builder σ) (row : NodeId) : Nat → Except TreeError (Builder σ)
  | 0 => .ok b
  | n + 1 => do
    let (b, _) ← b.appendTo row { tag := .td }
    b.appendCells row n

/-- Gives a table without body rows one row of empty cells. -/
def fillBody (b : Builder σ) (t : OpenTable) : Except TreeError (Builder σ) :=
  if t.body.isSome then .ok b
  else do
    let (b, tbody) ← b.appendTo t.table { tag := .tbody }
    let (b, tr) ← b.appendTo tbody { tag := .tr }
    b.appendCells tr t.alignments.length

def closeTable (hook : TableHook σ) (b : Builder σ) : Except TreeError (Builder σ) :=
  match b.table with
  | none => .ok b
  | some t => do
    let b ← { b with table := none }.fillBody t
    let parent := (b.tree.parent? t.table).getD Tree.rootId
    let (tree, gathered) := hook parent (b.tree, b.gathered)
    return { b with tree, gathered }

def closeSpan (hook : TableHook σ) (b : Builder σ) (kind : SpanKind) :
    Except TreeError (Builder σ) :=
  let b := { b with frames := b.frames.tail }
  match kind with
  | .tableHead => .ok { b with table := b.table.map fun t => { t with inHead := false } }
  | .table => closeTable hook b
  | _ => .ok b

/-! ## Events -/

/-- Between the start of an image and its end, text makes up its alternative text. -/
def pushAlt (b : Builder σ) (image : OpenImage) : Event → Builder σ
  | .text s | .code s => { b with image := some { image with alt := image.alt ++ s } }
  | .softBreak | .hardBreak => { b with image := some { image with alt := image.alt ++ " " } }
  | .start (.image _ _) => { b with image := some { image with depth := image.depth + 1 } }
  | .stop .image =>
    match image.depth with
    | depth + 1 => { b with image := some { image with depth } }
    | 0 => { b with tree := b.tree.modify image.node (·.set "alt" image.alt), image := none }
  | _ => b

def appendLeaf (b : Builder σ) (e : Element) : Except TreeError (Builder σ) := do
  let b ← b.flush
  let (b, _) ← b.append e
  return b

def pushEvent (hook : TableHook σ) (b : Builder σ) : Event → Except TreeError (Builder σ)
  | .start span => do (← b.flush).openSpan span
  | .stop kind => do closeSpan hook (← b.flush) kind
  | .text s => .ok (b.hold s)
  | .softBreak => .ok (b.hold "\n")
  | .code s => b.appendLeaf (textElement "code" s)
  | .hardBreak => b.appendLeaf (element "br" [])
  | .rule => b.appendLeaf (element "hr" [])
  | .footnoteReference label => b.appendLeaf (textElement "sup" label)
  | .taskMarker checked =>
    b.appendLeaf
      (element "input" (("type", "checkbox") :: if checked then [("checked", "checked")] else []))
  | .html _ | .inlineHtml _ | .inlineMath _ | .displayMath _ => .ok b

def push (hook : TableHook σ) (b : Builder σ) (event : Event) : Except TreeError (Builder σ) :=
  match b.image with
  | some image => .ok (b.pushAlt image event)
  | none => b.pushEvent hook event

/-- Marks a document whose first block is not a title, by a line break as the text of the root. -/
def markUntitled (t : Tree) : Tree :=
  match (t.firstChild? Tree.rootId).bind t.element? with
  | some first =>
    if first.tag = .h1 then t
    else t.modify Tree.rootId fun root => { root with text := some (root.text.getD "\n") }
  | none => t

def finish (b : Builder σ) : Except TreeError (Tree × σ) := do
  let b ← b.flush
  return (markUntitled b.tree, b.gathered)

end Builder

def buildTree {σ : Type} (deletion : Bool) (hook : TableHook σ) (gathered : σ)
    (events : List Event) : Except TreeError (Tree × σ) := do
  let b ← events.foldlM (Builder.push hook) (Builder.start deletion gathered)
  b.finish

end AccessibleMarkdown.Markdown
