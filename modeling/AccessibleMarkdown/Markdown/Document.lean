import AccessibleMarkdown.Markdown.BlockReader
import AccessibleMarkdown.Markdown.Builder
import AccessibleMarkdown.Markdown.InlineReader

/-! From the text of a document to its events, and to its element tree. -/

namespace AccessibleMarkdown.Markdown

def leafEvents (ds : Definitions) (text : List Char) : List Event :=
  inlineEvents (InlineReader.read { definitions := ds } text)

def cellEvents (ds : Definitions) (text : List Char) : List Event :=
  .start .tableCell :: inlineEvents (InlineReader.read { definitions := ds, inTable := true } text)
    ++ [.stop .tableCell]

mutual

/-- The events of a block. Paragraphs that stand directly in a tight list are only their text. -/
def Block.events (ds : Definitions) (tight : Bool) : Block → List Event
  | .paragraph text =>
    if tight then leafEvents ds text
    else .start .paragraph :: leafEvents ds text ++ [.stop .paragraph]
  | .heading level text => .start (.heading level) :: leafEvents ds text ++ [.stop .heading]
  | .quote blocks => .start .blockQuote :: blockEvents ds false blocks ++ [.stop .blockQuote]
  | .list start tight items => .start (.list start) :: itemEvents ds tight items ++ [.stop .list]
  | .code info text => [.start (.codeBlock info), .text (String.ofList text), .stop .codeBlock]
  | .html => [.start .htmlBlock, .stop .htmlBlock]
  | .rule => [.rule]
  | .table alignments head rows =>
    .start (.table alignments) :: .start .tableHead :: head.flatMap (cellEvents ds) ++
      [.stop .tableHead]
      ++ rows.flatMap
        (fun row => .start .tableRow :: row.flatMap (cellEvents ds) ++ [.stop .tableRow])
      ++ [.stop .table]

def blockEvents (ds : Definitions) (tight : Bool) : List Block → List Event
  | [] => []
  | b :: rest => b.events ds tight ++ blockEvents ds tight rest

def itemEvents (ds : Definitions) (tight : Bool) : List (List Block) → List Event
  | [] => []
  | item :: rest =>
    .start .item :: blockEvents ds tight item ++ [.stop .item] ++ itemEvents ds tight rest

end

def Document.events (d : Document) : List Event := blockEvents d.definitions false d.blocks

def eventsOf (o : Options) (text : String) : List Event := (Document.ofText o text.toList).events

/-- The element tree of a text; the hook is called for each table. -/
def parseWith {σ : Type} (o : Options) (hook : TableHook σ) (gathered : σ) (text : String) :
    Except TreeError (Tree × σ) :=
  buildTree o.deletion hook gathered (eventsOf o text)

def parse (o : Options) (text : String) : Except TreeError Tree :=
  (parseWith o TableHook.none () text).map Prod.fst

end AccessibleMarkdown.Markdown
