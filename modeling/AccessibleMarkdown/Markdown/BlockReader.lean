import AccessibleMarkdown.Markdown.Block
import AccessibleMarkdown.Markdown.Html
import AccessibleMarkdown.Markdown.Table

/-!
Reading the block structure of a document, line by line. Open containers stand on a spine; each
line goes through those it continues, may open new ones, and then starts a leaf, whose reader takes
the lines that belong to it.
-/

namespace AccessibleMarkdown.Markdown

/-- What a reader recognises beyond plain Markdown. -/
structure Options where
  tables : Bool := true
  deletion : Bool := true
  deriving DecidableEq, Repr, Inhabited

namespace BlockReader

/-- An open container with what it holds so far, the last first. -/
inductive Container
  | quote (blocks : List Block)
  | list (mark : Char) (start : Nat) (tight : Bool) (items : List (List Block))
  | item (indent : Nat) (blocks : List Block)

/-- Goes into a container, if the line continues it. Any line continues a list. -/
def Container.enter? (c : Cursor) : Container → Option Cursor
  | .quote _ => (c.skip 3).2.quoteMark?
  | .item indent _ =>
    let (taken, after) := c.skip indent
    if taken = indent ∨ after.atEnd then some after else none
  | .list _ _ _ _ => some c

/-- Goes into as many containers, the outermost first, as the line continues. -/
def enterAll (c : Cursor) : List Container → Nat × Cursor
  | [] => (0, c)
  | k :: rest =>
    match k.enter? c with
    | some c =>
      let (n, c) := enterAll c rest
      (n + 1, c)
    | none => (0, c)

structure State where
  /-- The open containers, the innermost first. -/
  spine : List Container := []
  /-- The blocks outside them, the last first. -/
  blocks : List Block := []
  /-- Is the innermost item empty so far? -/
  freshItem : Bool := false
  /-- Was the last line blank? -/
  afterBlank : Bool := false
  /-- The definitions found, the last first. -/
  definitions : Definitions := []

namespace State

def enter (st : State) (line : Line) : Nat × Cursor :=
  enterAll { rest := line.text } st.spine.reverse

def add (st : State) (b : Block) : State :=
  match st.spine with
  | .quote blocks :: outer => { st with spine := .quote (b :: blocks) :: outer }
  | .item indent blocks :: outer => { st with spine := .item indent (b :: blocks) :: outer }
  | .list mark start tight items :: outer =>
    { st with spine := .list mark start tight ([b] :: items) :: outer }
  | [] => { st with blocks := b :: st.blocks }

def push (st : State) (k : Container) : State := { st with spine := k :: st.spine }

def close (st : State) : State :=
  match st.spine with
  | [] => st
  | .quote blocks :: outer => { st with spine := outer }.add (.quote blocks.reverse)
  | .item _ blocks :: .list mark start tight items :: outer =>
    { st with spine := .list mark start tight (blocks.reverse :: items) :: outer }
  | .item _ blocks :: outer => blocks.reverse.foldl add { st with spine := outer }
  | .list mark start tight items :: outer =>
    { st with spine := outer, freshItem := st.freshItem && !tight }.add
      (.list (if ListMarker.isBullet mark then none else some start) tight items.reverse)

/-- Closes containers until `depth` are open; at most `fuel`. -/
def closeTo (depth : Nat) : Nat → State → State
  | 0, st => st
  | fuel + 1, st => if depth < st.spine.length then closeTo depth fuel st.close else st

/-- Closes an item that began with two blank lines. -/
def finishEmptyItem (st : State) : State :=
  let st :=
    match st.spine with
    | .item _ _ :: _ => if st.freshItem && st.afterBlank then st.close else st
    | _ => st
  { st with freshItem := false }

/-- A blank line between blocks of an item sets the list of the item loose. -/
def loosen (st : State) : State :=
  if st.afterBlank then
    match st.spine with
    | top :: .list mark start _ items :: outer =>
      { st with spine := top :: .list mark start false items :: outer, afterBlank := false }
    | _ => { st with afterBlank := false }
  else st

/-- Closes the list that the last item was in, before something that is no item. -/
def finishList (st : State) : State :=
  let st := st.finishEmptyItem
  match st.spine with
  | .list _ _ _ _ :: _ => st.close.loosen
  | _ => st.loosen

/-- Readies a list for an item: the innermost one if its marks are alike, else a new one. -/
def continueList (st : State) (m : ListMarker) : State :=
  let st := st.finishEmptyItem
  match st.spine with
  | .list mark start tight items :: outer =>
    if mark = m.mark then
      { st with
        spine := .list mark start (tight && !st.afterBlank) items :: outer
        afterBlank := false }
    else { st.finishList.push (.list m.mark m.number true []) with afterBlank := false }
  | [] => { st.push (.list m.mark m.number true []) with afterBlank := false }
  | _ => { st.finishList.push (.list m.mark m.number true []) with afterBlank := false }

/-- Takes note of a blank line. An item without content loses its indent: nothing goes into it. -/
def blank (st : State) : State :=
  match st.spine with
  | .quote _ :: _ => st
  | .item indent blocks :: outer =>
    { st with
      afterBlank := true
      spine := .item (if st.freshItem then 0 else indent) blocks :: outer }
  | _ => { st with afterBlank := true }

end State

/-- Opens the containers that a line starts, at most `fuel`. The cursor is none if the line ends
with the mark of an empty item. -/
def openContainers : Nat → State → Cursor → State × Option Cursor
  | 0, st, c => (st, some c)
  | fuel + 1, st, c =>
    let (indent, inner) := c.skip 4
    if indent = 4 then (st, some c)
    else
      match ListMarker.take? indent inner with
      | some (m, after) =>
        let st := (st.continueList m).push (.item m.indent [])
        if isBlankText after.rest then ({ st with freshItem := true }, none)
        else openContainers fuel st after
      | none =>
        match inner.quoteMark? with
        | some after => openContainers fuel (st.finishList.push (.quote [])) after
        | none => (st, some c)

/-! ## Lines that end a paragraph -/

/-- Does a line start a list item that may follow a paragraph? In the container of the paragraph an
ordered item has to start with 1, and an empty item may not stand before a blank line. -/
def listInterrupts (anyItem : Bool) (text : List Char) (rest : List Line) : Bool :=
  let digits := (text.take 9).takeWhile Char.isDigit
  let number := digits.foldl (fun n d => n * 10 + (d.toNat - 48)) 0
  let bullet := (text.head?.map ListMarker.isBullet).getD false
  match if bullet then text else text.drop digits.length with
  | mark :: after =>
    (bullet || mark == '.' || mark == ')') &&
      (after.head?.map fun c => c == ' ' || c == '\t').getD true &&
      (anyItem || (bullet || number == 1) &&
        !(isBlankText after && (rest.head?.map fun l => isBlankText l.text).getD true))
  | [] => false

/-- Does a line, in the container of a paragraph if `current`, start a block other than a table? -/
def startsBlock (current inTable : Bool) (text : List Char) (rest : List Line) : Bool :=
  text.isEmpty || isRule text || (headingMark? text).isSome || (Fence.open? 0 text).isSome ||
    text.head? == some '>' || listInterrupts (!current || inTable) text rest ||
    (Html.interruptingBlock? text).isSome

/-- The alignments of a table whose head is a line with these bars, from the line after it. -/
def tableHead? (st : State) (text : List Char) (found : Table.Bars) (rest : List Line) :
    Option (List Alignment) :=
  match rest with
  | next :: _ =>
    let (depth, c) := st.enter next
    if depth = st.spine.length then
      (Table.delimiterRow? c.rest).filter (·.length == Table.cellCount text found)
    else none
  | [] => none

/-- Does a line end the paragraph before it? -/
def interrupts (o : Options) (st : State) (current : Bool) (text : List Char)
    (rest : List Line) : Bool :=
  startsBlock current false text rest ||
    (o.tables && current &&
      (tableHead? st text (Table.bareBars { tail := text.tail } false text) rest).isSome)

/-! ## Leaves -/

/-- The lines after the first of a paragraph, each after the break before it, the level that an
underline gives, and the lines left. `ending` is the break of the line before. -/
def paragraphRest (o : Options) (st : State) (ending : List Char) : List Line →
    List Char × Option Nat × List Line
  | [] => ([], none, [])
  | line :: rest =>
    let (depth, c) := st.enter line
    let current := depth == st.spine.length
    let (indent, inner) := c.skip 4
    let level := if current && indent != 4 then underline? inner.rest else none
    if level.isSome then ([], level, rest)
    else if (indent != 4 && interrupts o st current inner.rest rest) ||
      (dropIndent inner.rest).isEmpty then
      ([], none, line :: rest)
    else
      let (text, level, left) := paragraphRest o st line.ending rest
      (ending ++ c.rest ++ text, level, left)

/-- The lines that may belong to a link definition, each after a line feed. -/
def definitionRest (o : Options) (st : State) : List Line → List Char
  | [] => []
  | line :: rest =>
    let (depth, c) := st.enter line
    let current := depth == st.spine.length
    let (indent, inner) := c.skip 4
    if (indent != 4 &&
        (interrupts o st current inner.rest rest || current && (underline? inner.rest).isSome)) ||
        (dropIndent inner.rest).isEmpty then []
    else '\n' :: c.rest ++ definitionRest o st rest

/-- Takes a definition, and gives the lines left. -/
def definition? (o : Options) (st : State) (text : List Char) (rest : List Line) :
    Option ((List Char × LinkTarget) × List Line) :=
  if text.head? == some '[' then
    let whole := text ++ definitionRest o st rest
    (Definition.take? whole).map fun (d, after) =>
      (d, rest.drop ((whole.take (whole.length - after.length)).count '\n'))
  else none

def tableRows (st : State) (width : Nat) : List Line → List (List (List Char)) × List Line
  | [] => ([], [])
  | line :: rest =>
    let (depth, c) := st.enter line
    let text := dropIndent c.rest
    if depth < st.spine.length ∨ startsBlock true true text rest then ([], line :: rest)
    else
      match Table.row? width text with
      | none => ([], line :: rest)
      | some row =>
        let (rows, left) := tableRows st width rest
        (row :: rows, left)

/-- The table whose head is the first line of a paragraph, and the lines left. -/
def table? (o : Options) (st : State) (text : List Char) (rest : List Line) :
    Option (Block × List Line) := do
  guard o.tables
  let found := Table.bars { tail := text } text
  guard (0 < found.count)
  let alignments ← tableHead? st text found rest
  let head ← Table.row? alignments.length text
  let (rows, left) := tableRows st alignments.length rest.tail
  return (.table alignments head rows, left)

/-- The break of a line of code: a line feed, whatever the file uses for it. -/
def codeEnding (ending : List Char) : List Char := if ending = ['\r', '\n'] then ['\n'] else ending

def codeLine (c : Cursor) (ending : List Char) : List Char :=
  List.replicate c.spare ' ' ++ c.rest ++ codeEnding ending

def fencedRest (st : State) (f : Fence) : List Line → List Char × List Line
  | [] => ([], [])
  | line :: rest =>
    let (depth, c) := st.enter line
    if depth < st.spine.length then ([], line :: rest)
    else
      let (_, c) := c.skip f.indent
      let (taken, inner) := c.skip (4 - f.indent)
      if taken < 4 - f.indent ∧ (f.closes inner.rest ∨ inner.atEnd ∧ line.ending.isEmpty) then
        ([], rest)
      else
        let (text, left) := fencedRest st f rest
        (codeLine c line.ending ++ text, left)

/-- The lines of an indented code block after its first, the lines left, and whether the last line
was blank. Blank lines, in `held`, count only if more code follows. -/
def indentedRest (st : State) (held : List Char) (blank : Bool) :
    List Line → List Char × List Line × Bool
  | [] => ([], [], blank)
  | line :: rest =>
    let (depth, c) := st.enter line
    let (taken, inner) := c.skip 4
    if depth < st.spine.length ∨ ¬(taken = 4 ∨ inner.atEnd) ∨ inner.atEnd ∧ line.ending.isEmpty then
      ([], line :: rest, blank)
    else
      let text := codeLine inner line.ending
      if isBlankText inner.rest then indentedRest st (held ++ text) true rest
      else
        let (more, left, blank) := indentedRest st [] false rest
        (held ++ text ++ more, left, blank)

/-- The lines left after a block of HTML that ends with the line that holds `mark`; `text` is the
line before. -/
def markedHtmlRest (st : State) (mark text : List Char) : List Line → List Line
  | [] => []
  | line :: rest =>
    let (depth, c) := st.enter line
    if depth < st.spine.length ∨ (Html.afterFirst? mark text).isSome then line :: rest
    else markedHtmlRest st mark c.rest rest

/-- The lines left after a block of HTML that ends before a blank line. -/
def htmlRest (st : State) : List Line → List Line
  | [] => []
  | line :: rest =>
    let (depth, c) := st.enter line
    if depth < st.spine.length ∨ c.atEnd then line :: rest
    else if isBlankText c.rest then { line with text := c.rest } :: rest
    else htmlRest st rest

def htmlLeft (st : State) (text : List Char) (rest : List Line) : Html.BlockEnd → List Line
  | .withMark mark => markedHtmlRest st mark text rest
  | .beforeBlank => htmlRest st rest

def readParagraph (o : Options) (st : State) (text ending : List Char) (rest : List Line) :
    State × List Line :=
  match table? o st text rest with
  | some (block, left) => (st.add block, left)
  | none =>
    let (more, level, left) := paragraphRest o st ending rest
    let content := Text.dropEndWhile isLineSpace (text ++ more)
    match level with
    | some level => (st.add (.heading level content), left)
    | none => (st.add (.paragraph content), left)

/-- Reads the leaf that a line starts; its text is indented by `indent` columns, fewer than four. -/
def readLeaf (o : Options) (st : State) (indent : Nat) (text ending : List Char)
    (rest : List Line) : State × List Line :=
  match Html.block? text with
  | some blockEnd =>
    let st := st.finishList
    (st.add .html, htmlLeft st text rest blockEnd)
  | none =>
    if isRule text then (st.finishList.add .rule, rest)
    else
      match headingMark? text with
      | some (level, after) => (st.finishList.add (.heading level (headingContent after)), rest)
      | none =>
        match Fence.open? indent text with
        | some (f, info) =>
          let st := st.finishList
          let (content, left) := fencedRest st f rest
          let info := Text.dropEndWhile isAsciiSpace (info.dropWhile isLineSpace)
          (st.add (.code (some (unescaped false info)) content), left)
        | none =>
          match definition? o st text rest with
          | some (d, left) => ({ st with definitions := d :: st.definitions }, left)
          | none => readParagraph o st.finishList text ending rest

/-- Reads a line, and the lines after it that belong to the same leaf. -/
def readLine (o : Options) (st : State) (line : Line) (rest : List Line) : State × List Line :=
  let (depth, c) := st.enter line
  match openContainers (line.text.length + 1) (State.closeTo depth st.spine.length st) c with
  | (st, none) => (st, rest)
  | (st, some c) =>
    if isBlankText c.rest then (st.blank, rest)
    else
      let (indent, inner) := c.skip 4
      if indent = 4 then
        let st := st.finishList
        let (more, left, blank) := indentedRest st [] false rest
        ({ st with afterBlank := blank }.add (.code none (codeLine inner line.ending ++ more)),
          left)
      else readLeaf o st indent inner.rest line.ending rest

/-- Reads lines, at most `fuel` leaves. -/
def readLines (o : Options) : Nat → State → List Line → State
  | 0, st, _ => st
  | _, st, [] => st
  | fuel + 1, st, line :: rest =>
    let (st, left) := readLine o st line rest
    readLines o fuel st left

end BlockReader

def Document.ofText (o : Options) (text : List Char) : Document :=
  let lines := Line.split text
  let st := BlockReader.readLines o lines.length {} lines
  let st := BlockReader.State.closeTo 0 st.spine.length st
  { blocks := st.blocks.reverse, definitions := st.definitions.reverse }

end AccessibleMarkdown.Markdown
