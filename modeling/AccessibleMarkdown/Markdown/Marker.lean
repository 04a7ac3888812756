import AccessibleMarkdown.Markdown.Cursor

/-! The marks at the start of a line that open or close blocks. -/

namespace AccessibleMarkdown.Markdown

def runLength (c : Char) (text : List Char) : Nat := (text.takeWhile (· == c)).length

/-! ## Containers -/

/-- Takes a block quote mark and a space after it. -/
def Cursor.quoteMark? (c : Cursor) : Option Cursor :=
  (c.take? (· == '>')).map fun (_, after) => (after.skip 1).2

/-- A thematic break: three or more of one of `*`, `-`, `_`, with white space between them. -/
def isRule (text : List Char) : Bool :=
  match text with
  | c :: _ =>
    (c == '*' || c == '-' || c == '_') && text.all (fun ch => ch == c || ch == ' ' || ch == '\t') &&
      3 ≤ text.count c
  | [] => false

structure ListMarker where
  /-- A bullet, or what ends the number: `.` or `)`. -/
  mark : Char
  /-- The number of an ordered item, 0 for a bullet. -/
  number : Nat
  /-- The columns that the content of the item is indented by. -/
  indent : Nat
  deriving DecidableEq, Repr

namespace ListMarker

def isBullet (c : Char) : Bool := c == '*' || c == '-' || c == '+'

/-- The indent of an item whose mark ends at column `base`: up to three more spaces belong to the
mark, and four start an indented code block. -/
def withContent (mark : Char) (number base : Nat) (c : Cursor) : ListMarker × Cursor :=
  if isBlankText c.rest then (⟨mark, number, base⟩, c)
  else
    match c.skip 4 with
    | (4, _) => (⟨mark, number, base⟩, c)
    | (more, after) => (⟨mark, number, base + more⟩, after)

/-- Requires a space or the end of the line, and takes the space. -/
def gap? (c : Cursor) : Option Cursor :=
  match c.skip? 1 with
  | some after => some after
  | none => if c.atEnd then some c else none

/-- Takes a list marker that is indented by `indent` columns. -/
def take? (indent : Nat) (c : Cursor) : Option (ListMarker × Cursor) :=
  match c.rest with
  | ch :: rest =>
    if isBullet ch then
      if isRule c.rest then none
      else (gap? { c with rest, column := c.column + 1 }).map (withContent ch 0 (indent + 2))
    else
      let digits := c.rest.takeWhile Char.isDigit
      match c.rest.drop digits.length with
      | mark :: after =>
        if digits.isEmpty || 9 < digits.length || !(mark == '.' || mark == ')') then none
        else
          let width := digits.length + 1
          (gap? { c with rest := after, column := c.column + width }).map
            (withContent mark (digits.foldl (fun n d => n * 10 + (d.toNat - 48)) 0)
              (indent + 1 + width))
      | [] => none
  | [] => none

end ListMarker

/-! ## Leaves -/

/-- The level of an ATX heading, and the text after its mark. -/
def headingMark? (text : List Char) : Option (Nat × List Char) :=
  let level := runLength '#' text
  let after := text.drop level
  if 1 ≤ level ∧ level ≤ 6 ∧ (after.head?.map isLineSpace).getD true then some (level, after)
  else none

/-- The content of an ATX heading: white space before it and a closing run of `#` after it go. -/
def headingContent (text : List Char) : List Char :=
  let content := Text.dropEndWhile (· == ' ') (text.dropWhile isLineSpace)
  let body := Text.dropEndWhile (· == '#') content
  if body.isEmpty then []
  else if body.getLast? == some ' ' then Text.dropEndWhile (· == ' ') body
  else content

def underline? (text : List Char) : Option Nat :=
  match text with
  | c :: _ =>
    if (c == '=' || c == '-') && isBlankText (text.dropWhile (· == c)) then
      some (if c == '=' then 1 else 2)
    else none
  | [] => none

structure Fence where
  mark : Char
  length : Nat
  /-- The columns that the fence, and so the content, is indented by. -/
  indent : Nat
  deriving DecidableEq, Repr

def tick : Char := '\x60'

def Fence.open? (indent : Nat) (text : List Char) : Option (Fence × List Char) :=
  match text with
  | c :: _ =>
    let length := runLength c text
    let info := text.drop length
    if (c == tick || c == '~') && 3 ≤ length && !(c == tick && info.contains tick) then
      some (⟨c, length, indent⟩, info)
    else none
  | [] => none

/-- Does a line, whose indent is taken, close the block? -/
def Fence.closes (f : Fence) (text : List Char) : Bool :=
  f.length ≤ runLength f.mark text && (text.drop (runLength f.mark text)).all (· == ' ')

end AccessibleMarkdown.Markdown
