import AccessibleMarkdown.Markdown.Cursor
import AccessibleMarkdown.Markdown.Event
import AccessibleMarkdown.Text.Punctuation

/-! Pipe tables: the row of hyphens that makes a table, and the cells of a row. -/

namespace AccessibleMarkdown.Markdown.Table

/-! ## The delimiter row -/

structure Column where
  align : Alignment := .none
  fresh : Bool := true
  hyphen : Bool := false

def Column.colon (c : Column) : Column :=
  let align :=
    match c.fresh, c.align with
    | true, .none => .left
    | false, .left => .center
    | false, .none => .right
    | _, align => align
  { c with align, fresh := false }

/-- The alignments of the columns; every column that a bar ends has a hyphen. The last result says
whether there were bars and hyphens. -/
def columns? (col : Column) (bar hyphen : Bool) : List Char → Option (List Alignment × Bool)
  | [] => some (if col.fresh then [] else [col.align], bar && hyphen)
  | ' ' :: rest => columns? col bar hyphen rest
  | ':' :: rest => columns? col.colon bar hyphen rest
  | '-' :: rest => columns? { col with fresh := false, hyphen := true } bar true rest
  | '|' :: rest =>
    if col.hyphen then (columns? {} true hyphen rest).map fun (cols, ok) => (col.align :: cols, ok)
    else none
  | _ => none

def delimiterRow? (text : List Char) : Option (List Alignment) :=
  let body := text.dropWhile (· == ' ')
  if 3 < text.length - body.length then none
  else
    match
      match body with
      | '|' :: rest => columns? {} true false rest
      | _ => columns? {} false false body
    with
    | some (cols, true) => some cols
    | _ => none

/-! ## Rows -/

/-- The bars of a row: how many, and what follows the last of them. -/
structure Bars where
  count : Nat := 0
  tail : List Char

/-- The bars that no backslash escapes; backslashes escape each other. -/
def bars (found : Bars) : List Char → Bars
  | '\\' :: c :: rest =>
    if Text.isAsciiPunctuation c then bars found rest else bars found (c :: rest)
  | '|' :: rest => bars ⟨found.count + 1, rest⟩ rest
  | _ :: rest => bars found rest
  | [] => found

/-- The bars that do not follow a backslash. -/
def bareBars (found : Bars) (escaped : Bool) : List Char → Bars
  | c :: rest =>
    if c == '|' && !escaped then bareBars ⟨found.count + 1, rest⟩ false rest
    else bareBars found (c == '\\') rest
  | [] => found

/-- The number of cells between bars, of which the first and the last may stand at the ends. -/
def cellCount (text : List Char) (found : Bars) : Nat :=
  let inner :=
    if (text.dropWhile isLineSpace).head? == some '|' then found.count - 1 else found.count
  if isBlankText found.tail then inner else inner + 1

/-- The text up to the next bar that ends a cell; `taken` is in reverse. -/
def cell (taken : List Char) : List Char → List Char × List Char
  | '\\' :: '\\' :: '|' :: rest => cell ('|' :: '\\' :: '\\' :: taken) rest
  | '\\' :: c :: rest =>
    if Text.isAsciiPunctuation c then cell (c :: '\\' :: taken) rest
    else cell ('\\' :: taken) (c :: rest)
  | '|' :: rest => (taken.reverse, '|' :: rest)
  | c :: rest => cell (c :: taken) rest
  | [] => (taken.reverse, [])

/-- The cells of a row, at most `fuel` of them, without the white space around them. -/
def cells : Nat → List Char → List (List Char)
  | 0, _ => []
  | fuel + 1, text =>
    let inner := (if text.head? == some '|' then text.tail else text).dropWhile isLineSpace
    if inner.isEmpty then []
    else
      let (content, rest) := cell [] inner
      Text.dropEndWhile isLineSpace content :: cells fuel rest

/-- The cells of a row of `width` columns, missing ones empty. A row without any cells is none. -/
def row? (width : Nat) (text : List Char) : Option (List (List Char)) :=
  let found := cells (text.length + 1) text
  if found.isEmpty then none
  else some (found.take width ++ List.replicate (width - found.length) [])

end AccessibleMarkdown.Markdown.Table
