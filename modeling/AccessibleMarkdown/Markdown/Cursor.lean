import AccessibleMarkdown.Text.Blank

/-!
Lines of a document, and cursors that read the start of a line by columns: a tab goes to the next
column that is a multiple of four, and may be taken in part.
-/

namespace AccessibleMarkdown.Markdown

structure Line where
  text : List Char
  ending : List Char := []
  deriving DecidableEq, Repr

namespace Line

def consFirst (c : Char) : List Line → List Line
  | [] => [{ text := [c] }]
  | line :: rest => { line with text := c :: line.text } :: rest

/-- Cuts a text into lines, after each line feed, carriage return, or both. -/
def split : List Char → List Line
  | [] => []
  | '\n' :: rest => { text := [], ending := ['\n'] } :: split rest
  | '\r' :: '\n' :: rest => { text := [], ending := ['\r', '\n'] } :: split rest
  | '\r' :: rest => { text := [], ending := ['\r'] } :: split rest
  | c :: rest => consFirst c (split rest)

end Line

/-- The white space that Markdown knows inside a line. -/
def isLineSpace (c : Char) : Bool := c == ' ' || c == '\t' || c == '\x0b' || c == '\x0c'

def isLineEnd (c : Char) : Bool := c == '\n' || c == '\r'

def isAsciiSpace (c : Char) : Bool := isLineSpace c || isLineEnd c

def isBlankText (text : List Char) : Bool := text.all isLineSpace

def dropIndent (text : List Char) : List Char := text.dropWhile fun c => c == ' ' || c == '\t'

/-- What is left of a line. -/
structure Cursor where
  rest : List Char
  /-- Columns since the last tab, or since the start of the line. -/
  column : Nat := 0
  /-- Columns left of a tab that was taken in part. -/
  spare : Nat := 0
  deriving DecidableEq, Repr

namespace Cursor

/-- Takes up to `n` columns of spaces and tabs from `rest`; the first result is how many are
missing. -/
def takeColumns : List Char → Nat → Nat → Nat → Nat × Cursor
  | rest, column, spare, 0 => (0, ⟨rest, column, spare⟩)
  | ' ' :: rest, column, spare, n + 1 => takeColumns rest (column + 1) spare n
  | '\t' :: rest, column, _, n + 1 =>
    let width := 4 - column % 4
    takeColumns rest 0 (width - (n + 1)) (n + 1 - width)
  | rest, column, spare, n => (n, ⟨rest, column, spare⟩)

/-- Takes up to `n` columns of white space; the first result is how many were taken. -/
def skip (c : Cursor) (n : Nat) : Nat × Cursor :=
  let fromSpare := min c.spare n
  let (missing, after) := takeColumns c.rest c.column (c.spare - fromSpare) (n - fromSpare)
  (n - missing, after)

def skip? (c : Cursor) (n : Nat) : Option Cursor :=
  match c.skip n with
  | (taken, after) => if taken = n then some after else none

def atEnd (c : Cursor) : Bool := c.rest.isEmpty

/-- Takes one character that is no white space. -/
def take? (c : Cursor) (p : Char → Bool) : Option (Char × Cursor) :=
  match c.rest with
  | ch :: rest => if p ch then some (ch, { c with rest, column := c.column + 1 }) else none
  | [] => none

end Cursor

end AccessibleMarkdown.Markdown
