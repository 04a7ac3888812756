import AccessibleMarkdown.Markdown.Inline
import AccessibleMarkdown.Text.Blank
import AccessibleMarkdown.Text.Punctuation

/-!
Emphasis: runs of `*` and `_` that open and close it. A run that closes is matched with the nearest
run before it that opens; runs in between are text.
-/

namespace AccessibleMarkdown.Markdown

structure DelimiterRun where
  mark : Char
  count : Nat
  opens : Bool
  closes : Bool
  deriving DecidableEq, Repr

namespace DelimiterRun

/-- A run between two characters; none stands for the edge of a text. A run of `*` may open or close
inside a word, a run of `_` may not. -/
def between (before : Option Char) (mark : Char) (count : Nat) (after : Option Char) :
    DelimiterRun :=
  let blank (c : Option Char) : Bool := (c.map Text.isBlank).getD true
  let punctuation (c : Option Char) : Bool := (c.map Text.isPunctuation).getD false
  { mark, count
    opens := !blank after &&
      (mark == '*' && !punctuation after || blank before || punctuation before)
    closes := !blank before &&
      (mark == '*' && !punctuation before || blank after || punctuation after) }

/-- May `closer` close what `opener` opens, as far as their marks and lengths go? -/
def fits (opener closer : DelimiterRun) : Bool :=
  opener.mark == closer.mark &&
    (!(opener.opens && opener.closes) && !(closer.opens && closer.closes) ||
      (opener.count + closer.count) % 3 != 0 || closer.count % 3 == 0)

end DelimiterRun

/-- Inlines, with runs that are still to be matched. -/
inductive Piece
  | inline (i : Inline)
  | run (r : DelimiterRun)

namespace Emphasis

/-- An open run: how many of its marks are left, and the inlines after it, the last first. -/
structure OpenRun where
  run : DelimiterRun
  left : Nat
  content : List Inline

/-- The open runs, the innermost first, and the inlines before them, the last first. -/
structure Stack where
  runs : List OpenRun := []
  base : List Inline := []

namespace Stack

def marks (mark : Char) (count : Nat) : Inline := .text (List.replicate count mark)

def put (s : Stack) (inlines : List Inline) : Stack :=
  match s.runs with
  | top :: rest => { s with runs := { top with content := inlines ++ top.content } :: rest }
  | [] => { s with base := inlines ++ s.base }

/-- Turns the innermost open run into text. -/
def giveUp (s : Stack) : Stack :=
  match s.runs with
  | top :: rest => { s with runs := rest }.put (top.content ++ [marks top.run.mark top.left])
  | [] => s

def giveUpMany : Nat → Stack → Stack
  | 0, s => s
  | n + 1, s => giveUpMany n s.giveUp

def wrapStrong : Nat → List Inline → List Inline
  | 0, inner => inner
  | n + 1, inner => wrapStrong n [.strong inner]

/-- Wraps inlines in `count` marks on either side: pairs of marks are strong and inside, and one
that is left over is emphasis. -/
def wrap (count : Nat) (content : List Inline) : List Inline :=
  let inner := wrapStrong (count / 2) content
  if count % 2 = 1 then [.emphasis inner] else inner

/-- Matches the innermost open run with `count` marks of a closer. -/
def matchTop (s : Stack) (count : Nat) : Stack :=
  match s.runs with
  | top :: rest =>
    let used := min count top.left
    let node := wrap used top.content.reverse
    if used < top.left then
      { s with runs := { top with left := top.left - used, content := node } :: rest }
    else { s with runs := rest }.put node
  | [] => s

/-- Closes as much as `count` marks of a run can, at most `fuel` times; the marks left are
returned. -/
def close (r : DelimiterRun) : Nat → Nat → Stack → Nat × Stack
  | 0, count, s => (count, s)
  | fuel + 1, count, s =>
    if count = 0 then (0, s)
    else
      match s.runs.findIdx? (·.run.fits r) with
      | none => (count, s)
      | some skipped =>
        let s := giveUpMany skipped s
        let used := min count ((s.runs.head?.map (·.left)).getD 0)
        close r fuel (count - used) (s.matchTop count)

def addRun (s : Stack) (r : DelimiterRun) : Stack :=
  let (left, s) := if r.closes then close r r.count r.count s else (r.count, s)
  if left = 0 then s
  else if r.opens then { s with runs := ⟨r, left, []⟩ :: s.runs }
  else s.put [marks r.mark left]

def add (s : Stack) : Piece → Stack
  | .inline i => s.put [i]
  | .run r => s.addRun r

end Stack

def resolve (pieces : List Piece) : List Inline :=
  let s := pieces.foldl Stack.add {}
  (Stack.giveUpMany s.runs.length s).base.reverse

end Emphasis

end AccessibleMarkdown.Markdown
