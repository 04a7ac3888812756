import AccessibleMarkdown.Markdown.Event
import AccessibleMarkdown.Markdown.Reference

/-! The block structure of a document. Leaves hold text that is still to be read for inlines. -/

namespace AccessibleMarkdown.Markdown

inductive Block
  | paragraph (text : List Char)
  | heading (level : Nat) (text : List Char)
  | quote (blocks : List Block)
  /-- The first number of an ordered list, whether its items are set tight, and the items. -/
  | list (start : Option Nat) (tight : Bool) (items : List (List Block))
  | code (info : Option String) (text : List Char)
  | html
  | rule
  | table (alignments : List Alignment) (head : List (List Char)) (rows : List (List (List Char)))

structure Document where
  blocks : List Block
  definitions : Definitions

end AccessibleMarkdown.Markdown
