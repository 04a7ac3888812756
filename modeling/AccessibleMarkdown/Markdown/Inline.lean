import AccessibleMarkdown.Markdown.Event

/-! The inline structure of a text. -/

namespace AccessibleMarkdown.Markdown

inductive Inline
  | text (text : List Char)
  | code (text : List Char)
  | softBreak
  | hardBreak
  | html
  | emphasis (content : List Inline)
  | strong (content : List Inline)
  | link (dest title : String) (content : List Inline)
  | image (dest title : String) (content : List Inline)

mutual

def Inline.events : Inline → List Event
  | .text text => [.text (String.ofList text)]
  | .code text => [.code (String.ofList text)]
  | .softBreak => [.softBreak]
  | .hardBreak => [.hardBreak]
  | .html => []
  | .emphasis content => .start .emphasis :: inlineEvents content ++ [.stop .emphasis]
  | .strong content => .start .strong :: inlineEvents content ++ [.stop .strong]
  | .link dest title content => .start (.link dest title) :: inlineEvents content ++ [.stop .link]
  | .image dest title content =>
    .start (.image dest title) :: inlineEvents content ++ [.stop .image]

def inlineEvents : List Inline → List Event
  | [] => []
  | i :: rest => i.events ++ inlineEvents rest

end

end AccessibleMarkdown.Markdown
