import AccessibleMarkdown.Markdown.Destination
import AccessibleMarkdown.Text.CaseFold

/-! Link labels, and the definitions that give a label its destination and title. -/

namespace AccessibleMarkdown.Markdown

structure LinkTarget where
  dest : String
  title : String
  deriving DecidableEq, Repr

/-- The form in which labels are compared. -/
def labelKey (label : List Char) : List Char := Text.caseFold (Text.trim label)

/-- Takes the characters of white space at the start of a text, if it has at most one line break. -/
def labelGap? (text : List Char) : Option (List Char) :=
  let rest := skipGap text
  if (rest.head?.map isLineEnd).getD false then none else some rest

/-- Takes a label after its `[`, up to its `]`, at most `fuel` steps. White space in it counts as
one space; `taken` is in reverse. -/
def labelRest? (taken : List Char) : Nat → List Char → Option (List Char × List Char)
  | 0, _ => none
  | fuel + 1, text =>
    match text with
    | [] => none
    | ']' :: rest => if taken.all (· == ' ') then none else some (taken.reverse, rest)
    | '[' :: _ => none
    | ['\\'] => none
    | '\\' :: c :: rest => labelRest? (c :: '\\' :: taken) fuel rest
    | c :: rest =>
      if isAsciiSpace c then (labelGap? text).bind fun after => labelRest? (' ' :: taken) fuel after
      else labelRest? (c :: taken) fuel rest

/-- Takes a label in brackets; the label is in the form in which it is compared. -/
def label? (text : List Char) : Option (List Char × List Char) :=
  match text with
  | '[' :: rest => (labelRest? [] (rest.length + 1) rest).map fun (l, after) => (labelKey l, after)
  | _ => none

/-- The definitions of a document, the first of them first. -/
abbrev Definitions := List (List Char × LinkTarget)

def Definitions.find? (ds : Definitions) (key : List Char) : Option LinkTarget :=
  (List.find? (fun d => d.1 == key) ds).map (·.2)

namespace Definition

/-- Takes white space up to a character that is none; there may be one line break, and it counts. -/
def gap? (text : List Char) : Option (Nat × List Char) :=
  match text.dropWhile isLineSpace with
  | [] => none
  | '\n' :: rest =>
    match rest.dropWhile isLineSpace with
    | [] => none
    | c :: after => if c == '\n' then none else some (1, c :: after)
  | rest => some (0, rest)

/-- The rest of a title as it is written, up to `close`. -/
def titleRest? (close : Char) (taken : List Char) : List Char → Option (List Char × List Char)
  | [] => none
  | '\\' :: c :: rest => titleRest? close (c :: '\\' :: taken) rest
  | c :: rest =>
    if c == close then some (taken.reverse, rest) else titleRest? close (c :: taken) rest

/-- Takes a title after which the line is blank. -/
def title? (text : List Char) : Option (String × List Char) :=
  match text with
  | c :: rest =>
    (titleClose? c).bind fun close =>
      (titleRest? close [] rest).bind fun (title, after) =>
        if isBlankText (after.takeWhile (· != '\n')) then some (unescaped false title, after)
        else none
  | [] => none

/-- Takes a definition `[label]: destination "title"`, and gives what follows it, which is the end
of a line. Lines are separated by line feeds. A title that does not fit is left out if it is on a
line of its own. -/
def take? (text : List Char) : Option ((List Char × LinkTarget) × List Char) :=
  match label? text with
  | some (key, ':' :: rest) =>
    (gap? rest).bind fun (_, rest) =>
      (destination? 1 rest).bind fun (dest, after) =>
        let found (title : String) := (key, { dest := unescaped false dest, title : LinkTarget })
        if after.length = rest.length then none
        else
          match gap? after with
          | none => some (found "", after)
          | some (breaks, next) =>
            match if breaks = 0 ∧ next.length = after.length then none else title? next with
            | some (title, rest) => some (found title, rest)
            | none => if breaks = 0 then none else some (found "", after)
  | _ => none

end Definition

end AccessibleMarkdown.Markdown
