import AccessibleMarkdown.Text.CharSet

/-! Writing JSON, in one line without blanks or over several lines with an indent of two. -/

namespace AccessibleMarkdown

inductive Json
  | null
  | str (text : String)
  | arr (items : List Json)
  | obj (fields : List (String × Json))

namespace Json

/-- The written form of a character: quote, backslash and the controls below U+0020 are escaped. -/
def escape (c : Char) : List Char :=
  match c with
  | '"' => ['\\', '"']
  | '\\' => ['\\', '\\']
  | '\x08' => ['\\', 'b']
  | '\t' => ['\\', 't']
  | '\n' => ['\\', 'n']
  | '\x0c' => ['\\', 'f']
  | '\r' => ['\\', 'r']
  | c =>
    if c.toNat < 0x20 then
      ['\\', 'u', '0', '0', Nat.digitChar (c.toNat / 16), Nat.digitChar (c.toNat % 16)]
    else [c]

def quote (text : String) : String := "\"" ++ String.ofList (text.toList.flatMap escape) ++ "\""

mutual

def compact : Json → String
  | null => "null"
  | str text => quote text
  | arr items => "[" ++ ",".intercalate (compactItems items) ++ "]"
  | obj fields => "\x7b" ++ ",".intercalate (compactFields fields) ++ "\x7d"

def compactItems : List Json → List String
  | [] => []
  | item :: rest => compact item :: compactItems rest

def compactFields : List (String × Json) → List String
  | [] => []
  | (name, value) :: rest => (quote name ++ ":" ++ compact value) :: compactFields rest

end

/-- A bracketed list with an item a line; an empty one stays on its line. -/
def block (opening closing : String) (depth : Nat) (items : List String) : String :=
  let margin := "\n" ++ String.ofList (List.replicate (2 * depth) ' ')
  if items.isEmpty then opening ++ closing
  else opening ++ ",".intercalate (items.map fun item => margin ++ "  " ++ item) ++
    margin ++ closing

mutual

/-- The text over several lines; `depth` is the depth of the line it starts on. -/
def prettyAt (depth : Nat) : Json → String
  | null => "null"
  | str text => quote text
  | arr items => block "[" "]" depth (prettyItems (depth + 1) items)
  | obj fields => block "\x7b" "\x7d" depth (prettyFields (depth + 1) fields)

def prettyItems (depth : Nat) : List Json → List String
  | [] => []
  | item :: rest => prettyAt depth item :: prettyItems depth rest

def prettyFields (depth : Nat) : List (String × Json) → List String
  | [] => []
  | (name, value) :: rest => (quote name ++ ": " ++ prettyAt depth value) :: prettyFields depth rest

end

def pretty (j : Json) : String := prettyAt 0 j

end Json

end AccessibleMarkdown
