import AccessibleMarkdown.Markdown.Cursor
import AccessibleMarkdown.Markdown.Entity
import AccessibleMarkdown.Text.Punctuation

/-! Destinations and titles of links. -/

namespace AccessibleMarkdown.Markdown

/-- Resolves backslash escapes and character references, at most `fuel` of them. Carriage returns
go. In tables a bar may be escaped twice. -/
def unescape (inTable : Bool) : Nat → List Char → List Char
  | 0, text => text
  | fuel + 1, text =>
    match text with
    | [] => []
    | '\\' :: rest =>
      match rest with
      | '\\' :: '|' :: after =>
        if inTable then '|' :: unescape inTable fuel after
        else '\\' :: unescape inTable fuel ('|' :: after)
      | c :: after =>
        if Text.isAsciiPunctuation c then c :: unescape inTable fuel after
        else '\\' :: unescape inTable fuel rest
      | [] => ['\\']
    | '&' :: rest =>
      match entity? rest with
      | some (chars, after) => chars ++ unescape inTable fuel after
      | none => '&' :: unescape inTable fuel rest
    | '\r' :: rest => unescape inTable fuel rest
    | c :: rest => c :: unescape inTable fuel rest

def unescaped (inTable : Bool) (text : List Char) : String :=
  String.ofList (unescape inTable text.length text)

/-- Takes a destination after its `<`, up to its `>`; `taken` is in reverse. -/
def pointyDestination? (taken : List Char) : List Char → Option (List Char × List Char)
  | [] => none
  | '>' :: rest => some (taken.reverse, rest)
  | '\\' :: c :: rest =>
    if Text.isAsciiPunctuation c then pointyDestination? (c :: '\\' :: taken) rest
    else pointyDestination? ('\\' :: taken) (c :: rest)
  | c :: rest => if c == '<' || isLineEnd c then none else pointyDestination? (c :: taken) rest

/-- Takes a destination without brackets: up to white space, a control, or a `)` that closes
nothing. Parentheses nest to `limit + 1`; `nest` are open. -/
def bareDestination? (limit nest : Nat) (taken : List Char) :
    List Char → Option (List Char × List Char)
  | [] => if nest = 0 then some (taken.reverse, []) else none
  | '\\' :: c :: rest =>
    if Text.isAsciiPunctuation c then bareDestination? limit nest (c :: '\\' :: taken) rest
    else bareDestination? limit nest ('\\' :: taken) (c :: rest)
  | c :: rest =>
    if c.toNat ≤ 0x20 then if nest = 0 then some (taken.reverse, c :: rest) else none
    else if c == '(' then
      if limit < nest then none else bareDestination? limit (nest + 1) (c :: taken) rest
    else if c == ')' then
      match nest with
      | 0 => some (taken.reverse, c :: rest)
      | n + 1 => bareDestination? limit n (c :: taken) rest
    else bareDestination? limit nest (c :: taken) rest

/-- Takes a destination as it is written, and gives what follows it. -/
def destination? (limit : Nat) (text : List Char) : Option (List Char × List Char) :=
  match text with
  | '<' :: rest => pointyDestination? [] rest
  | _ => bareDestination? limit 0 [] text

/-- The mark that closes what `c` opens, if that can be a title. -/
def titleClose? (c : Char) : Option Char :=
  if c == '"' || c == '\'' then some c
  else if c == '(' then some ')'
  else none

/-- Takes white space with at most one line break in it. -/
def skipGap (text : List Char) : List Char :=
  let rest := text.dropWhile isLineSpace
  let rest :=
    match rest with
    | '\r' :: '\n' :: after => after
    | '\n' :: after => after
    | '\r' :: after => after
    | _ => rest
  rest.dropWhile isLineSpace

/-- The rest of a title up to `close`, resolved, and what follows; at most `fuel` characters. A line
break is kept, the indent after it is not. -/
def titleRest? (inTable : Bool) (opening close : Char) (taken : List Char) : Nat → List Char →
    Option (List Char × List Char)
  | 0, _ => none
  | fuel + 1, text =>
    match text with
    | [] => none
    | c :: rest =>
      let put (chars : List Char) (after : List Char) :=
        titleRest? inTable opening close (chars.reverse ++ taken) fuel after
      if c == close then some (taken.reverse, rest)
      else if c == opening then none
      else
        match c, rest with
        | '\r', '\n' :: after => put ['\r', '\n'] (dropIndent after)
        | '\r', _ | '\n', _ => put ['\n'] (dropIndent rest)
        | '&', _ =>
          match entity? rest with
          | some (chars, after) => put chars after
          | none => put ['&'] rest
        | '\\', next :: after =>
          match inTable, next, after with
          | true, '\\', '|' :: after => put ['|'] after
          | _, _, _ => if Text.isAsciiPunctuation next then put [next] after else put ['\\'] rest
        | _, _ => put [c] rest

def title? (inTable : Bool) (text : List Char) : Option (String × List Char) :=
  match text with
  | c :: rest =>
    (titleClose? c).bind fun close =>
      (titleRest? inTable c close [] (rest.length + 1) rest).map fun (t, after) =>
        (String.ofList t, after)
  | [] => none

/-- Takes the destination and title of an inline link, after its `(` and up to its `)`. -/
def inlineTarget? (inTable : Bool) (text : List Char) : Option ((String × String) × List Char) := do
  let (dest, rest) ← destination? 5 (skipGap text)
  let rest := skipGap rest
  let (title, rest) :=
    match title? inTable rest with
    | some (title, after) => (title, skipGap after)
    | none => ("", rest)
  match rest with
  | ')' :: after => some ((unescaped inTable dest, title), after)
  | _ => none

end AccessibleMarkdown.Markdown
