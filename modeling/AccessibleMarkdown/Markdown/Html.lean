import AccessibleMarkdown.Markdown.Marker

/-! Raw HTML: the tags and other pieces that may stand in a text, and the blocks of HTML. -/

namespace AccessibleMarkdown.Markdown.Html

def isAsciiAlpha (c : Char) : Bool := ('a' ≤ c && c ≤ 'z') || ('A' ≤ c && c ≤ 'Z')

def isAsciiAlnum (c : Char) : Bool := isAsciiAlpha c || ('0' ≤ c && c ≤ '9')

/-- What follows `lead` in a text that starts with it. -/
def after? (lead text : List Char) : Option (List Char) :=
  if lead.isPrefixOf text then some (text.drop lead.length) else none

def afterFirst? (mark : List Char) : List Char → Option (List Char)
  | [] => if mark.isEmpty then some [] else none
  | c :: rest =>
    match after? mark (c :: rest) with
    | some after => some after
    | none => afterFirst? mark rest

/-! ## Tags -/

def isNameStart (c : Char) : Bool := isAsciiAlpha c || c == '_' || c == ':'

def isNamePart (c : Char) : Bool := isNameStart c || ('0' ≤ c && c ≤ '9') || c == '.' || c == '-'

def isBareValue (c : Char) : Bool :=
  !(isAsciiSpace c || c == '"' || c == '\'' || c == '=' || c == '>' || c == '<' || c == tick)

def value? : List Char → Option (List Char)
  | [] => none
  | c :: rest =>
    if c == '"' || c == '\'' then afterFirst? [c] rest
    else if isBareValue c then some (rest.dropWhile isBareValue)
    else none

/-- Takes an attribute: a name, and a value if an equals sign follows. -/
def attribute? : List Char → Option (List Char)
  | [] => none
  | c :: rest =>
    if isNameStart c then
      let afterName := rest.dropWhile isNamePart
      match afterName.dropWhile isAsciiSpace with
      | '=' :: value => value? (value.dropWhile isAsciiSpace)
      | _ => some afterName
    else none

/-- Takes at most `fuel` attributes, each after white space, and the end of the tag. -/
def attributes? : Nat → List Char → Option (List Char)
  | 0, _ => none
  | fuel + 1, text =>
    match text.dropWhile isAsciiSpace with
    | '>' :: rest => some rest
    | '/' :: '>' :: rest => some rest
    | next => if next.length < text.length then (attribute? next).bind (attributes? fuel) else none

/-- Takes a tag; the text starts after its `<`. -/
def tag? : List Char → Option (List Char)
  | '/' :: c :: rest =>
    if isAsciiAlpha c then
      match (rest.dropWhile fun ch => isAsciiAlnum ch || ch == '-').dropWhile isLineSpace with
      | '>' :: after => some after
      | _ => none
    else none
  | c :: rest =>
    if isAsciiAlpha c then
      attributes? (rest.length + 1) (rest.dropWhile fun ch => isAsciiAlnum ch || ch == '-')
    else none
  | [] => none

/-! ## Other pieces -/

def comment? (text : List Char) : Option (List Char) :=
  match text with
  | '>' :: rest => some rest
  | '-' :: '>' :: rest => some rest
  | _ => afterFirst? ['-', '-', '>'] text

/-- Takes a character data section after its `<![CDATA[`; its first `]` has to start its end. -/
def cdata? (text : List Char) : Option (List Char) :=
  match text.dropWhile (· != ']') with
  | ']' :: rest =>
    match rest.dropWhile (· == ']') with
    | '>' :: after => some after
    | _ => none
  | _ => none

/-- Takes any piece of inline HTML; the text starts after its `<`. -/
def inline? (text : List Char) : Option (List Char) :=
  match text with
  | '?' :: rest => afterFirst? ['?', '>'] rest
  | '!' :: '-' :: '-' :: rest => comment? rest
  | '!' :: '[' :: rest => (after? "CDATA[".toList rest).bind cdata?
  | '!' :: c :: rest => if isAsciiAlpha c then afterFirst? ['>'] rest else none
  | _ => tag? text

/-! ## Blocks -/

/-- The elements whose content is kept until their end tag. -/
def verbatimTags : List String := ["pre", "style", "script", "textarea"]

/-- The elements that always start a block. -/
def blockTags : List String :=
  ["address", "article", "aside", "base", "basefont", "blockquote", "body", "caption", "center",
   "col", "colgroup", "dd", "details", "dialog", "dir", "div", "dl", "dt", "fieldset",
   "figcaption", "figure", "footer", "form", "frame", "frameset", "h1", "h2", "h3", "h4", "h5",
   "h6", "head", "header", "hr", "html", "iframe", "legend", "li", "link", "main", "menu",
   "menuitem", "nav", "noframes", "ol", "optgroup", "option", "p", "param", "search", "section",
   "summary", "table", "tbody", "td", "tfoot", "th", "thead", "title", "tr", "track", "ul"]

inductive BlockEnd
  /-- With the line that holds this text. -/
  | withMark (mark : List Char)
  /-- Before the next blank line. -/
  | beforeBlank
  deriving DecidableEq, Repr

/-- The end of a block that lasts until a mark; the text starts after its `<`. -/
def markedBlock? (text : List Char) : Option (List Char) :=
  let name := (text.takeWhile isAsciiAlpha).map Char.toLower
  let rest := text.drop name.length
  if verbatimTags.contains (String.ofList name)
      && (rest.head?.map fun c => isLineSpace c || c == '>').getD true
  then some (['<', '/'] ++ name ++ ['>'])
  else if "!--".toList.isPrefixOf text then some "-->".toList
  else if ['?'].isPrefixOf text then some "?>".toList
  else if "![CDATA[".toList.isPrefixOf text then some "]]>".toList
  else
    match text with
    | '!' :: c :: _ => if isAsciiAlpha c then some ['>'] else none
    | _ => none

/-- Does a block element start or end here? The text starts after its `<`. -/
def startsBlockTag (text : List Char) : Bool :=
  let text := if text.head? == some '/' then text.tail else text
  let name := text.takeWhile isAsciiAlnum
  let rest := text.drop name.length
  blockTags.contains (String.ofList (name.map Char.toLower)) &&
    (match rest with
    | [] => true
    | '/' :: '>' :: _ => true
    | c :: _ => c == ' ' || c == '\t' || c == '>')

/-- Does a line hold one whole tag and nothing else? The text starts after its `<`. -/
def isLoneTag (text : List Char) : Bool := ((tag? text).map isBlankText).getD false

/-- The end of a block that may follow the lines of a paragraph. -/
def interruptingBlock? (line : List Char) : Option BlockEnd :=
  match line with
  | '<' :: text =>
    match markedBlock? text with
    | some mark => some (.withMark mark)
    | none => if startsBlockTag text then some .beforeBlank else none
  | _ => none

/-- The end of the block that a line starts. -/
def block? (line : List Char) : Option BlockEnd :=
  match interruptingBlock? line with
  | some e => some e
  | none =>
    match line with
    | '<' :: text => if isLoneTag text then some .beforeBlank else none
    | _ => none

end AccessibleMarkdown.Markdown.Html
