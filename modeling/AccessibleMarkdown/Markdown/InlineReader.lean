import AccessibleMarkdown.Markdown.Emphasis
import AccessibleMarkdown.Markdown.Html
import AccessibleMarkdown.Markdown.Reference

/-!
Reading the inlines of a text from left to right. Open brackets wait on a stack for the bracket that
closes them; what is read since the last of them belongs to its link, if it turns out to be one.
-/

namespace AccessibleMarkdown.Markdown.InlineReader

structure Scope where
  definitions : Definitions
  inTable : Bool := false

/-! ## Code spans and autolinks -/

/-- The text up to the next run of exactly `count` backticks, at most `fuel` runs; `taken` is in
reverse. -/
def codeRest? (count : Nat) (taken : List Char) : Nat → List Char → Option (List Char × List Char)
  | 0, _ => none
  | fuel + 1, text =>
    match text with
    | [] => none
    | c :: rest =>
      if c == tick then
        let length := runLength tick text
        if length = count then some (taken.reverse, text.drop length)
        else codeRest? count (List.replicate length tick ++ taken) fuel (text.drop length)
      else codeRest? count (c :: taken) fuel rest

/-- The content of a code span: line breaks are spaces, and in tables bars lose their backslash. -/
def codeChars (inTable : Bool) : List Char → List Char
  | '\\' :: '|' :: rest =>
    if inTable then '|' :: codeChars inTable rest else '\\' :: '|' :: codeChars inTable rest
  | c :: rest => (if isLineEnd c then ' ' else c) :: codeChars inTable rest
  | [] => []

/-- Takes one space from either end, if both have one and there is something else. -/
def stripCode (text : List Char) : List Char :=
  if text.head? == some ' ' && text.getLast? == some ' ' && !text.all (· == ' ') then
    text.tail.dropLast
  else text

/-- The characters of an address before its `@`. -/
def isMailboxChar (c : Char) : Bool :=
  Html.isAsciiAlnum c || ".!#$%&'*+/=?^_\x60\x7b|\x7d~-".toList.contains c

/-- Takes an absolute address `scheme:…`, up to a `>`. -/
def uri? (text : List Char) : Option (List Char × List Char) :=
  let scheme := text.takeWhile fun c => Html.isAsciiAlnum c || c == '.' || c == '-' || c == '+'
  let body :=
    (text.drop (scheme.length + 1)).takeWhile fun c => !(c == '>' || c == '<' || c.toNat ≤ 0x20)
  let whole := scheme.length + 1 + body.length
  if (scheme.head?.map Html.isAsciiAlpha).getD false && text[scheme.length]? == some ':' &&
      2 ≤ scheme.length && scheme.length ≤ 32 && text[whole]? == some '>' then
    some (text.take whole, text.drop (whole + 1))
  else none

def isHostLabel (label : List Char) : Bool :=
  1 ≤ label.length && label.length ≤ 63 && label.head? != some '-' && label.getLast? != some '-'

/-- Takes the labels of a host name, separated by dots and followed by `>`; at most `fuel`. -/
def host? : Nat → List Char → Option (List Char)
  | 0, _ => none
  | fuel + 1, text =>
    let label := text.takeWhile fun c => Html.isAsciiAlnum c || c == '-'
    if isHostLabel label then
      match text.drop label.length with
      | '>' :: rest => some rest
      | '.' :: rest => host? fuel rest
      | _ => none
    else none

def mail? (text : List Char) : Option (List Char × List Char) :=
  let mailbox := text.takeWhile isMailboxChar
  match text.drop mailbox.length with
  | '@' :: rest =>
    if mailbox.isEmpty then none
    else (host? (rest.length + 1) rest).map fun after =>
      (text.take (text.length - after.length - 1), after)
  | _ => none

/-! ## Brackets -/

inductive BracketKind
  | link
  | image
  /-- Inside a link that has been found: text, whatever follows. -/
  | disabled
  deriving DecidableEq, Repr

/-- An open bracket: the text from it on, and the pieces since, the last first. -/
structure Bracket where
  kind : BracketKind
  source : List Char
  pieces : List Piece

def BracketKind.mark : BracketKind → List Char
  | image => ['!', '[']
  | _ => ['[']

/-- The pieces read so far; the innermost bracket comes first. -/
structure State where
  brackets : List Bracket := []
  pieces : List Piece := []

namespace State

def put (st : State) (pieces : List Piece) : State :=
  match st.brackets with
  | top :: rest => { st with brackets := { top with pieces := pieces ++ top.pieces } :: rest }
  | [] => { st with pieces := pieces ++ st.pieces }

def inline (st : State) (i : Inline) : State := st.put [.inline i]

def text (st : State) (chars : List Char) : State := st.inline (.text chars)

def openBracket (st : State) (kind : BracketKind) (source : List Char) : State :=
  { st with brackets := ⟨kind, source, []⟩ :: st.brackets }

/-- Turns the innermost bracket into text. -/
def giveUp (st : State) : State :=
  match st.brackets with
  | top :: rest =>
    { st with brackets := rest }.put (top.pieces ++ [Piece.inline (.text top.kind.mark)])
  | [] => st

def giveUpMany : Nat → State → State
  | 0, st => st
  | n + 1, st => giveUpMany n st.giveUp

/-- Links hold no links: the brackets around a link that has been found open none. -/
def disableLinks (st : State) : State :=
  { st with brackets := st.brackets.map fun b =>
    if b.kind = .link then { b with kind := .disabled } else b }

def closeWith (st : State) (top : Bracket) (rest : List Bracket) (target : LinkTarget) : State :=
  let content := Emphasis.resolve top.pieces.reverse
  let outer := { st with brackets := rest }
  if top.kind = .image then outer.inline (.image target.dest target.title content)
  else (outer.inline (.link target.dest target.title content)).disableLinks

end State

/-- The target that follows a closing bracket, or that the label there or in the brackets stands
for, with the text after the link. `rest` is the text after the bracket. -/
def target? (sc : Scope) (source rest : List Char) : Option (LinkTarget × List Char) :=
  match
    match rest with
    | '(' :: inner => inlineTarget? sc.inTable inner
    | _ => none
  with
  | some ((dest, title), after) => some (⟨dest, title⟩, after)
  | none =>
    let own (after : List Char) : Option (LinkTarget × List Char) := do
      let (key, labelEnd) ← label? source
      guard (labelEnd.length = rest.length)
      let target ← sc.definitions.find? key
      return (target, after)
    match rest with
    | '[' :: ']' :: after => own after
    | _ =>
      match label? rest with
      | some (key, after) => (sc.definitions.find? key).map fun target => (target, after)
      | none => own rest

/-- Reads a closing bracket, and gives the text after the link. -/
def closeBracket (sc : Scope) (st : State) (rest : List Char) : State × List Char :=
  match st.brackets with
  | [] => (st.text [']'], rest)
  | top :: outer =>
    match if top.kind = .disabled then none else target? sc top.source rest with
    | some (target, after) => (st.closeWith top outer target, after)
    | none => (st.giveUp.text [']'], rest)

/-! ## Reading -/

/-- The characters that stand for themselves wherever they are. -/
def isPlain (c : Char) : Bool := !(isAsciiSpace c || "\\\x60*_<![]&".toList.contains c)

/-- The code span that starts with `count` backticks, and what follows it. -/
def codeSpan? (sc : Scope) (count : Nat) (text : List Char) : Option (Inline × List Char) :=
  (codeRest? count [] (text.length + 1) text).map fun (content, after) =>
    (.code (stripCode (codeChars sc.inTable content)), after)

/-- Reads a run of backticks, of which the first `escaped` are text. -/
def readTicks (sc : Scope) (st : State) (escaped : Nat) (text : List Char) :
    State × Option Char × List Char :=
  let length := runLength tick text
  let after := text.drop length
  let count := length - escaped
  match if count = 0 then none else codeSpan? sc count after with
  | some (code, rest) => ((st.text (List.replicate escaped tick)).inline code, some tick, rest)
  | none => (st.text (List.replicate length tick), some tick, after)

/-- Reads white space, and the line break that it may stand before: two columns of it make the break
a hard one. -/
def readSpace (st : State) (text : List Char) : State × Option Char × List Char :=
  let space := text.takeWhile isLineSpace
  let broken (rest : List Char) : State × Option Char × List Char :=
    (st.inline (if 2 ≤ space.length then .hardBreak else .softBreak), some '\n', dropIndent rest)
  match text.drop space.length with
  | '\r' :: '\n' :: rest => broken rest
  | '\r' :: rest => broken rest
  | '\n' :: rest => broken rest
  | rest => (st.text space, space.getLast?, rest)

def readAngle (st : State) (rest : List Char) : State × Option Char × List Char :=
  match (uri? rest).or (mail? rest) with
  | some (address, after) =>
    (st.inline (.link (String.ofList address) "" [.text address]), some '>', after)
  | none =>
    match Html.inline? rest with
    | some after => (st.inline .html, some '>', after)
    | none => (st.text ['<'], some '<', rest)

def readBackslash (sc : Scope) (st : State) (rest : List Char) : State × Option Char × List Char :=
  match rest with
  | '\r' :: '\n' :: after | '\r' :: after | '\n' :: after =>
    (st.inline .hardBreak, some '\n', dropIndent after)
  | '\\' :: '|' :: after =>
    if sc.inTable then (st.text ['|'], some '|', after)
    else (st.text ['\\'], some '\\', '|' :: after)
  | c :: after =>
    if c == tick then readTicks sc st 1 rest
    else if Text.isAsciiPunctuation c then (st.text [c], some c, after)
    else (st.text ['\\'], some '\\', rest)
  | [] => (st.text ['\\'], some '\\', [])

/-- Reads one piece; `before` is the character before it. -/
def readPiece (sc : Scope) (st : State) (before : Option Char) (text : List Char) :
    State × Option Char × List Char :=
  match text with
  | [] => (st, before, [])
  | c :: rest =>
    if c == tick then readTicks sc st 0 text
    else if isAsciiSpace c then readSpace st text
    else if c == '*' || c == '_' then
      let count := runLength c text
      let after := text.drop count
      (st.put [.run (.between before c count after.head?)], some c, after)
    else
      match c, rest with
      | '\\', _ => readBackslash sc st rest
      | '<', _ => readAngle st rest
      | '&', _ =>
        match entity? rest with
        | some (chars, after) => (st.text chars, some ';', after)
        | none => (st.text ['&'], some '&', rest)
      | '!', '[' :: after => (st.openBracket .image rest, some '[', after)
      | '[', _ => (st.openBracket .link text, some '[', rest)
      | ']', _ =>
        let (st, after) := closeBracket sc st rest
        (st, (text.take (text.length - after.length)).getLast?, after)
      | _, _ =>
        let plain := rest.takeWhile isPlain
        (st.text (c :: plain), (c :: plain).getLast?, rest.drop plain.length)

def readPieces (sc : Scope) : Nat → State → Option Char → List Char → State
  | 0, st, _, _ => st
  | _, st, _, [] => st
  | fuel + 1, st, before, text =>
    let (st, before, rest) := readPiece sc st before text
    readPieces sc fuel st before rest

def read (sc : Scope) (text : List Char) : List Inline :=
  let st := readPieces sc text.length {} none text
  Emphasis.resolve (State.giveUpMany st.brackets.length st).pieces.reverse

end AccessibleMarkdown.Markdown.InlineReader
