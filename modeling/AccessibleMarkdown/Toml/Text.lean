import AccessibleMarkdown.Text.CharSet
import AccessibleMarkdown.Toml.Scan

/-! Strings and keys of TOML. -/

namespace AccessibleMarkdown.Toml

open Scan

/-- May a character stand for itself in a string? -/
def isTextChar (c : Char) : Bool := c == '\t' || (0x20 ≤ c.toNat && c.toNat != 0x7f)

/-- The character with a code point of `n` hexadecimal digits. -/
def codePoint (n : Nat) : Scan Char := do
  let point := Text.ofDigits 16 (← exactly n Text.isHexDigit)
  if point.isValidChar then return Char.ofNat point else failure

/-- The character that an escape stands for, after its backslash. -/
def escape : Scan Char := do
  match ← next with
  | 'b' => return '\x08'
  | 't' => return '\t'
  | 'n' => return '\n'
  | 'f' => return '\x0c'
  | 'r' => return '\r'
  | '"' => return '"'
  | '\\' => return '\\'
  | 'u' => codePoint 4
  | 'U' => codePoint 8
  | _ => failure

/-! ## Strings on one line -/

/-- The rest of a string with escapes, and its closing quote. -/
def basicRest : Nat → Scan (List Char)
  | 0 => failure
  | fuel + 1 => do
    match ← next with
    | '"' => return []
    | '\\' => return (← escape) :: (← basicRest fuel)
    | c => if isTextChar c then return c :: (← basicRest fuel) else failure

def basicString : Scan String := do
  char '"'
  return String.ofList (← fueled basicRest)

/-- A string without escapes. -/
def rawString : Scan String := do
  char '\''
  let text ← takeWhile fun c => isTextChar c && c != '\''
  char '\''
  return String.ofList text

/-! ## Strings over several lines -/

/-- A line break that an escape takes away, with the blanks around it. -/
def hiddenBreak : Scan Unit := do
  blanks
  newline
  gap false

/-- The rest of a string that three quotes close; one or two more quotes before them belong to
it. -/
def longRest (quote : Char) (escapes : Bool) : Nat → Scan (List Char)
  | 0 => failure
  | fuel + 1 => do
    match ← peek with
    | none => failure
    | some c =>
      if c = quote then
        let quotes ← takeWhile (· == quote)
        if quotes.length < 3 then return quotes ++ (← longRest quote escapes fuel)
        else if quotes.length ≤ 5 then return quotes.drop 3
        else failure
      else if c = '\n' || c = '\r' then
        newline
        return '\n' :: (← longRest quote escapes fuel)
      else if c = '\\' && escapes then
        discard next
        let written ← (do hiddenBreak; return []) <|> (do return [← escape])
        return written ++ (← longRest quote escapes fuel)
      else
        return (← satisfy isTextChar) :: (← longRest quote escapes fuel)

/-- A string between three quotes on each side; a line break right after the first ones is
dropped. -/
def longString (quote : Char) (escapes : Bool) : Scan String := do
  literal (String.ofList [quote, quote, quote])
  discard (optional newline)
  return String.ofList (← fueled (longRest quote escapes))

def anyString : Scan String :=
  longString '"' true <|> longString '\'' false <|> basicString <|> rawString

/-! ## Keys -/

def isBareKeyChar (c : Char) : Bool := c.isAlphanum || c == '_' || c == '-'

def simpleKey : Scan String := do
  match ← peek with
  | some '"' => basicString
  | some '\'' => rawString
  | _ =>
    match ← takeWhile isBareKeyChar with
    | [] => failure
    | name => return String.ofList name

def nestingLimit : Nat := 80

def keyLoop : Nat → Scan (List String)
  | 0 => failure
  | fuel + 1 => do
    blanks
    let name ← simpleKey
    blanks
    if (← peek) == some '.' then
      discard next
      return name :: (← keyLoop fuel)
    else return [name]

def key : Scan (List String) := do
  let parts ← fueled keyLoop
  if parts.length < nestingLimit then return parts else failure

end AccessibleMarkdown.Toml
