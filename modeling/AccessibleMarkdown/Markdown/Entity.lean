import AccessibleMarkdown.Markdown.EntityTable

/-! Character references: `&name;`, `&#digits;` and `&#xdigits;`. -/

namespace AccessibleMarkdown.Markdown

/-- The character with a code point; one that is not a character, or 0, gives U+FFFD. -/
def charOfPoint (n : Nat) : Char :=
  if n = 0 ∨ ¬n.isValidChar then '\uFFFD' else Char.ofNat n

/-- Reads up to `limit` digits and a semicolon after them. -/
def numericEntity? (isDigit : Char → Bool) (base limit : Nat) (text : List Char) :
    Option (List Char × List Char) :=
  let digits := (text.take limit).takeWhile isDigit
  match text.drop digits.length with
  | ';' :: rest =>
    if digits.isEmpty then none else some ([charOfPoint (Text.ofDigits base digits)], rest)
  | _ => none

/-- What a reference stands for, and what follows it; the text starts after its `&`. -/
def entity? (text : List Char) : Option (List Char × List Char) :=
  match text with
  | '#' :: 'x' :: rest | '#' :: 'X' :: rest => numericEntity? Text.isHexDigit 16 6 rest
  | '#' :: rest => numericEntity? Char.isDigit 10 7 rest
  | _ =>
    let name := text.takeWhile Char.isAlphanum
    match text.drop name.length with
    | ';' :: rest =>
      (entityTable.find? (·.1 == String.ofList name)).map fun (_, chars) => (chars, rest)
    | _ => none

end AccessibleMarkdown.Markdown
