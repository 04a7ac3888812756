import AccessibleMarkdown.Toml.Number
import AccessibleMarkdown.Toml.Text

/-! Reading a TOML document: values, and statements one after the other. -/

namespace AccessibleMarkdown.Toml

open Scan

/-! ## Values -/

/-- Items up to a closing bracket, with a comma after each but the last, which may have one. -/
def arrayRest (item : Scan Value) : Nat → Scan (List Value)
  | 0 => failure
  | fuel + 1 => do
    gap true
    if (← peek) == some ']' then
      discard next
      return []
    else
      let first ← item
      gap true
      match ← next with
      | ',' => return first :: (← arrayRest item fuel)
      | ']' => return [first]
      | _ => failure

def keyValue (item : Scan Value) : Scan (List String × Value) := do
  let name ← key
  char '='
  blanks
  return (name, ← item)

/-- Entries up to a closing brace, with a comma between them. -/
def inlineRest (item : Scan Value) : Nat → Table → Scan Table
  | 0, _ => failure
  | fuel + 1, t => do
    let (name, value) ← keyValue item
    let t ← (t.insert name value .inline : Option Table)
    blanks
    match ← next with
    | ',' => inlineRest item fuel t
    | '\x7d' => return t
    | _ => failure

def inlineTable (item : Scan Value) : Scan Value := do
  blanks
  if (← peek) == some '\x7d' then
    discard next
    return .table .inline []
  else return .table .inline (← fueled fun fuel => inlineRest item fuel [])

/-- A value that no other value is in. -/
def scalar : Scan Value := do
  match ← peek with
  | some '"' | some '\'' => return .string (← anyString)
  | some 't' => literal "true"; return .boolean true
  | some 'f' => literal "false"; return .boolean false
  | _ => datetime <|> number

/-- A value with up to `depth` arrays and tables in one another. -/
def value : Nat → Scan Value
  | 0 => scalar
  | depth + 1 => do
    match ← peek with
    | some '[' => discard next; return .array (← fueled (arrayRest (value depth)))
    | some '\x7b' => discard next; inlineTable (value depth)
    | _ => scalar

/-! ## Statements -/

/-- What has been read: the root table, and the path of the table that gets the next entries. -/
structure Reading where
  root : Table := []
  place : List String := []

def headerLine (r : Reading) : Scan Reading := do
  char '['
  let element := (← peek) == some '['
  if element then discard next
  let name ← key
  literal (if element then "]]" else "]")
  lineEnd
  let root ← (if element then r.root.openElement name else r.root.openTable name : Option Table)
  return { root, place := name }

def entryLine (r : Reading) : Scan Reading := do
  let (name, v) ← keyValue (value (nestingLimit - 1))
  lineEnd
  let add := fun (origin : Origin) (t : Table) => t.insert name v origin
  let root ← (r.root.descend false add r.place .header : Option Table)
  return { r with root }

def statements : Nat → Reading → Scan Table
  | 0, _ => failure
  | fuel + 1, r => do
    blanks
    match ← peek with
    | none => return r.root
    | some '\n' | some '\r' => newline; statements fuel r
    | some '#' => lineEnd; statements fuel r
    | some '[' => statements fuel (← headerLine r)
    | _ => statements fuel (← entryLine r)

/-- The table that a document holds, if it is one; a byte order mark may be in front. -/
def read? (text : String) : Option Table :=
  let text := match text.toList with
    | '\uFEFF' :: rest => rest
    | all => all
  ((fueled fun fuel => statements fuel {}).run text).map Prod.fst

end AccessibleMarkdown.Toml
