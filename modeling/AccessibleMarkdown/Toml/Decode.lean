import AccessibleMarkdown.Decimal.Shortest
import AccessibleMarkdown.Text.Quoted
import AccessibleMarkdown.Toml.Value

/-! Taking values of TOML for data of a given type, and what is wrong with those that do not fit. -/

namespace AccessibleMarkdown.Toml

inductive Misfit
  | wrongType (found : Value) (expected : String)
  | negative (number : Int)
  | unknownChoice (name : String) (known : List String)
  | noChoice
  /-- A table that stands for a choice must name exactly one. -/
  | noEntry
  | manyEntries
  /-- A table that stands for a choice must hold nothing else. -/
  | choiceData (found : Value)

namespace Misfit

def describe : Value → String
  | .string text => "string " ++ Text.quote text
  | .integer n => "integer \x60" ++ toString n ++ "\x60"
  | .float x => "floating point \x60" ++ Decimal.shortestText x.toBits ++ "\x60"
  | .boolean b => "boolean \x60" ++ (if b then "true" else "false") ++ "\x60"
  | .datetime | .table _ _ => "map"
  | .array _ | .tables _ => "sequence"

def typeName : Value → String
  | .string _ => "string"
  | .integer _ => "integer"
  | .float _ => "float"
  | .boolean _ => "boolean"
  | .datetime => "datetime"
  | .array _ => "array"
  | .table .inline _ => "inline table"
  | .table _ _ => "table"
  | .tables _ => "array of tables"

def message : Misfit → String
  | wrongType found expected => "invalid type: " ++ describe found ++ ", expected " ++ expected
  | negative n => "invalid value: integer \x60" ++ toString n ++ "\x60, expected u64"
  | unknownChoice name known =>
    "unknown variant \x60" ++ name ++ "\x60, expected one of "
      ++ ", ".intercalate (known.map fun k => "\x60" ++ k ++ "\x60")
  | noChoice => "wanted string or table"
  | noEntry => "wanted exactly 1 element, found 0 elements"
  | manyEntries => "wanted exactly 1 element, more than 1 element"
  | choiceData (.tables _) => "expected empty array"
  | choiceData (.array _) | choiceData (.table _ _) => "expected empty table"
  | choiceData found => "expected table, found " ++ typeName found

end Misfit

abbrev Decoder (α : Type) := Value → Except Misfit α

namespace Decoder

def boolean : Decoder Bool
  | .boolean b => .ok b
  | v => .error (.wrongType v "a boolean")

/-- A number of 64 bits without a sign. -/
def natural : Decoder Nat
  | .integer (.ofNat n) => .ok n
  | .integer n => .error (.negative n)
  | v => .error (.wrongType v "u64")

/-- A string, called `expected` where there is none. -/
def string (expected : String) : Decoder String
  | .string text => .ok text
  | v => .error (.wrongType v expected)

/-- A list of items. The elements of an array of tables are tables. -/
def list {α : Type} (item : Decoder α) : Decoder (List α)
  | .array items => items.mapM item
  | .tables elements => elements.mapM fun entries => item (.table .header entries)
  | v => .error (.wrongType v "a sequence")

/-- One of several named values: its name, or a table with an empty table under that name. -/
def choice {α : Type} (known : List (String × α)) : Decoder α :=
  let named := fun name => match known.lookup name with
    | some a => .ok a
    | none => .error (.unknownChoice name (known.map Prod.fst))
  fun v => match v with
    | .string name => named name
    | .table _ [] => .error .noEntry
    | .table _ [(name, payload)] => do
      let a ← named name
      match payload with
      | .table _ [] | .array [] | .tables [] => .ok a
      | other => .error (.choiceData other)
    | .table _ _ => .error .manyEntries
    | _ => .error .noChoice

/-- A change to data by a value. -/
abbrev Setter (α : Type) := Value → α → Except Misfit α

def Setter.of {α β : Type} (d : Decoder β) (update : β → α → α) : Setter α := fun v a => do
  return update (← d v) a

/--
Data with named parts: a table, or an array of the parts in their order. Parts not given keep their
value in `default`, and what is no part is passed over, as is everything in a date.
-/
def record {α : Type} (name : String) (parts : List (String × Setter α))
    (default : α) : Decoder α :=
  let inOrder := fun values => (parts.zip values).foldlM (fun a ((_, set), v) => set v a) default
  fun v => match v with
    | .table _ entries =>
      entries.foldlM (fun a (key, v) => match parts.lookup key with
        | some set => set v a
        | none => .ok a) default
    | .datetime => .ok default
    | .array items => inOrder items
    | .tables elements => inOrder (elements.map (.table .header))
    | v => .error (.wrongType v ("struct " ++ name))

end Decoder

end AccessibleMarkdown.Toml
