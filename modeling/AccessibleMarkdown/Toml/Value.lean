/-!
Values of TOML, and tables as they grow while a document is read. Where a table comes from decides
what may still be added to it.
-/

namespace AccessibleMarkdown.Toml

/-- How a table was made. -/
inductive Origin
  /-- By a header of its own, or as an element of an array of tables. -/
  | header
  /-- On the way to the table of a longer header. -/
  | implied
  /-- On the way of a key with dots. -/
  | dotted
  /-- Between braces; nothing can be added to it later. -/
  | inline
  deriving DecidableEq, Repr

inductive Value
  | string (text : String)
  | integer (number : Int)
  | float (number : Float)
  | boolean (value : Bool)
  | datetime
  | array (items : List Value)
  | table (origin : Origin) (entries : List (String × Value))
  | tables (elements : List (List (String × Value)))

/-- The entries of a table in the order in which they were made. -/
abbrev Table := List (String × Value)

namespace Table

def replace (t : Table) (key : String) (value : Value) : Table :=
  t.map fun (k, old) => (k, if k == key then value else old)

def erase (t : Table) (key : String) : Table := t.filter (·.1 != key)

/--
Changes the table at a path by `change`, making the tables on the way that do not exist. An array of
tables stands for its last element. A path of dots does not lead into tables that have a header.
-/
def descend (dots : Bool) (change : Origin → Table → Option Table) :
    List String → Origin → Table → Option Table
  | [], origin, t => change origin t
  | key :: path, _, t =>
    match t.lookup key with
    | none => do
      let made := if dots then Origin.dotted else .implied
      some (t ++ [(key, .table made (← descend dots change path made []))])
    | some (.table origin entries) =>
      if origin = .inline ∨ (dots ∧ origin = .header) then none
      else do some (t.replace key (.table origin (← descend dots change path origin entries)))
    | some (.tables elements) =>
      match elements.reverse with
      | [] => none
      | last :: front => do
        some (t.replace key (.tables (front.reverse ++ [← descend dots change path .header last])))
    | some _ => none

/--
Adds a value under a key, which is split at its dots. With dots, the table that gets it must have
been made by dots, and without, it must not.
-/
def insert (key : List String) (value : Value) : Origin → Table → Option Table :=
  let path := key.dropLast
  let name := key.getLast?.getD ""
  descend true (fun origin t =>
    if (origin == .dotted) == path.isEmpty || (t.lookup name).isSome then none
    else some (t ++ [(name, value)])) path

/-- Opens the table of a header. One that was implied keeps its entries, but is the last from now
on. -/
def openTable (key : List String) (root : Table) : Option Table :=
  let name := key.getLast?.getD ""
  descend false (fun _ t =>
    match t.lookup name with
    | none => some (t ++ [(name, .table .header [])])
    | some (.table .implied entries) => some (t.erase name ++ [(name, .table .header entries)])
    | some _ => none) key.dropLast .header root

/-- Adds an element to an array of tables. -/
def openElement (key : List String) (root : Table) : Option Table :=
  let name := key.getLast?.getD ""
  descend false (fun _ t =>
    match t.lookup name with
    | none => some (t ++ [(name, .tables [[]])])
    | some (.tables elements) => some (t.replace name (.tables (elements ++ [[]])))
    | some _ => none) key.dropLast .header root

end Table

end AccessibleMarkdown.Toml
