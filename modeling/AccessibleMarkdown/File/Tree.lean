import AccessibleMarkdown.File.Lookup
import AccessibleMarkdown.File.Name

/-!
Files of a working directory held in memory. Everything outside of the working directory is
unknown, except that the directories above it exist.
-/

namespace AccessibleMarkdown.File

inductive Entry
  | file (bytes : ByteArray)
  | directory
  /-- A file that cannot be read, for a reason that the system gives. -/
  | unreadable (reason : String)

/-- The entries of a working directory by their segments; the directories on the way are implied. -/
abbrev FileTree := List (List String × Entry)

namespace FileTree

/-- Adds an entry under a relative name, in place of one added before. -/
def add (t : FileTree) (name : String) (entry : Entry) : FileTree :=
  ((Name.ofText name).segments.filter (!isEmptySegment ·), entry) :: t

def entry? (t : FileTree) (place : List String) : Option Entry :=
  match t.lookup place with
  | some entry => some entry
  | none =>
    if place.isEmpty || t.any fun (other, _) => place.isPrefixOf other then
      some .directory else none

/-- Where a name leads: to a place in the working directory, or to a directory above it. -/
inductive Place
  | inside (place : List String)
  | above
  deriving DecidableEq, Repr

def step (t : FileTree) : Place → String → Except Lookup Place
  | .above, ".." => .ok .above
  | .above, segment => if isEmptySegment segment then .ok .above else .error .missing
  | .inside place, segment =>
    match t.entry? place with
    | none => .error .missing
    | some (.file _) | some (.unreadable _) => .error .notDirectory
    | some .directory =>
      if isEmptySegment segment then .ok (.inside place)
      else if segment = ".." then .ok (if place.isEmpty then .above else .inside place.dropLast)
      else .ok (.inside (place ++ [segment]))

def lookup (t : FileTree) (name : String) : Lookup :=
  if name.isEmpty then .missing
  else
    let start := if name.startsWith "/" then Place.above else .inside []
    match (name.splitOn "/").foldlM t.step start with
    | .error found => found
    | .ok .above => .directory
    | .ok (.inside place) =>
      match t.entry? place with
      | none => .missing
      | some .directory => .directory
      | some (.file bytes) => .file bytes
      | some (.unreadable reason) => .unreadable reason

end FileTree

end AccessibleMarkdown.File
