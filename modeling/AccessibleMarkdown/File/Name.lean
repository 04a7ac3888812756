/-!
Names of files: segments between slashes. A name that starts with a slash is absolute. An empty
segment counts for nothing, and so does `.` unless a relative name starts with it.
-/

namespace AccessibleMarkdown.File

def isEmptySegment (segment : String) : Bool := segment == "" || segment == "."

/-- A name in segments, the last of which counts. -/
structure Name where
  absolute : Bool
  segments : List String
  deriving DecidableEq, Repr

namespace Name

/-- The name of these segments without those at the end that count for nothing. -/
def ofSegments (absolute : Bool) : List String → Name
  | [] => { absolute, segments := [] }
  | first :: rest =>
    let rest := (rest.reverse.dropWhile isEmptySegment).reverse
    let counts := first != "" && !(absolute && first == ".")
    { absolute, segments := if rest.isEmpty && !counts then [] else first :: rest }

def ofText (text : String) : Name :=
  match text.splitOn "/" with
  | "" :: rest => if rest.isEmpty then ofSegments false [] else ofSegments true rest
  | relative => ofSegments false relative

def toText (name : Name) : String :=
  (if name.absolute then "/" else "") ++ "/".intercalate name.segments

def parent? (name : Name) : Option Name :=
  if name.segments.isEmpty then none else some (ofSegments name.absolute name.segments.dropLast)

/-- What follows the last dot of the last segment, if something comes before that dot. -/
def extension? (name : Name) : Option String :=
  match name.segments.getLast? with
  | none | some ".." => none
  | some last =>
    match (last.splitOn ".").reverse with
    | [] | [_] | [_, ""] => none
    | extension :: _ => some extension

end Name

/-- The name of `name` as seen from the directory `base`; nothing is simplified. -/
def join (base name : String) : String :=
  if name.startsWith "/" then name
  else if base.isEmpty || base.endsWith "/" then base ++ name
  else base ++ "/" ++ name

/-- The directory that a name is in; a name without segments is in none. -/
def parent? (name : String) : Option String := (Name.ofText name).parent?.map Name.toText

def extension? (name : String) : Option String := (Name.ofText name).extension?

end AccessibleMarkdown.File
