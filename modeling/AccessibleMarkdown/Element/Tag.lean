/-! Element kinds: those the checks look at, and any other by name. -/

namespace AccessibleMarkdown

inductive Tag
  | div | p | img
  | h1 | h2 | h3 | h4 | h5 | h6
  | table | thead | tbody | tr | td | th
  | del
  | other (name : String)
  deriving DecidableEq, Repr

namespace Tag

def name : Tag → String
  | div => "div"
  | p => "p"
  | img => "img"
  | h1 => "h1"
  | h2 => "h2"
  | h3 => "h3"
  | h4 => "h4"
  | h5 => "h5"
  | h6 => "h6"
  | table => "table"
  | thead => "thead"
  | tbody => "tbody"
  | tr => "tr"
  | td => "td"
  | th => "th"
  | del => "del"
  | other name => name

/-- The kinds that have a constructor of their own. -/
def known : List Tag := [div, p, img, h1, h2, h3, h4, h5, h6, table, thead, tbody, tr, td, th, del]

/-- The tag of a name; ASCII letters count in either case. -/
def ofName (name : String) : Tag :=
  let lower := name.map Char.toLower
  (known.find? (·.name == lower)).getD (other lower)

def isOther : Tag → Bool
  | other _ => true
  | _ => false

/-- The heading of a level from 1 to 6. -/
def heading? : Nat → Option Tag
  | 1 => some h1
  | 2 => some h2
  | 3 => some h3
  | 4 => some h4
  | 5 => some h5
  | 6 => some h6
  | _ => none

end Tag

end AccessibleMarkdown
