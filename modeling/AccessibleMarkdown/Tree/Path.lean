/-! Places in a tree: the position among its siblings of each node on the way down from the top. -/

namespace AccessibleMarkdown

structure Path where
  indices : List Nat := []
  deriving DecidableEq, Repr, Inhabited

namespace Path

def root : Path := {}

def child (p : Path) (index : Nat) : Path := ⟨p.indices ++ [index]⟩

def depth (p : Path) : Nat := p.indices.length

def last? (p : Path) : Option Nat := p.indices.getLast?

/-- `/` for the top, else each index after a slash. -/
def toText (p : Path) : String :=
  if p.indices.isEmpty then "/" else String.join (p.indices.map fun i => "/" ++ toString i)

end Path

end AccessibleMarkdown
