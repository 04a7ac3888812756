import AccessibleMarkdown.Element.Basic
import AccessibleMarkdown.Tree.Path

/-!
Trees of elements in an arena. Nodes are named by their place in the arena and are never freed;
node 0 is the root. A node without a parent, other than the root, is the top of a detached tree.
Siblings form a list that is linked both ways, and a parent knows its two ends.
-/

namespace AccessibleMarkdown

abbrev NodeId := Nat

/-- The ends of a list of siblings. -/
structure Ends where
  first : Option NodeId := none
  last : Option NodeId := none
  deriving DecidableEq, Repr

def Ends.isEmpty (e : Ends) : Bool := e.first.isNone

structure Node where
  element : Element
  parent : Option NodeId := none
  children : Ends := {}
  prev : Option NodeId := none
  next : Option NodeId := none
  deriving DecidableEq, Repr

structure Tree where
  nodes : Array Node
  deriving DecidableEq, Repr

inductive TreeError
  | notFound (node : NodeId)
  | alreadyAttached (node : NodeId)
  | cycle (parent child : NodeId)
  deriving DecidableEq, Repr

def TreeError.message : TreeError → String
  | notFound n => s!"node NodeId({n}) does not exist"
  | alreadyAttached n => s!"node NodeId({n}) already has a parent"
  | cycle p c => s!"appending NodeId({c}) to NodeId({p}) would create a cycle"

namespace Tree

def rootId : NodeId := 0

def withRoot (root : Element) : Tree := ⟨#[{ element := root }]⟩

def empty : Tree := withRoot { tag := .div }

/-- The number of nodes, detached ones included. -/
def size (t : Tree) : Nat := t.nodes.size

def get? (t : Tree) (id : NodeId) : Option Node := t.nodes[id]?

def element? (t : Tree) (id : NodeId) : Option Element := (t.get? id).map (·.element)

def parent? (t : Tree) (id : NodeId) : Option NodeId := (t.get? id).bind (·.parent)

def firstChild? (t : Tree) (id : NodeId) : Option NodeId := (t.get? id).bind (·.children.first)

def lastChild? (t : Tree) (id : NodeId) : Option NodeId := (t.get? id).bind (·.children.last)

def prevSibling? (t : Tree) (id : NodeId) : Option NodeId := (t.get? id).bind (·.prev)

def nextSibling? (t : Tree) (id : NodeId) : Option NodeId := (t.get? id).bind (·.next)

def modifyNode (t : Tree) (id : NodeId) (f : Node → Node) : Tree := ⟨t.nodes.modify id f⟩

/-- Changes the element of a node; a node that does not exist is left alone. -/
def modify (t : Tree) (id : NodeId) (f : Element → Element) : Tree :=
  t.modifyNode id fun n => { n with element := f n.element }

/-! ## Following links -/

/-- The nodes met from `start` on, where `step` leads from each to the one after it, if there is
one. There is no answer where a step fails, or where `fuel` steps do not reach an end. -/
def trail? (step : NodeId → Option (Option NodeId)) : Nat → Option NodeId → Option (List NodeId)
  | _, none => some []
  | 0, some _ => none
  | fuel + 1, some id => do
    let rest ← trail? step fuel (← step id)
    return id :: rest

def childTrail? (t : Tree) (fuel : Nat) (id : NodeId) : Option (List NodeId) :=
  trail? (fun c => some (t.nextSibling? c)) fuel (t.firstChild? id)

/-- The node itself, then its parent, and so on to the top. -/
def parentTrail? (t : Tree) (fuel : Nat) (id : NodeId) : Option (List NodeId) :=
  trail? (fun c => some (t.parent? c)) fuel ((t.get? id).map fun _ => id)

/-- The siblings before a node, the nearest first. A link out of the arena cannot be followed. -/
def elderTrail? (t : Tree) (fuel : Nat) (id : NodeId) : Option (List NodeId) :=
  trail? (fun c => (t.get? c).map (·.prev)) fuel (t.prevSibling? id)

def siblingIndex? (t : Tree) (fuel : Nat) (id : NodeId) : Option Nat :=
  (t.elderTrail? fuel id).map List.length

/-- The place of a node below the top of its tree. -/
def path? (t : Tree) (fuel : Nat) (id : NodeId) : Option Path := do
  let way ← t.parentTrail? fuel id
  let indices ← (way.filter fun n => (t.parent? n).isSome).mapM (t.siblingIndex? fuel)
  return ⟨indices.reverse⟩

/-! As many steps as there are nodes are enough for each of them. -/

def children (t : Tree) (id : NodeId) : List NodeId := (t.childTrail? t.size id).getD []

def ancestors (t : Tree) (id : NodeId) : List NodeId := (t.parentTrail? t.size id).getD []

def siblingIndex (t : Tree) (id : NodeId) : Nat := (t.siblingIndex? t.size id).getD 0

def path (t : Tree) (id : NodeId) : Path := (t.path? t.size id).getD {}

/-! ## Growing -/

/-- Adds a detached node. -/
def create (t : Tree) (e : Element) : Tree × NodeId := (⟨t.nodes.push { element := e }⟩, t.size)

/-- Makes `child` the last child of `parent`; the two are known to fit. -/
def link (t : Tree) (parent child : NodeId) : Tree :=
  let last := t.lastChild? parent
  let t := t.modifyNode child fun n => { n with parent := some parent, prev := last, next := none }
  let t := match last with
    | some id => t.modifyNode id fun n => { n with next := some child }
    | none => t.modifyNode parent fun n => { n with children.first := some child }
  t.modifyNode parent fun n => { n with children.last := some child }

/-- Makes a detached node the last child of `parent`, and says what stood in the way if it was not
done. All checks come before the first link is written. -/
def attach (t : Tree) (parent child : NodeId) : Tree × Except TreeError Unit :=
  match t.get? child with
  | none => (t, .error (.notFound child))
  | some node =>
    if node.parent.isSome ∨ child = rootId then (t, .error (.alreadyAttached child))
    else if t.size ≤ parent then (t, .error (.notFound parent))
    else if child ∈ t.ancestors parent then (t, .error (.cycle parent child))
    else (t.link parent child, .ok ())

/-- The tree with the child attached, for those who go on with it only if that is done. -/
def appendChild (t : Tree) (parent child : NodeId) : Except TreeError Tree :=
  match t.attach parent child with
  | (linked, .ok ()) => .ok linked
  | (_, .error err) => .error err

/-- Adds a node and makes it the last child of `parent`. The node stays, detached, if that fails. -/
def append (t : Tree) (parent : NodeId) (e : Element) : Tree × Except TreeError NodeId :=
  let (grown, id) := t.create e
  let (left, result) := grown.attach parent id
  (left, result.map fun () => id)

/-! ## Searching -/

/-- Takes nodes off `agenda`, putting the children of each in its place, until none is left. There
is no answer where `fuel` nodes are not enough. -/
def search? (t : Tree) (tag : Tag) : Nat → List NodeId → Option (List NodeId)
  | _, [] => some []
  | 0, _ :: _ => none
  | fuel + 1, id :: agenda =>
    match t.get? id with
    | none => search? t tag fuel agenda
    | some node => do
      let found ← search? t tag fuel (t.children id ++ agenda)
      return if node.element.tag = tag then id :: found else found

/-- The nodes with a tag at or below `start`, in document order. -/
def findAll (t : Tree) (start : NodeId) (tag : Tag) : List NodeId :=
  (t.search? tag (t.size + 1) [start]).getD []

end Tree

end AccessibleMarkdown
