import AccessibleMarkdown.Tree.Basic

/-!
Walks over a tree that may change, and may grow, on the way. A visitor acts on a node and says how
the walk goes on below it; the children are read once, after the visitor has acted. Which handler of
a visitor acts is told by the kind of the node.
-/

namespace AccessibleMarkdown

/-- Where a walk is: the place of the node, and its row number if its parent numbers rows. -/
structure Context where
  path : Path := {}
  rowIndex : Option Nat := none
  deriving DecidableEq, Repr, Inhabited

namespace Context

def root : Context := {}

def ofPath (path : Path) : Context := { path }

/-- The context of the `index`-th child; row numbers are not handed down. -/
def child (cx : Context) (index : Nat) : Context := .ofPath (cx.path.child index)

def withRow (cx : Context) (row : Nat) : Context := { cx with rowIndex := some row }

def siblingIndex? (cx : Context) : Option Nat := cx.path.last?

def depth (cx : Context) : Nat := cx.path.depth

end Context

/-- How a walk goes on below a node. -/
inductive Descent
  | stop
  | children
  /-- To every child, numbered from 1. -/
  | rows
  | first
  deriving DecidableEq, Repr

/-- The visits that a descent makes, with their contexts. -/
def Descent.visits (d : Descent) (cx : Context) (ids : List NodeId) : List (NodeId × Context) :=
  match d with
  | stop => []
  | children => ids.zipIdx.map fun (id, i) => (id, cx.child i)
  | rows => ids.zipIdx.map fun (id, i) => (id, (cx.child i).withRow (i + 1))
  | first => (ids.take 1).map fun id => (id, cx.child 0)

/-- Acts on a node, given with its element; `σ` is what the visitor gathers. -/
abbrev Visitor (σ : Type) := NodeId → Element → Context → Tree × σ → (Tree × σ) × Descent

/-! ## Dispatch -/

/-- The kinds of elements that can have a handler of their own. -/
inductive HandlerSlot
  | img | p | h1 | table | thead | tbody | tr | td | th
  deriving DecidableEq, Repr

namespace HandlerSlot

def tag : HandlerSlot → Tag
  | img => .img
  | p => .p
  | h1 => .h1
  | table => .table
  | thead => .thead
  | tbody => .tbody
  | tr => .tr
  | td => .td
  | th => .th

/-- The slot of a tag; elements of all other kinds share the generic handler. -/
def ofTag? : Tag → Option HandlerSlot
  | .img => some img
  | .p => some p
  | .h1 => some h1
  | .table => some table
  | .thead => some thead
  | .tbody => some tbody
  | .tr => some tr
  | .td => some td
  | .th => some th
  | _ => none

end HandlerSlot

namespace Visitor

variable {σ : Type}

/-- What is done where there is no other handler: on to the children. -/
def generic : Visitor σ := fun _ _ _ s => (s, .children)

/-- The visitor with the given handlers; the slots without one are left to the generic handler. -/
def ofSlots (handlers : HandlerSlot → Option (Visitor σ)) : Visitor σ := fun id e cx s =>
  match (HandlerSlot.ofTag? e.tag).bind handlers with
  | some handler => handler id e cx s
  | none => generic id e cx s

/-- The visitor with one handler. -/
def only (slot : HandlerSlot) (handler : Visitor σ) : Visitor σ :=
  ofSlots fun other => if other = slot then some handler else none

end Visitor

namespace Tree

/-- Visits a node and what its visitor asks for below, at most `fuel` levels deep. -/
def visit {σ : Type} (v : Visitor σ) : Nat → NodeId → Context → Tree × σ → Tree × σ
  | 0, _, _, s => s
  | fuel + 1, id, cx, s =>
    match s.1.element? id with
    | none => s
    | some e =>
      let (s, descent) := v id e cx s
      (descent.visits cx (s.1.children id)).foldl (fun s (id, cx) => visit v fuel id cx s) s

/-- The deepest walk over `t`: as many levels as there are nodes, and one for a node that grows at
the bottom. -/
def walkDepth (t : Tree) : Nat := t.size + 1

def walk {σ : Type} (v : Visitor σ) (t : Tree) (s : σ) : Tree × σ :=
  visit v t.walkDepth rootId .root (t, s)

def walkFrom {σ : Type} (v : Visitor σ) (t : Tree) (start : NodeId) (s : σ) : Tree × σ :=
  visit v t.walkDepth start (.ofPath (t.path start)) (t, s)

end Tree

end AccessibleMarkdown
