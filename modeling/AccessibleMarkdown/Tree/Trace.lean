import AccessibleMarkdown.Tree.Walk

/-! Tracing walks: a visitor that has a handler in every slot, records the nodes
that they are asked about, and steers by their tags. -/

namespace AccessibleMarkdown

inductive TraceAction
  | descend
  | prune
  | row
  | first
  /-- Appends an `em` to the node and descends. -/
  | grow
  /-- Appends an `hr` to the node's parent and descends. -/
  | sibling
  deriving DecidableEq, Repr

structure TraceRecord where
  tag : Tag
  node : NodeId
  context : Context
  deriving DecidableEq, Repr

/-- Records every node that has a slot, then acts as the tag of the slot asks. -/
def tracer (actions : Tag → TraceAction) : Visitor (Array TraceRecord) :=
  .ofSlots fun slot => some fun id e cx (t, seen) =>
    let seen := seen.push ⟨e.tag, id, cx⟩
    match actions slot.tag with
    | .descend => ((t, seen), .children)
    | .prune => ((t, seen), .stop)
    | .row => ((t, seen), .rows)
    | .first => ((t, seen), .first)
    | .grow => (((t.append id { tag := .other "em" }).1, seen), .children)
    | .sibling =>
      match t.parent? id with
      | some p => (((t.append p { tag := .other "hr" }).1, seen), .children)
      | none => ((t, seen), .children)

end AccessibleMarkdown
