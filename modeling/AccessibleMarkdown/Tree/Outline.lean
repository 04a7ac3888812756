import AccessibleMarkdown.Tree.Basic
import AccessibleMarkdown.Text.Quoted

/-! The outline of a tree: an element a line, in document order, indented by its depth. -/

namespace AccessibleMarkdown

/-- The line of an element: tag, attributes, text and tail. -/
def Element.outline (e : Element) : String :=
  e.tag.name ++
    String.join (e.attrs.toList.map fun (name, value) => " " ++ name ++ "=" ++ Text.quote value)
    ++ (match e.text with
      | some text => " text=" ++ Text.quote text
      | none => "")
    ++ (match e.tail with
      | some tail => " tail=" ++ Text.quote tail
      | none => "")

namespace Tree

/-- The lines of the nodes at or below `id`. There is no answer where they are more than `fuel`
levels deep. -/
def outlineFrom? (t : Tree) : Nat → NodeId → Nat → Option String
  | 0, _, _ => none
  | fuel + 1, id, depth =>
    match t.element? id with
    | none => some ""
    | some e => do
      let below ← (t.children id).mapM fun c => outlineFrom? t fuel c (depth + 1)
      return String.ofList (List.replicate (2 * depth) ' ') ++ e.outline ++ "\n" ++
        String.join below

def outline (t : Tree) : String := (t.outlineFrom? t.size rootId 0).getD ""

end Tree

end AccessibleMarkdown
