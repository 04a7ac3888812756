import AccessibleMarkdown.Element.Tag
import AccessibleMarkdown.Element.Attributes

/-!
Elements: a tag, attributes, the text before the first child, and the tail, which is the text that
follows the element inside its parent.
-/

namespace AccessibleMarkdown

structure Element where
  tag : Tag
  attrs : Attributes := {}
  text : Option String := none
  tail : Option String := none
  deriving DecidableEq, Repr

namespace Element

def get? (e : Element) (name : String) : Option String := e.attrs.get? name

def set (e : Element) (name value : String) : Element := { e with attrs := e.attrs.set name value }

def agrees (a b : Element) : Bool :=
  a.tag == b.tag && a.attrs.agrees b.attrs && a.text == b.text && a.tail == b.tail

end Element

end AccessibleMarkdown
