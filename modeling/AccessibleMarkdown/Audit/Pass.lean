import AccessibleMarkdown.Audit.AltText
import AccessibleMarkdown.Audit.Contrast
import AccessibleMarkdown.Audit.HeadingRole
import AccessibleMarkdown.Audit.TableSemantics
import AccessibleMarkdown.Audit.Title

/-! Passes: the rules of an audit, each applied to the part of a tree below a node. -/

namespace AccessibleMarkdown.Audit

inductive Stage
  /-- While the document is read, on the parent of each finished table. -/
  | block
  /-- Over the finished tree. -/
  | tree
  deriving DecidableEq, Repr

def Stage.label : Stage → String
  | block => "Block"
  | tree => "Tree"

inductive Pass
  | altCheck | titleCheck | ariaRole | ariaTableRole | ariaTableIndex | imageContrast
  deriving DecidableEq, Repr

namespace Pass

def all : List Pass :=
  [altCheck, titleCheck, ariaRole, ariaTableRole, ariaTableIndex, imageContrast]

def name : Pass → String
  | altCheck => "alt-check"
  | titleCheck => "title-check"
  | ariaRole => "aria-role"
  | ariaTableRole => "aria-table-role"
  | ariaTableIndex => "aria-table-index"
  | imageContrast => "image-contrast"

def label : Pass → String
  | altCheck => "AltCheck"
  | titleCheck => "TitleCheck"
  | ariaRole => "AriaRole"
  | ariaTableRole => "AriaTableRole"
  | ariaTableIndex => "AriaTableIndex"
  | imageContrast => "ImageContrast"

def ofName? (name : String) : Option Pass := all.find? (·.name == name)

def stage : Pass → Stage
  | ariaTableRole => .block
  | _ => .tree

/-- Applies a pass at and below `scope`; the title is always looked for at the root. -/
def run (probe : Probe) (pass : Pass) (scope : NodeId) (t : Tree) (ds : Diagnostics) :
    Tree × Diagnostics :=
  match pass with
  | altCheck =>
    let (t, ds) := t.walkFrom altRepair scope ds
    t.walkFrom altDuplicates scope ds
  | titleCheck => (t, ds ++ (titleFaults t).toArray)
  | ariaRole => t.walkFrom headingRoles scope ds
  | ariaTableRole => t.walkFrom tableRoles scope ds
  | ariaTableIndex => t.walkFrom tableIndex scope ds
  | imageContrast => t.walkFrom (contrastReport probe) scope ds

end Pass

end AccessibleMarkdown.Audit
