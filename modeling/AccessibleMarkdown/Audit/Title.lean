import AccessibleMarkdown.Audit.Diagnostic
import AccessibleMarkdown.Tree.Basic

/-! The title of a document: a lone line break as the text of the root says that there is none. -/

namespace AccessibleMarkdown.Audit

def noTitleMark : String := "\n"

def titleFaults (t : Tree) : List Diagnostic :=
  if (t.element? Tree.rootId).bind (·.text) = some noTitleMark then
    [{ rule := "title-missing", criterion := some .pageTitled, message := "No title found" }]
  else []

end AccessibleMarkdown.Audit
