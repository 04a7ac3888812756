import AccessibleMarkdown.Audit.Diagnostic
import AccessibleMarkdown.Audit.Role
import AccessibleMarkdown.Tree.Walk

/-!
Table semantics: roles for tables, row groups, rows and cells, the number of a table's children,
and the numbers of body rows.
-/

namespace AccessibleMarkdown.Audit

def setRole (role : TableRole) (e : Element) : Element := e.set roleAttr role.name

/-- Marks a table and counts its children. -/
def countParts : Visitor Diagnostics := fun id _ _ (t, ds) =>
  let count := toString (t.children id).length
  ((t.modify id fun e => (setRole .table e).set rowCountAttr count, ds), .stop)

def tableRoles : Visitor Diagnostics := .only .table countParts

/-- Marks a part of a table and goes on below it as told. -/
def markPart (role : TableRole) (below : Descent) : Visitor Diagnostics := fun id _ _ (t, ds) =>
  ((t.modify id (setRole role), ds), below)

/-- Marks a row, with its number if it has one. -/
def markRow : Visitor Diagnostics := fun id _ cx (t, ds) =>
  let number (e : Element) : Element :=
    match cx.rowIndex with
    | some row => e.set rowIndexAttr (toString row)
    | none => e
  ((t.modify id fun e => number (setRole .row e), ds), .children)

/-- Marks row groups, rows and cells, and numbers the rows of each body from 1. -/
def tableIndex : Visitor Diagnostics := .ofSlots fun
  | .thead => some (markPart .rowGroup .children)
  | .tbody => some (markPart .rowGroup .rows)
  | .tr => some markRow
  | .td => some (markPart .cell .stop)
  | .th => some (markPart .columnHeader .stop)
  | _ => none

end AccessibleMarkdown.Audit
