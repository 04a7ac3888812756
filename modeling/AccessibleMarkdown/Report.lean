import AccessibleMarkdown.Audit.Diagnostic
import AccessibleMarkdown.Tree.Outline

/-! Reports on checked documents, as text with a finding a line, and as JSON. -/

namespace AccessibleMarkdown

structure Report where
  source : String
  /-- The tree after all passes. -/
  tree : Tree
  diagnostics : Audit.Diagnostics

namespace Report

def findings (r : Report) (min : Audit.Severity) : Audit.Diagnostics := r.diagnostics.atLeast min

def hasFindings (r : Report) : Bool := !(r.findings .info).isEmpty

def line (r : Report) (d : Audit.Diagnostic) : String :=
  r.source ++ ":" ++ d.path.toText ++ ": " ++ d.toText ++ " (" ++ d.rule ++ ")\n"

/-- The lines of a report, and its tree below them if `withTree`. -/
def toText (min : Audit.Severity) (withTree : Bool) (r : Report) : String :=
  String.join ((r.findings min).toList.map r.line)
    ++ (if withTree then "--- " ++ r.source ++ " ---\n" ++ r.tree.outline else "")

def toJson (r : Report) : Json := .obj
  [("source", .str r.source), ("diagnostics", Audit.Diagnostics.toJson r.diagnostics)]

/-- The last line of a text, which counts the findings and the documents. -/
def summary (reports : List Report) : String :=
  toString (reports.foldl (fun n r => n + (r.findings .info).size) 0) ++ " finding(s) in "
    ++ toString reports.length ++ " document(s)\n"

def renderText (min : Audit.Severity) (withTree : Bool) (reports : List Report) : String :=
  String.join (reports.map (toText min withTree)) ++ summary reports

def renderJson (reports : List Report) : String := (Json.arr (reports.map toJson)).pretty

end Report

end AccessibleMarkdown
