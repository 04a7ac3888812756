import AccessibleMarkdown.Json
import AccessibleMarkdown.Tree.Path

/-! Diagnostics: what an audit has to say about a node. -/

namespace AccessibleMarkdown.Audit

inductive Severity
  /-- The trace of a change that a pass made. -/
  | debug
  /-- A finding. -/
  | info
  deriving DecidableEq, Repr

namespace Severity

def name : Severity → String
  | debug => "debug"
  | info => "info"

def label : Severity → String
  | debug => "DEBUG"
  | info => "INFO"

def atLeast (s min : Severity) : Bool := s == info || min == debug

end Severity

/-- The success criteria of WCAG 2.1 that the passes check. -/
inductive Criterion
  | nonTextContent
  | contrastMinimum
  | pageTitled
  deriving DecidableEq, Repr

namespace Criterion

def number : Criterion → String
  | nonTextContent => "1.1.1"
  | contrastMinimum => "1.4.3"
  | pageTitled => "2.4.2"

def name : Criterion → String
  | nonTextContent => "Non-text Content"
  | contrastMinimum => "Contrast (Minimum)"
  | pageTitled => "Page Titled"

def toText (c : Criterion) : String := "WCAG 2.1 - " ++ c.number ++ " " ++ c.name

def ofNumber? (number : String) : Option Criterion :=
  [nonTextContent, contrastMinimum, pageTitled].find? (·.number == number)

end Criterion

structure Diagnostic where
  rule : String
  criterion : Option Criterion := none
  severity : Severity := .info
  message : String
  path : Path := {}
  deriving DecidableEq, Repr

namespace Diagnostic

def toText (d : Diagnostic) : String :=
  match d.criterion with
  | some c => "[" ++ c.toText ++ "] " ++ d.message
  | none => d.message

def toJson (d : Diagnostic) : Json := .obj
  [("rule_id", .str d.rule),
   ("criterion", (d.criterion.map fun c => Json.str c.toText).getD .null),
   ("severity", .str d.severity.name),
   ("message", .str d.message),
   ("node_path", .str d.path.toText)]

end Diagnostic

abbrev Diagnostics := Array Diagnostic

namespace Diagnostics

def atLeast (ds : Diagnostics) (min : Severity) : Diagnostics := ds.filter (·.severity.atLeast min)

def byRule (ds : Diagnostics) (rule : String) : Diagnostics := ds.filter (·.rule == rule)

def toJson (ds : Diagnostics) : Json := .arr (ds.toList.map Diagnostic.toJson)

end Diagnostics

end AccessibleMarkdown.Audit
