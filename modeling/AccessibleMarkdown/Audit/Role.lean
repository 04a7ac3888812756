/-! The ARIA roles and attributes that passes may write. -/

namespace AccessibleMarkdown.Audit

def roleAttr : String := "role"
def rowCountAttr : String := "aria-rowcount"
def rowIndexAttr : String := "aria-rowindex"

inductive LandmarkRole
  | article | banner | complementary | contentInfo | definition | document | feed | figure | form
  | main | navigation | region | search | sectionRole | table
  deriving DecidableEq, Repr

namespace LandmarkRole

def all : List LandmarkRole :=
  [article, banner, complementary, contentInfo, definition, document, feed, figure, form,
   main, navigation, region, search, sectionRole, table]

def name : LandmarkRole → String
  | article => "article"
  | banner => "banner"
  | complementary => "complementary"
  | contentInfo => "contentinfo"
  | definition => "definition"
  | document => "document"
  | feed => "feed"
  | figure => "figure"
  | form => "form"
  | main => "main"
  | navigation => "navigation"
  | region => "region"
  | search => "search"
  | sectionRole => "section"
  | table => "table"

def ofName? (name : String) : Option LandmarkRole := all.find? (·.name == name)

end LandmarkRole

inductive TableRole
  | table | rowGroup | row | cell | columnHeader
  deriving DecidableEq, Repr

namespace TableRole

def all : List TableRole := [table, rowGroup, row, cell, columnHeader]

def name : TableRole → String
  | table => "table"
  | rowGroup => "rowgroup"
  | row => "row"
  | cell => "cell"
  | columnHeader => "columnheader"

end TableRole

end AccessibleMarkdown.Audit
