import AccessibleMarkdown.Audit.Diagnostic
import AccessibleMarkdown.Tree.Walk

/-!
Alternative text of images. An image without it, or with an empty one, is reported and gets a
placeholder; then a text that an earlier image of the same paragraph already has is reported.
-/

namespace AccessibleMarkdown.Audit

def altPlaceholder : String := "No alt text provided"

def srcOf (img : Element) : String := (img.get? "src").getD ""

/-- What is wrong with the alternative text of an image: the rule it breaks, and the message. -/
def altFault? (img : Element) : Option (String × String) :=
  match img.get? "alt" with
  | none => some ("alt-missing", "Found an image with no alt text for " ++ srcOf img)
  | some "" => some ("alt-empty", "Found an image with empty alt text for " ++ srcOf img)
  | some _ => none

/-- Reports and repairs a missing or empty `alt`. -/
def repairAlt : Visitor Diagnostics := fun id e cx (t, ds) =>
  match altFault? e with
  | some (rule, message) =>
    ((t.modify id (·.set "alt" altPlaceholder),
      ds.push { rule, criterion := some .nonTextContent, message, path := cx.path }), .stop)
  | none => ((t, ds), .stop)

def altRepair : Visitor Diagnostics := .only .img repairAlt

/-- The repeated texts among the images of a list of siblings; `seen` are the texts before it, and
`index` is the position of its head. -/
def altRepeats (t : Tree) (cx : Context) (seen : List String) (index : Nat) :
    List NodeId → List Diagnostic
  | [] => []
  | id :: rest =>
    match (t.element? id).filter (·.tag == .img) with
    | none => altRepeats t cx seen (index + 1) rest
    | some img =>
      match img.get? "alt" with
      | none => altRepeats t cx seen (index + 1) rest
      | some alt =>
        if alt ∈ seen then
          { rule := "alt-duplicate", criterion := some .nonTextContent,
            message := "Found an image with duplicate alt text(" ++ alt ++ ") for " ++ srcOf img,
            path := cx.path.child index } :: altRepeats t cx seen (index + 1) rest
        else altRepeats t cx (alt :: seen) (index + 1) rest

/-- Reports repeated texts among the images that stand directly in a paragraph. -/
def reportRepeats : Visitor Diagnostics := fun id _ cx (t, ds) =>
  ((t, ds ++ (altRepeats t cx [] 0 (t.children id)).toArray), .stop)

def altDuplicates : Visitor Diagnostics := .only .p reportRepeats

end AccessibleMarkdown.Audit
