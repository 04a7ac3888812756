import AccessibleMarkdown.Config
import AccessibleMarkdown.Markdown.Document
import AccessibleMarkdown.Report

/-!
Checking documents: the tree of a document is built, the passes of the block stage run as its tables
are finished, and those of the tree stage run at the end.
-/

namespace AccessibleMarkdown

inductive CheckError
  | pipeline (error : Audit.PipelineError)
  | tree (error : TreeError)
  | unreadable (path : String) (fault : File.ReadFault)
  deriving DecidableEq, Repr

def CheckError.message : CheckError → String
  | pipeline e => e.message
  | tree e => e.message
  | unreadable path fault => "failed to read " ++ path ++ ": " ++ fault.message

structure Checker where
  config : Config
  pipeline : Audit.Pipeline
  codec : Image.Codec := .absent

namespace Checker

def ofConfig (config : Config) (codec : Image.Codec := .absent) :
    Except Audit.PipelineError Checker := do
  return { config, pipeline := ← Audit.Pipeline.ofPasses config.passes, codec }

/-- The table hook that runs the block stage on the parent of each table. -/
def blockStage (pipeline : Audit.Pipeline) (probe : Audit.Probe) :
    Markdown.TableHook Audit.Diagnostics :=
  fun parent (t, ds) => pipeline.runBlock probe parent t ds

/--
The tree of the document that events describe, and what the passes say about it. A pipeline without
passes in the block stage needs no hook.
-/
def audit (pipeline : Audit.Pipeline) (probe : Audit.Probe) (deletion : Bool)
    (events : List Markdown.Event) : Except TreeError (Tree × Audit.Diagnostics) := do
  let (t, ds) ←
    if pipeline.hasBlockPasses then
      Markdown.buildTree deletion (blockStage pipeline probe) #[] events
    else (Markdown.buildTree deletion Markdown.TableHook.none () events).map fun (t, _) => (t, #[])
  return pipeline.run probe t ds

/-- Where the images of a text in the directory `base` are; the configuration may say otherwise. -/
def imageSource (c : Checker) (base : String) : Audit.ImageSource :=
  let images := c.config.images
  { base := images.base.getD base, fixture := images.fixture, limit := images.limit,
    codec := c.codec }

def checkText (c : Checker) (files : File.Files) (base source text : String) :
    Except CheckError Report := do
  let events := Markdown.eventsOf c.config.markdown text
  let (tree, diagnostics) ←
    (audit c.pipeline ((c.imageSource base).probe files) c.config.markdown.deletion events)
      |>.mapError .tree
  return { source, tree, diagnostics }

/-- Checks a text that comes from no file. -/
def check (c : Checker) (files : File.Files) (source text : String) : Except CheckError Report :=
  c.checkText files "." source text

def checkFile (c : Checker) (files : File.Files) (path : String) : Except CheckError Report := do
  let text ← (files path).text.mapError (.unreadable path)
  c.checkText files ((File.parent? path).getD ".") path text

end Checker

end AccessibleMarkdown
