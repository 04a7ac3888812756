import AccessibleMarkdown.Audit.Pass

/-! Pipelines: passes in the order in which they run, each at most once. -/

namespace AccessibleMarkdown.Audit

inductive PipelineError
  | unknownPass (name : String)
  | duplicatePass (pass : Pass)
  deriving DecidableEq, Repr

def PipelineError.message : PipelineError → String
  | unknownPass name => "unknown pass `" ++ name ++ "`"
  | duplicatePass pass => "pass `" ++ pass.name ++ "` is listed more than once"

def Pass.parse (name : String) : Except PipelineError Pass :=
  match Pass.ofName? name with
  | some pass => .ok pass
  | none => .error (.unknownPass name)

structure Pipeline where
  passes : List Pass := []
  deriving DecidableEq, Repr

namespace Pipeline

def empty : Pipeline := {}

def contains (p : Pipeline) (pass : Pass) : Bool := p.passes.contains pass

/-- Adds a pass, and says why if it is not added. The pipeline is looked through first. -/
def enroll (p : Pipeline) (pass : Pass) : Pipeline × Except PipelineError Unit :=
  if p.contains pass then (p, .error (.duplicatePass pass)) else (⟨p.passes ++ [pass]⟩, .ok ())

/-- The pipeline with the pass added, for those who go on with it only if that is done. -/
def register (p : Pipeline) (pass : Pass) : Except PipelineError Pipeline :=
  match p.enroll pass with
  | (longer, .ok ()) => .ok longer
  | (_, .error err) => .error err

end Pipeline

/-- A pipeline that is being put together, and whether the one probe for its passes is still
there. -/
structure Assembly where
  pipeline : Pipeline := .empty
  probeLeft : Bool := true
  deriving DecidableEq, Repr

namespace Assembly

/-- The pass that estimates contrast takes the probe with it; without one it cannot be made. -/
def takeProbe (a : Assembly) : Pass → Except PipelineError Assembly
  | .imageContrast =>
    if a.probeLeft then .ok { a with probeLeft := false }
    else .error (.duplicatePass .imageContrast)
  | _ => .ok a

def add (a : Assembly) (pass : Pass) : Except PipelineError Assembly := do
  let a ← a.takeProbe pass
  return { a with pipeline := ← a.pipeline.register pass }

end Assembly

namespace Pipeline

def ofPasses (passes : List Pass) : Except PipelineError Pipeline := do
  return (← passes.foldlM Assembly.add {}).pipeline

def hasBlockPasses (p : Pipeline) : Bool := p.passes.any (·.stage == .block)

def toText (p : Pipeline) : String :=
  "Pipeline \x7b passes: [" ++ ", ".intercalate (p.passes.map Pass.label) ++ "] \x7d"

def runStage (p : Pipeline) (probe : Probe) (stage : Stage) (scope : NodeId) (t : Tree)
    (ds : Diagnostics) : Tree × Diagnostics :=
  (p.passes.filter (·.stage == stage)).foldl (fun (t, ds) pass => pass.run probe scope t ds) (t, ds)

def runBlock (p : Pipeline) (probe : Probe) (scope : NodeId) (t : Tree) (ds : Diagnostics) :
    Tree × Diagnostics :=
  p.runStage probe .block scope t ds

def run (p : Pipeline) (probe : Probe) (t : Tree) (ds : Diagnostics) : Tree × Diagnostics :=
  p.runStage probe .tree Tree.rootId t ds

/-- Runs both stages over a tree that is already built. -/
def runAll (p : Pipeline) (probe : Probe) (t : Tree) (ds : Diagnostics) : Tree × Diagnostics :=
  let (t, ds) := p.runBlock probe Tree.rootId t ds
  p.run probe t ds

end Pipeline

end AccessibleMarkdown.Audit
