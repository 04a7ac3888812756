import AccessibleMarkdown.Command.Arguments
import AccessibleMarkdown.Command.Failure

/-! Running a command: from arguments, standard input and files to what is written, and the
status. -/

namespace AccessibleMarkdown.Command

structure Outcome where
  status : UInt32 := 0
  output : String := ""
  errors : String := ""
  deriving DecidableEq, Repr

def programName : String := "mdwcag"

def defaultConfig : String := "mdwcag.toml"

def usage : String :=
  "Usage: " ++ programName ++ " check [--config FILE] [--pass NAME]... [--format text|json]\n"
    ++ "           [--tree] [--verbose] [FILES]...\n"
    ++ "       " ++ programName ++ " passes\n"

def passList : String :=
  String.join (Audit.Pass.all.map fun p =>
    p.name.pushn ' ' (18 - p.name.length) ++ " " ++ p.stage.label ++ " stage\n")

def checkerFor (files : File.Files) (r : CheckRequest) (codec : Image.Codec := .absent) :
    Except Failure Checker := do
  let config ← (Config.load files (r.config.getD defaultConfig)).mapError .config
  let config := if r.passes.isEmpty then config else { config with passes := r.passes }
  (Checker.ofConfig config codec).mapError .pipeline

/-- The reports on the files of a request, or on standard input if it has none. -/
def reportsFor (checker : Checker) (files : File.Files) (input : ByteArray) (r : CheckRequest) :
    Except Failure (List Report) :=
  if r.files.isEmpty then do
    let text ← (File.decodeText input).mapError .input
    return [← (checker.check files "-" text).mapError .check]
  else r.files.mapM fun path => (checker.checkFile files path).mapError (.file path)

def renderFor (r : CheckRequest) (reports : List Report) : String :=
  match r.format.getD .text with
  | .text => Report.renderText (if r.verbose then .debug else .info) r.tree reports
  | .json => Report.renderJson reports ++ "\n"

def runCheck (files : File.Files) (input : ByteArray) (r : CheckRequest)
    (codec : Image.Codec := .absent) : Outcome :=
  let reports := do reportsFor (← checkerFor files r codec) files input r
  match reports with
  | .error failure => { status := 1, errors := failure.toText }
  | .ok reports =>
    { status := if reports.any (·.hasFindings) then 1 else 0, output := renderFor r reports }

/-- Runs the command that arguments ask for. Findings and failures give status 1, misuse gives 2. -/
def run (files : File.Files) (input : ByteArray) (arguments : List String)
    (codec : Image.Codec := .absent) : Outcome :=
  match readArguments arguments with
  | .error e => { status := 2, errors := "error: " ++ e.message ++ "\n\n" ++ usage }
  | .ok .help => { output := usage }
  | .ok .version => { output := programName ++ " 0.1.0\n" }
  | .ok .passes => { output := passList }
  | .ok (.check r) => runCheck files input r codec

end AccessibleMarkdown.Command
