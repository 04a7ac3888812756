import AccessibleMarkdown.Checker

/-! Failures of a command, told with what lies behind them. -/

namespace AccessibleMarkdown.Command

inductive Failure
  | config (error : ConfigError)
  | pipeline (error : Audit.PipelineError)
  /-- What came on standard input is no text. -/
  | input (fault : File.ReadFault)
  | file (path : String) (error : CheckError)
  | check (error : CheckError)
  deriving DecidableEq, Repr

namespace Failure

def message : Failure → String
  | config e => e.message
  | pipeline e => e.message
  | input _ => "failed to read stdin"
  | file path _ => "checking " ++ path
  | check e => e.message

/-- What lies behind the message, the nearest first. -/
def causes : Failure → List String
  | config e => [e.cause]
  | input fault => [fault.message]
  | file _ e =>
    match e with
    | .unreadable _ fault => [e.message, fault.message]
    | _ => [e.message]
  | pipeline _ | check _ => []

/-- Puts `first` in front of a text, and as many blanks in front of its other lines. -/
def indent (first text : String) : String :=
  first ++ ("\n" ++ "".pushn ' ' first.length).intercalate (text.splitOn "\n") ++ "\n"

def toText (f : Failure) : String :=
  "Error: " ++ f.message ++ "\n" ++
    match f.causes with
    | [] => ""
    | [cause] => "\nCaused by:\n" ++ indent "    " cause
    | causes => "\nCaused by:\n"
        ++ String.join
          (causes.zipIdx.map fun (cause, i) => indent ("    " ++ toString i ++ ": ") cause)

end Failure

end AccessibleMarkdown.Command
