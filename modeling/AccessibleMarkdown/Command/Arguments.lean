import AccessibleMarkdown.Audit.Pass
import AccessibleMarkdown.Text.Quoted

/-!
The arguments of the command line. Options and files may come in any order; `--` ends the options. A
long option takes its value after `=` or as the next argument; short options may be run together,
and the last of them takes what follows as its value.
-/

namespace AccessibleMarkdown.Command

inductive ReportFormat
  | text
  | json
  deriving DecidableEq, Repr

def ReportFormat.ofName? : String → Option ReportFormat
  | "text" => some text
  | "json" => some json
  | _ => none

/-- What a check is asked to do. An option not given is `none`, or empty. -/
structure CheckRequest where
  files : List String := []
  config : Option String := none
  passes : List Audit.Pass := []
  format : Option ReportFormat := none
  tree : Bool := false
  verbose : Bool := false
  deriving DecidableEq, Repr

inductive Request
  | help
  | version
  | passes
  | check (request : CheckRequest)
  deriving DecidableEq, Repr

inductive UsageError
  | noCommand
  | unknownCommand (name : String)
  | unknownOption (name : String)
  | unexpectedArgument (argument : String)
  | missingValue (option : String)
  | unexpectedValue (option : String)
  | invalidValue (option value : String)
  | repeatedOption (option : String)
  deriving DecidableEq, Repr

def UsageError.message : UsageError → String
  | noCommand => "a command is missing"
  | unknownCommand name => "unknown command " ++ Text.quote name
  | unknownOption name => "unknown option " ++ Text.quote name
  | unexpectedArgument argument => "unexpected argument " ++ Text.quote argument
  | missingValue option => "the option " ++ option ++ " needs a value"
  | unexpectedValue option => "the option " ++ option ++ " takes no value"
  | invalidValue option value => "invalid value " ++ Text.quote value ++ " for " ++ option
  | repeatedOption option => "the option " ++ option ++ " is given twice"

/-! ## Options -/

inductive ValueOption
  | config | pass | format
  deriving DecidableEq, Repr

def ValueOption.name : ValueOption → String
  | config => "--config"
  | pass => "--pass"
  | format => "--format"

inductive Flag
  | tree | verbose | help
  deriving DecidableEq, Repr

def Flag.name : Flag → String
  | tree => "--tree"
  | verbose => "--verbose"
  | help => "--help"

inductive Opt
  | valued (option : ValueOption)
  | flag (flag : Flag)
  deriving DecidableEq, Repr

def Opt.ofLong? : String → Option Opt
  | "config" => some (.valued .config)
  | "pass" => some (.valued .pass)
  | "format" => some (.valued .format)
  | "tree" => some (.flag .tree)
  | "verbose" => some (.flag .verbose)
  | "help" => some (.flag .help)
  | _ => none

def Opt.ofShort? : Char → Option Opt
  | 'c' => some (.valued .config)
  | 'v' => some (.flag .verbose)
  | 'h' => some (.flag .help)
  | _ => none

/-- Gives an option its value. Only passes may be given more than once. -/
def CheckRequest.set (r : CheckRequest) (option : ValueOption) (value : String) :
    Except UsageError CheckRequest :=
  match option with
  | .config =>
    if value.isEmpty then .error (.missingValue option.name)
    else if r.config.isSome then .error (.repeatedOption option.name)
    else .ok { r with config := some value }
  | .pass =>
    match Audit.Pass.ofName? value with
    | some pass => .ok { r with passes := r.passes ++ [pass] }
    | none => .error (.invalidValue option.name value)
  | .format =>
    match ReportFormat.ofName? value with
    | some format =>
      if r.format.isSome then .error (.repeatedOption option.name)
      else .ok { r with format := some format }
    | none => .error (.invalidValue option.name value)

/-- What an argument with options in it leads to. -/
inductive Progress
  | complete (request : CheckRequest)
  /-- The next argument is the value of an option. -/
  | awaiting (option : ValueOption) (request : CheckRequest)
  | help
  deriving DecidableEq, Repr

def CheckRequest.raise (r : CheckRequest) : Flag → Except UsageError Progress
  | .tree =>
    if r.tree then .error (.repeatedOption "--tree") else .ok (.complete { r with tree := true })
  | .verbose =>
    if r.verbose then .error (.repeatedOption "--verbose")
    else .ok (.complete { r with verbose := true })
  | .help => .ok .help

/-- Reads a long option, given without its dashes. -/
def readLong (r : CheckRequest) (text : String) : Except UsageError Progress :=
  let name := (text.takeWhile (· != '=')).toString
  let value := if text.contains '=' then some (text.drop (name.length + 1)).toString else none
  match Opt.ofLong? name, value with
  | none, _ => .error (.unknownOption ("--" ++ name))
  | some (.valued option), some value => return .complete (← r.set option value)
  | some (.valued option), none => .ok (.awaiting option r)
  | some (.flag flag), none => r.raise flag
  | some (.flag flag), some _ => .error (.unexpectedValue flag.name)

/-- Reads short options, given without their dash. -/
def readShort (r : CheckRequest) : List Char → Except UsageError Progress
  | [] => .ok (.complete r)
  | c :: rest =>
    match Opt.ofShort? c with
    | none => .error (.unknownOption ("-" ++ String.singleton c))
    | some (.valued option) =>
      match rest with
      | [] => .ok (.awaiting option r)
      | '=' :: value | value => return .complete (← r.set option (String.ofList value))
    | some (.flag flag) => do
      match ← r.raise flag with
      | .complete r => readShort r rest
      | other => return other

/-- Does an argument hold options, or end them? A dash alone does not. -/
def holdsOptions (argument : String) : Bool := argument.startsWith "-" && argument != "-"

/-! ## Commands -/

def CheckRequest.addFiles (r : CheckRequest) (names : List String) :
    Except UsageError CheckRequest :=
  if names.contains "" then .error (.missingValue "FILES")
  else .ok { r with files := r.files ++ names }

def readCheck (r : CheckRequest) : List String → Except UsageError Request
  | [] => .ok (.check r)
  | argument :: rest =>
    if argument = "--" then return .check (← r.addFiles rest)
    else if !holdsOptions argument then do readCheck (← r.addFiles [argument]) rest
    else do
      let progress ←
        if argument.startsWith "--" then readLong r (argument.drop 2).toString
        else readShort r (argument.toList.drop 1)
      match progress with
      | .help => return .help
      | .complete r => readCheck r rest
      | .awaiting option r =>
        match rest with
        | [] => .error (.missingValue option.name)
        | value :: rest =>
          if holdsOptions value then .error (.missingValue option.name)
          else do readCheck (← r.set option value) rest

def readPasses : List String → Except UsageError Request
  | [] | ["--"] => .ok .passes
  | "--help" :: _ | "-h" :: _ => .ok .help
  | argument :: _ => .error (.unexpectedArgument argument)

def readHelp : List String → Except UsageError Request
  | [] | ["check"] | ["passes"] | ["help"] => .ok .help
  | arguments => .error (.unknownCommand (" ".intercalate arguments))

def readArguments : List String → Except UsageError Request
  | [] => .error .noCommand
  | "check" :: rest => readCheck {} rest
  | "passes" :: rest => readPasses rest
  | "help" :: rest => readHelp rest
  | argument :: _ =>
    if argument = "--help" ∨ argument.startsWith "-h" then .ok .help
    else if argument = "--version" ∨ argument.startsWith "-V" then .ok .version
    else if holdsOptions argument then .error (.unknownOption argument)
    else .error (.unknownCommand argument)

end AccessibleMarkdown.Command
