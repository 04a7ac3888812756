import AccessibleMarkdown.Command.Sources

/-! The program: it looks up the files that a command needs, and writes what the command leaves
behind. -/

open AccessibleMarkdown

/-- What the system calls the faults that keep a file from being read. -/
def systemTexts : List (Nat × String) :=
  [(1, "Operation not permitted"), (5, "Input/output error"), (13, "Permission denied"),
   (36, "File name too long"), (40, "Too many levels of symbolic links")]

/-- The words of the system for an error, with its number, which may come with a minus. -/
def reasonOf (e : IO.Error) : String :=
  let told (code : UInt32) (details : String) :=
    let number := min code.toNat (-code).toNat
    (systemTexts.lookup number).getD details ++ " (os error " ++ toString number ++ ")"
  match e with
  | .permissionDenied _ code details | .invalidArgument _ code details => told code details
  | .hardwareFault code details | .otherError code details => told code details
  | e => toString e

/-- Whether a name leads to something, which need not be readable. -/
def leads (name : String) : IO Bool := do
  try
    let _ ← IO.FS.realPath name
    return true
  catch _ => return false

def lookUp (name : String) : IO File.Lookup := do
  try
    return .file (← IO.FS.readBinFile name)
  catch e =>
    match e with
    | .inappropriateType none _ _ => return .directory
    | .inappropriateType (some _) _ _ => return .notDirectory
    | .noFileOrDirectory .. => return .missing
    | _ =>
      -- With a slash at the end, a name leads to directories only.
      if ← leads (name ++ "/") then return .directory
      else if ← leads name then return .unreadable (reasonOf e)
      else return .unreachable (reasonOf e)

def lookUpAll (known : List (String × File.Lookup)) (names : List String) :
    IO (List (String × File.Lookup)) := do
  let found ← names.mapM fun name => do return (name, ← lookUp name)
  return found ++ known

def filesOf (known : List (String × File.Lookup)) : File.Files := fun name =>
  (known.lookup name).getD .missing

partial def readInput (stream : IO.FS.Stream) (read : ByteArray) : IO ByteArray := do
  let bytes ← stream.read 65536
  if bytes.isEmpty then return read else readInput stream (read ++ bytes)

def main (arguments : List String) : IO UInt32 := do
  let outcome ← match Command.readArguments arguments with
    | .error _ => pure (Command.run (fun _ => .missing) .empty arguments)
    | .ok request => do
      let input ← if Command.readsInput request then readInput (← IO.getStdin) .empty
        else pure .empty
      let known ← lookUpAll [] (Command.configNames request ++ Command.documentNames request)
      let known ← lookUpAll known (Command.imageNames (filesOf known) input request)
      pure (Command.run (filesOf known) input arguments)
  (← IO.getStdout).putStr outcome.output
  (← IO.getStderr).putStr outcome.errors
  return outcome.status
