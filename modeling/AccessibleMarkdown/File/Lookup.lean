/-! Files as they are found under their names. -/

namespace AccessibleMarkdown.File

inductive Lookup
  | file (bytes : ByteArray)
  | directory
  | missing
  /-- A file stands where the name needs a directory. -/
  | notDirectory
  /-- What stands there cannot be opened or read, for a reason that the system gives. -/
  | unreadable (reason : String)
  /-- The system does not even say what stands there. -/
  | unreachable (reason : String)

/-- All files, by name. -/
abbrev Files := String → Lookup

inductive ReadFault
  | missing
  | directory
  | notDirectory
  | invalidText
  | system (reason : String)
  deriving DecidableEq, Repr

def ReadFault.message : ReadFault → String
  | missing => "No such file or directory (os error 2)"
  | directory => "Is a directory (os error 21)"
  | notDirectory => "Not a directory (os error 20)"
  | invalidText => "stream did not contain valid UTF-8"
  | system reason => reason

def decodeText (bytes : ByteArray) : Except ReadFault String :=
  match String.fromUTF8? bytes with
  | some text => .ok text
  | none => .error .invalidText

namespace Lookup

def isPresent : Lookup → Bool
  | file _ | directory | unreadable _ => true
  | missing | notDirectory | unreachable _ => false

def text : Lookup → Except ReadFault String
  | file bytes => decodeText bytes
  | directory => .error .directory
  | missing => .error .missing
  | notDirectory => .error .notDirectory
  | unreadable reason | unreachable reason => .error (.system reason)

end Lookup

end AccessibleMarkdown.File
