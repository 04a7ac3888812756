import AccessibleMarkdown.Audit.ImageFile
import AccessibleMarkdown.Audit.Pipeline
import AccessibleMarkdown.Markdown.BlockReader
import AccessibleMarkdown.Toml.Decode
import AccessibleMarkdown.Toml.Document

/-! The configuration of a checker, and reading it from a TOML file. -/

namespace AccessibleMarkdown

structure ImageConfig where
  /-- The directory from which sources are seen; by default that of the checked file. -/
  base : Option String := none
  fixture : Option String := none
  limit : Nat := Audit.defaultImageLimit
  deriving DecidableEq, Repr

/-- The passes to run in order, by default all that need no files, and what they run on. -/
structure Config where
  passes : List Audit.Pass := Audit.Pass.all.filter (· != .imageContrast)
  markdown : Markdown.Options := {}
  images : ImageConfig := {}
  deriving DecidableEq, Repr

inductive ConfigError
  | unreadable (path : String) (fault : File.ReadFault)
  /-- The file holds no TOML. -/
  | malformed (path : String)
  /-- The file holds TOML, but no configuration. -/
  | invalid (path : String) (reason : String)
  deriving DecidableEq, Repr

namespace ConfigError

def message : ConfigError → String
  | unreadable path fault => "failed to read " ++ path ++ ": " ++ fault.message
  | malformed path => "invalid config " ++ path ++ ": TOML parse error"
  | invalid path reason => "invalid config " ++ path ++ ": " ++ reason

def cause : ConfigError → String
  | unreadable _ fault => fault.message
  | malformed _ => "TOML parse error"
  | invalid _ reason => reason

end ConfigError

namespace Config

open Toml Decoder

def passDecoder : Decoder (List Audit.Pass) :=
  list (choice (Audit.Pass.all.map fun p => (p.name, p)))

def markdownDecoder : Decoder Markdown.Options :=
  record "MarkdownConfig"
    [("tables", .of boolean fun b o => { o with tables := b }),
     ("deletion", .of boolean fun b o => { o with deletion := b })] {}

def imageDecoder : Decoder ImageConfig :=
  record "ContrastConfig"
    [("base_dir", .of (string "path string") fun s c => { c with base := some s }),
     ("fixture", .of (string "path string") fun s c => { c with fixture := some s }),
     ("max_alloc", .of natural fun n c => { c with limit := n })] {}

def decoder : Decoder Config :=
  record "Config"
    [("passes", .of passDecoder fun passes c => { c with passes }),
     ("markdown", .of markdownDecoder fun markdown c => { c with markdown }),
     ("contrast", .of imageDecoder fun images c => { c with images })] {}

def ofText (path text : String) : Except ConfigError Config :=
  match Toml.read? text with
  | none => .error (.malformed path)
  | some entries => (decoder (.table .header entries)).mapError fun m => .invalid path m.message

/-- The configuration in a file. Where there is nothing under that name, it is the default. -/
def load (files : File.Files) (path : String) : Except ConfigError Config := do
  let found := files path
  if found.isPresent then
    let text ← found.text.mapError (.unreadable path)
    ofText path text
  else return {}

end Config

end AccessibleMarkdown
