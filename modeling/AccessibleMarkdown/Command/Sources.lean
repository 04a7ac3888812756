import AccessibleMarkdown.Command.Run

/-!
The files that a command looks at, in three rounds: the names in the second and third round depend
on what was found in those before. A command run on just these files does what it does on all of
them.
-/

namespace AccessibleMarkdown.Command

def configNames : Request → List String
  | .check r => [r.config.getD defaultConfig]
  | _ => []

def documentNames : Request → List String
  | .check r => r.files
  | _ => []

def imageSources (o : Markdown.Options) (text : String) : List String :=
  match Markdown.parse o text with
  | .ok t => (t.findAll Tree.rootId .img).filterMap fun id => (t.element? id).bind (·.get? "src")
  | .error _ => []

def imageNamesOf (checker : Checker) (base text : String) : List String :=
  (imageSources checker.config.markdown text).map (checker.imageSource base).resolve

def imageNames (files : File.Files) (input : ByteArray) : Request → List String
  | .check r =>
    match checkerFor files r with
    | .error _ => []
    | .ok checker =>
      if !checker.pipeline.contains .imageContrast then []
      else if r.files.isEmpty then
        match File.decodeText input with
        | .ok text => imageNamesOf checker "." text
        | .error _ => []
      else r.files.flatMap fun path =>
        match (files path).text with
        | .ok text => imageNamesOf checker ((File.parent? path).getD ".") text
        | .error _ => []
  | _ => []

def readsInput : Request → Bool
  | .check r => r.files.isEmpty
  | _ => false

end AccessibleMarkdown.Command
