import AccessibleMarkdown.Audit.Contrast
import AccessibleMarkdown.File.Lookup
import AccessibleMarkdown.File.Name
import AccessibleMarkdown.Image.Decode

/-! Images in files: where they are looked for, and what their luminance is. -/

namespace AccessibleMarkdown.Audit

def defaultImageLimit : Nat := 64 * 1024 * 1024

/-- How the sources of images lead to files. -/
structure ImageSource where
  /-- The directory from which sources are seen. -/
  base : String := "."
  /-- A file that stands for every image. -/
  fixture : Option String := none
  /-- The most bytes that a decoded image may take. -/
  limit : Nat := defaultImageLimit
  /-- What reads the images that are not read here. -/
  codec : Image.Codec := .absent

namespace ImageSource

def resolve (s : ImageSource) (src : String) : String := s.fixture.getD (File.join s.base src)

def load (s : ImageSource) (files : File.Files) (path : String) : Except ProbeError (List UInt8) :=
  match files path with
  | .file bytes =>
    (Image.decode s.codec s.limit (File.extension? path) bytes.data.toList).mapError fun e =>
      .undecodable path e.message
  | .unreadable reason => .error (.unreadable path reason)
  | .directory | .missing | .notDirectory | .unreachable _ => .error (.notFound path)

def probe (s : ImageSource) (files : File.Files) : Probe := fun src => do
  let path := s.resolve src
  match Image.spread (← s.load files path) with
  | some value => .ok value
  | none => .error (.noPixels path)

end ImageSource

end AccessibleMarkdown.Audit
