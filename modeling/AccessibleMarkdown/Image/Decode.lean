import AccessibleMarkdown.Image.Format
import AccessibleMarkdown.Image.Png
import AccessibleMarkdown.Text.Quoted

/-!
From the bytes of an image file to luminances. Plain PNG is read here; what reads the rest of the
formats in use on the web is a parameter.
-/

namespace AccessibleMarkdown.Image

inductive DecodeError
  /-- Neither the bytes nor the name tell the format. -/
  | undetermined
  | unknownExtension (extension : String)
  | unsupported (format : Format)
  | png (fault : Png.Fault)
  /-- What a codec says of a file. -/
  | codec (message : String)
  deriving DecidableEq, Repr

namespace DecodeError

/-- An extension in quotes, in which an apostrophe is escaped as well. -/
def quoteExtension (extension : String) : String :=
  String.ofList
    ((Text.quote extension).toList.flatMap fun c => if c = '\'' then ['\\', '\''] else [c])

def message : DecodeError → String
  | undetermined => "The image format could not be determined"
  | unknownExtension extension =>
    "The file extension \x60." ++ quoteExtension extension ++
      "\x60 was not recognized as an image format"
  | unsupported format => "The image format " ++ format.name ++ " is not supported"
  | png .unexpectedEnd => "unexpected end of file"
  | png .memoryLimit => "Memory limit exceeded"
  | png .invalidSignature => "Format error decoding Png: Invalid PNG signature."
  | codec message => message

end DecodeError

/-- The format of a file, by its bytes if they tell it, else by the extension of its name. -/
def formatOf (extension : Option String) (file : List UInt8) : Except DecodeError Format :=
  match Format.ofBytes? file, extension with
  | some format, _ => .ok format
  | none, none => .error .undetermined
  | none, some extension =>
    match Format.ofExtension? extension with
    | some format => .ok format
    | none => .error (.unknownExtension extension)

/-- What reads a file of a format, with the most bytes that the decoded image may take. -/
abbrev Codec := Format → Nat → List UInt8 → Except DecodeError (List UInt8)

/-- The codec that has no format. -/
def Codec.absent : Codec := fun format _ _ => .error (.unsupported format)

/--
The luminances of an image file, if they take no more than `limit` bytes before the colours go. Of
PNG, the codec has what is not read here; of the formats in use on the web, all others; and no other
format is supported, whatever the codec has.
-/
def decode (codec : Codec) (limit : Nat) (extension : Option String) (file : List UInt8) :
    Except DecodeError (List UInt8) := do
  match ← formatOf extension file with
  | .png =>
    match ← (Png.decode? limit file).mapError .png with
    | some luminances => return luminances
    | none => codec .png limit file
  | .jpeg => codec .jpeg limit file
  | .gif => codec .gif limit file
  | .webP => codec .webP limit file
  | format => .error (.unsupported format)

end AccessibleMarkdown.Image
