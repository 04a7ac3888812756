import AccessibleMarkdown.Text.CharSet

/-! Image formats, and telling them by the first bytes of a file or by the extension of its name. -/

namespace AccessibleMarkdown.Image

inductive Format
  | png | jpeg | gif | webP | tiff | tga | dds | bmp | ico | hdr | openExr | pnm
  | farbfeld | avif | qoi
  deriving DecidableEq, Repr

namespace Format

def name : Format → String
  | png => "Png"
  | jpeg => "Jpeg"
  | gif => "Gif"
  | webP => "WebP"
  | tiff => "Tiff"
  | tga => "Tga"
  | dds => "Dds"
  | bmp => "Bmp"
  | ico => "Ico"
  | hdr => "Hdr"
  | openExr => "OpenExr"
  | pnm => "Pnm"
  | farbfeld => "Farbfeld"
  | avif => "Avif"
  | qoi => "Qoi"

/-- The extensions of file names, in lower case. -/
def extensions : Format → List String
  | png => ["png", "apng"]
  | jpeg => ["jpg", "jpeg", "jfif"]
  | gif => ["gif"]
  | webP => ["webp"]
  | tiff => ["tif", "tiff"]
  | tga => ["tga"]
  | dds => ["dds"]
  | bmp => ["bmp"]
  | ico => ["ico"]
  | hdr => ["hdr"]
  | openExr => ["exr"]
  | pnm => ["pbm", "pam", "ppm", "pgm", "pnm"]
  | farbfeld => ["ff"]
  | avif => ["avif"]
  | qoi => ["qoi"]

def all : List Format :=
  [png, jpeg, gif, webP, tiff, tga, dds, bmp, ico, hdr, openExr, pnm, farbfeld, avif, qoi]

/-- The format that an extension stands for, in either case. -/
def ofExtension? (extension : String) : Option Format :=
  all.find? (·.extensions.contains extension.toLower)

/--
The bytes that files start with, in hexadecimal; `..` is any byte. No two of them agree on one file.
-/
def signatures : List (Format × String) :=
  [(png, "89 50 4e 47 0d 0a 1a 0a"),
   (jpeg, "ff d8 ff"),
   (gif, "47 49 46 38 39 61"),
   (gif, "47 49 46 38 37 61"),
   (webP, "52 49 46 46 .. .. .. .. 57 45 42 50"),
   (tiff, "4d 4d 00 2a"),
   (tiff, "49 49 2a 00"),
   (dds, "44 44 53 20"),
   (bmp, "42 4d"),
   (ico, "00 00 01 00"),
   (hdr, "23 3f 52 41 44 49 41 4e 43 45"),
   (avif, "00 00 .. .. 66 74 79 70 61 76 69 66"),
   (openExr, "76 2f 31 01"),
   (qoi, "71 6f 69 66"),
   (pnm, "50 31"),
   (pnm, "50 32"),
   (pnm, "50 33"),
   (pnm, "50 34"),
   (pnm, "50 35"),
   (pnm, "50 36"),
   (pnm, "50 37"),
   (farbfeld, "66 61 72 62 66 65 6c 64")]

def startsAs : List String → List UInt8 → Bool
  | [], _ => true
  | _ :: _, [] => false
  | digits :: signature, byte :: bytes =>
    (digits == ".." || Text.ofDigits 16 digits.toList == byte.toNat) && startsAs signature bytes

def ofBytes? (bytes : List UInt8) : Option Format :=
  (signatures.find? fun (_, signature) => startsAs (Text.words signature) bytes).map Prod.fst

end Format

end AccessibleMarkdown.Image
