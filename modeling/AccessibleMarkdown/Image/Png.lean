import AccessibleMarkdown.Image.Deflate
import AccessibleMarkdown.Image.Luminance

/-!
Reading PNG: a signature, then chunks. The first chunk is the header, others hold the palette and
the compressed rows of pixels.
-/

namespace AccessibleMarkdown.Image.Png

inductive Fault
  | unexpectedEnd
  | invalidSignature
  | memoryLimit
  deriving DecidableEq, Repr

/-! ## Chunks -/

def signature : List UInt8 := [0x89, 0x50, 0x4e, 0x47, 0x0d, 0x0a, 0x1a, 0x0a]

/-- Takes the signature, which is looked at four bytes at a time. -/
def takeSignature (bytes : List UInt8) : Except Fault (List UInt8) :=
  let check := fun (expected bytes : List UInt8) => match takeExactly? 4 bytes with
    | none => Except.error Fault.unexpectedEnd
    | some (four, rest) => if four = expected then .ok rest else .error .invalidSignature
  check (signature.take 4) bytes >>= check (signature.drop 4)

structure Chunk where
  /-- Four letters as bytes. -/
  kind : List UInt8
  data : List UInt8
  deriving DecidableEq, Repr

/-- Cuts bytes into chunks, as far as they are whole; the checksums are not looked at. -/
def chunks : Nat → List UInt8 → List Chunk
  | 0, _ => []
  | fuel + 1, bytes =>
    let chunk := do
      let (length, rest) ← takeExactly? 4 bytes
      let (kind, rest) ← takeExactly? 4 rest
      let (data, rest) ← takeExactly? (bigEndian length) rest
      some (({ kind, data } : Chunk), rest.drop 4)
    match chunk with
    | some (c, rest) => c :: chunks fuel rest
    | none => []

def Chunk.hasKind (name : String) (c : Chunk) : Bool := c.kind == name.toUTF8.data.toList

/-! ## Header -/

inductive Colour
  | gray | rgb | palette | grayAlpha | rgbAlpha
  deriving DecidableEq, Repr

namespace Colour

def ofCode? : UInt8 → Option Colour
  | 0 => some gray
  | 2 => some rgb
  | 3 => some palette
  | 4 => some grayAlpha
  | 6 => some rgbAlpha
  | _ => none

/-- Samples of a pixel in the file. -/
def channels : Colour → Nat
  | gray | palette => 1
  | grayAlpha => 2
  | rgb => 3
  | rgbAlpha => 4

def depths : Colour → List Nat
  | gray => [1, 2, 4, 8, 16]
  | palette => [1, 2, 4, 8]
  | _ => [8, 16]

/-- Samples of a pixel once it is decoded: a palette gives its colours, and transparency an
alpha. -/
def decodedChannels (transparent : Bool) : Colour → Nat
  | gray => if transparent then 2 else 1
  | rgb | palette => if transparent then 4 else 3
  | grayAlpha => 2
  | rgbAlpha => 4

end Colour

structure Header where
  width : Nat
  height : Nat
  depth : Nat
  colour : Colour
  deriving DecidableEq, Repr

namespace Header

def ofChunk? (c : Chunk) : Option Header :=
  match c.data.drop 8 with
  | [depth, colour, 0, 0, 0] => do
    let colour ← Colour.ofCode? colour
    let header : Header :=
      { width := bigEndian (c.data.take 4), height := bigEndian ((c.data.drop 4).take 4),
        depth := depth.toNat, colour }
    if c.hasKind "IHDR" ∧ header.width ≠ 0 ∧ header.height ≠ 0 ∧ header.depth ∈ colour.depths then
      some header
    else none
  | _ => none

def bitsPerPixel (h : Header) : Nat := h.depth * h.colour.channels

/-- Bytes of a row, without the one that says its filter. -/
def rowSize (h : Header) : Nat := (h.width * h.bitsPerPixel + 7) / 8

def decodedSize (h : Header) (transparent : Bool) : Nat :=
  h.width * h.height * h.colour.decodedChannels transparent * (if h.depth = 16 then 2 else 1)

end Header

/-! ## Rows -/

/-- Of left, above and above left, the one nearest to left + above - above left. -/
def paeth (left above corner : UInt8) : UInt8 :=
  let estimate : Int := left.toNat + above.toNat - corner.toNat
  let far := fun (b : UInt8) => (estimate - b.toNat).natAbs
  if far left ≤ far above ∧ far left ≤ far corner then left
  else if far above ≤ far corner then above
  else corner

/-- What a filter expects from the bytes around. -/
def predict (filter left above corner : UInt8) : Option UInt8 :=
  match filter with
  | 0 => some 0
  | 1 => some left
  | 2 => some above
  | 3 => some (UInt8.ofNat ((left.toNat + above.toNat) / 2))
  | 4 => some (paeth left above corner)
  | _ => none

/--
Restores a row. `done` holds the bytes restored so far, the last one first; `before` starts with the
bytes above, of which the `step`-th from the end of `passed` is above left.
-/
def restoreRow (filter : UInt8) (step : Nat) :
    (done passed before row : List UInt8) → Option (List UInt8)
  | done, _, _, [] => some done.reverse
  | done, passed, before, byte :: row => do
    let above := before.headD 0
    let neighbour := fun (bytes : List UInt8) => (bytes.drop (step - 1)).headD 0
    let expected ← predict filter (neighbour done) above (neighbour passed)
    restoreRow filter step ((byte + expected) :: done) (above :: passed) before.tail row

/-- Restores all rows of `size` bytes, each after the byte that says its filter. -/
def restoreRows (size step : Nat) : Nat → (above bytes : List UInt8) → Option (List (List UInt8))
  | 0, _, _ => some []
  | count + 1, above, bytes => do
    let (line, rest) ← takeExactly? (size + 1) bytes
    let row ← restoreRow (line.headD 0) step [] [] above line.tail
    let rows ← restoreRows size step count row rest
    some (row :: rows)

/-! ## Pixels -/

/-- The samples of a row, as they stand in the file. -/
def samples (h : Header) (row : List UInt8) : List Nat :=
  let count := h.width * h.colour.channels
  match h.depth with
  | 8 => row.map (·.toNat)
  | 16 => (groups 2 count row).map bigEndian
  | depth => (row.flatMap (splitByte depth)).take count

/-- The luminance of a pixel; an alpha sample does not count. -/
def pixelLuminance (h : Header) (palette : Array (List UInt8)) (pixel : List Nat) : Option UInt8 :=
  let top := Nat.pow 2 h.depth - 1
  match h.colour, pixel with
  | .gray, [v] | .grayAlpha, [v, _] => some (grayLuminance top v)
  | .rgb, [r, g, b] | .rgbAlpha, [r, g, b, _] => some (colourLuminance top r g b)
  | .palette, [i] =>
    match palette[i]? with
    | some [r, g, b] => some (colourLuminance 255 r.toNat g.toNat b.toNat)
    | _ => none
  | _, _ => none

def rowLuminances (h : Header) (palette : Array (List UInt8)) (row : List UInt8) :
    Option (List UInt8) :=
  (groups h.colour.channels h.width (samples h row)).mapM (pixelLuminance h palette)

/-- The luminances of an image whose chunks are given, row by row. -/
def luminances? (h : Header) (chunks : List Chunk) : Option (List UInt8) := do
  let colours := ((chunks.find? (·.hasKind "PLTE")).map Chunk.data).getD []
  let palette := (groups 3 (colours.length / 3) colours).toArray
  let stream := (chunks.filter (·.hasKind "IDAT")).flatMap Chunk.data
  let bytes ← Deflate.unpack? stream
  let rows ← restoreRows h.rowSize (max 1 (h.bitsPerPixel / 8)) h.height [] bytes
  (← rows.mapM (rowLuminances h palette)).flatMap id

/--
The luminances of the image in a file, if it takes no more than `limit` bytes when decoded. A file
is not read, and gives nothing, if it is interlaced, or if what comes after the signature is not as
it must be.
-/
def decode? (limit : Nat) (file : List UInt8) : Except Fault (Option (List UInt8)) := do
  let rest ← takeSignature file
  match chunks rest.length rest with
  | [] => .error .unexpectedEnd
  | first :: others =>
    match Header.ofChunk? first with
    | none => .ok none
    | some header =>
      if limit < header.decodedSize (others.any (·.hasKind "tRNS")) then .error .memoryLimit
      else .ok (luminances? header others)

end AccessibleMarkdown.Image.Png
