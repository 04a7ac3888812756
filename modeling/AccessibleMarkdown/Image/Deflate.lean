import AccessibleMarkdown.Image.Bytes

/-!
Reading DEFLATE: blocks of bytes that are stored as they are, or written as Huffman codes for single
bytes and for copies of bytes that came before.
-/

namespace AccessibleMarkdown.Image.Deflate

abbrev Bits := List Bool

/-- Takes a number of `n` bits, the least significant first. -/
def takeNumber : Nat → Bits → Option (Nat × Bits)
  | 0, bits => some (0, bits)
  | _ + 1, [] => none
  | n + 1, bit :: bits => do
    let (high, rest) ← takeNumber n bits
    some (bit.toNat + 2 * high, rest)

/-! ## Huffman codes -/

/-- A canonical code: how many codes there are of each length from 1, and what they stand for. -/
structure Code where
  counts : List Nat
  symbols : Array Nat

namespace Code

/-- The code in which symbol `i` has the `i`-th length; length 0 is for symbols without a code. -/
def ofLengths (lengths : List Nat) : Code :=
  let ofLength := fun n => (lengths.zipIdx.filter (·.1 == n)).map Prod.snd
  let bySize := (List.range 15).map fun n => ofLength (n + 1)
  { counts := bySize.map List.length, symbols := (bySize.flatMap id).toArray }

/-- The position of the next code among all codes, from the counts of the lengths not yet ruled
out. -/
def position : List Nat → (code first index : Nat) → Bits → Option (Nat × Bits)
  | count :: counts, code, first, index, bit :: bits =>
    let code := 2 * code + bit.toNat
    if code < first + count then some (index + (code - first), bits)
    else position counts code (2 * (first + count)) (index + count) bits
  | _, _, _, _, _ => none

def take (c : Code) (bits : Bits) : Option (Nat × Bits) := do
  let (i, rest) ← position c.counts 0 0 0 bits
  some (← c.symbols[i]?, rest)

end Code

/-- The code for bytes, ends and lengths in a block that brings no code. -/
def fixedLiterals : Code :=
  .ofLengths (.replicate 144 8 ++ .replicate 112 9 ++ .replicate 24 7 ++ .replicate 8 8)

def fixedDistances : Code := .ofLengths (.replicate 30 5)

/-! ## Copies -/

/-- For each symbol from 257: the least length of a copy, and how many more bits say its length. -/
def lengthTable : Array (Nat × Nat) :=
  #[(3, 0), (4, 0), (5, 0), (6, 0), (7, 0), (8, 0), (9, 0), (10, 0), (11, 1), (13, 1),
    (15, 1), (17, 1), (19, 2), (23, 2), (27, 2), (31, 2), (35, 3), (43, 3), (51, 3), (59, 3),
    (67, 4), (83, 4), (99, 4), (115, 4), (131, 5), (163, 5), (195, 5), (227, 5), (258, 0)]

/-- For each symbol: the least distance of a copy, and how many more bits say its distance. -/
def distanceTable : Array (Nat × Nat) :=
  #[(1, 0), (2, 0), (3, 0), (4, 0), (5, 1), (7, 1), (9, 2), (13, 2), (17, 3), (25, 3),
    (33, 4), (49, 4), (65, 5), (97, 5), (129, 6), (193, 6), (257, 7), (385, 7), (513, 8), (769, 8),
    (1025, 9), (1537, 9), (2049, 10), (3073, 10), (4097, 11), (6145, 11), (8193, 12), (12289, 12),
    (16385, 13), (24577, 13)]

/-- Takes the number that a symbol and the bits after it say. -/
def takeExtended (table : Array (Nat × Nat)) (symbol : Nat) (bits : Bits) :
    Option (Nat × Bits) := do
  let (least, extra) ← table[symbol]?
  let (more, rest) ← takeNumber extra bits
  some (least + more, rest)

/-- Copies `count` bytes from `distance` before the end to the end, one after the other. -/
def copyBack (distance : Nat) : Nat → Array UInt8 → Option (Array UInt8)
  | 0, out => some out
  | count + 1, out =>
    if distance ≤ out.size then do
      let byte ← out[out.size - distance]?
      copyBack distance count (out.push byte)
    else none

/-! ## Blocks -/

/-- Reads codes up to the end of a block. -/
def readCodes (literals distances : Code) : Nat → Array UInt8 → Bits → Option (Array UInt8 × Bits)
  | 0, _, _ => none
  | fuel + 1, out, bits => do
    let (symbol, bits) ← literals.take bits
    if symbol < 256 then readCodes literals distances fuel (out.push (UInt8.ofNat symbol)) bits
    else if symbol = 256 then some (out, bits)
    else
      let (length, bits) ← takeExtended lengthTable (symbol - 257) bits
      let (symbol, bits) ← distances.take bits
      let (distance, bits) ← takeExtended distanceTable symbol bits
      readCodes literals distances fuel (← copyBack distance length out) bits

/-- The order in which the lengths of the codes for code lengths are written. -/
def lengthOrder : List Nat := [16, 17, 18, 0, 8, 7, 9, 6, 10, 5, 11, 4, 12, 3, 13, 2, 14, 1, 15]

/-- Reads code lengths until there are `wanted`: a length itself, or a repetition. -/
def readLengths (code : Code) (wanted : Nat) : Nat → List Nat → Bits → Option (List Nat × Bits)
  | 0, _, _ => none
  | fuel + 1, found, bits =>
    if wanted ≤ found.length then
      if found.length = wanted then some (found, bits) else none
    else do
      let (symbol, bits) ← code.take bits
      let (repeated, least, extra) ← match symbol with
        | 16 => found.getLast?.map fun last => (last, 3, 2)
        | 17 => some (0, 3, 3)
        | 18 => some (0, 11, 7)
        | n => some (n, 1, 0)
      let (more, bits) ← takeNumber extra bits
      readLengths code wanted fuel (found ++ .replicate (least + more) repeated) bits

def readCodePair (bits : Bits) : Option (Code × Code × Bits) := do
  let (literalCount, bits) ← takeNumber 5 bits
  let (distanceCount, bits) ← takeNumber 5 bits
  let (lengthCount, bits) ← takeNumber 4 bits
  let (written, bits) ← takeExactly? (3 * (lengthCount + 4)) bits
  let sizes := (groups 3 (lengthCount + 4) written).map fun three =>
    ((takeNumber 3 three).map Prod.fst).getD 0
  let sizeOf := fun symbol => (((lengthOrder.zip sizes).find? (·.1 == symbol)).map Prod.snd).getD 0
  let wanted := literalCount + 257 + (distanceCount + 1)
  let (lengths, bits) ← readLengths (.ofLengths ((List.range 19).map sizeOf)) wanted
    (wanted + 1) [] bits
  some (.ofLengths (lengths.take (literalCount + 257)),
    .ofLengths (lengths.drop (literalCount + 257)), bits)

/-- Reads stored bytes, which start at the next whole byte and have their count in front, twice. -/
def readStored (out : Array UInt8) (bits : Bits) : Option (Array UInt8 × Bits) := do
  let (count, bits) ← takeNumber 16 (bits.drop (bits.length % 8))
  let (complement, bits) ← takeNumber 16 bits
  if count + complement = 0xffff then
    let (stored, bits) ← takeExactly? (8 * count) bits
    let bytes := (groups 8 count stored).map fun eight =>
      UInt8.ofNat (((takeNumber 8 eight).map Prod.fst).getD 0)
    some (out ++ bytes.toArray, bits)
  else none

/-- Reads blocks up to the one that is marked as the last. -/
def readBlocks : Nat → Array UInt8 → Bits → Option (Array UInt8)
  | 0, _, _ => none
  | fuel + 1, out, bits => do
    let (last, bits) ← takeNumber 1 bits
    let (kind, bits) ← takeNumber 2 bits
    let (out, bits) ← match kind with
      | 0 => readStored out bits
      | 1 => readCodes fixedLiterals fixedDistances (bits.length + 1) out bits
      | 2 => do
        let (literals, distances, bits) ← readCodePair bits
        readCodes literals distances (bits.length + 1) out bits
      | _ => none
    if last = 1 then some out else readBlocks fuel out bits

/-- The bytes that a zlib stream holds: a header of two bytes, blocks, and a checksum not looked
at. -/
def unpack? (stream : List UInt8) : Option (List UInt8) :=
  let bits := (stream.drop 2).flatMap lowBits
  (readBlocks (bits.length + 1) #[] bits).map Array.toList

end AccessibleMarkdown.Image.Deflate
