/-! Reading numbers of several bytes, and pieces of a byte. -/

namespace AccessibleMarkdown.Image

def bigEndian (bytes : List UInt8) : Nat := bytes.foldl (fun n b => 256 * n + b.toNat) 0

def takeExactly? {α : Type} (n : Nat) (items : List α) : Option (List α × List α) :=
  let front := items.take n
  if front.length = n then some (front, items.drop n) else none

/-- Cuts the start of a list into `count` groups of `n`. -/
def groups {α : Type} (n : Nat) : Nat → List α → List (List α)
  | 0, _ => []
  | count + 1, items => items.take n :: groups n count (items.drop n)

/-- The numbers of `bits` bits in a byte, the most significant first. -/
def splitByte (bits : Nat) (byte : UInt8) : List Nat :=
  (List.range (8 / bits)).map fun i => byte.toNat / Nat.pow 2 (8 - bits * (i + 1)) % Nat.pow 2 bits

/-- The bits of a byte, the least significant first. -/
def lowBits (byte : UInt8) : List Bool := (List.range 8).map byte.toNat.testBit

end AccessibleMarkdown.Image
