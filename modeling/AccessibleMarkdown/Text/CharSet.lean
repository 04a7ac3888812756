/-! Sets of characters, written as ranges of code points. -/

namespace AccessibleMarkdown.Text

/-- The value of a digit in any base up to sixteen; letters count in either case. -/
def digitValue? (c : Char) : Option Nat :=
  if '0' ≤ c ∧ c ≤ '9' then some (c.toNat - 48)
  else if 'a' ≤ c ∧ c ≤ 'f' then some (c.toNat - 87)
  else if 'A' ≤ c ∧ c ≤ 'F' then some (c.toNat - 55)
  else none

def isHexDigit (c : Char) : Bool := (digitValue? c).isSome

/-- The number that digits of base `base` spell, most significant first. -/
def ofDigits (base : Nat) (digits : List Char) : Nat :=
  digits.foldl (fun n c => n * base + (digitValue? c).getD 0) 0

def hexText (n : Nat) : String := String.ofList (Nat.toDigits 16 n)

def words (text : String) : List String :=
  let step := fun (c : Char) (found : List (List Char)) =>
    match found with
    | word :: rest => if c.isWhitespace then [] :: word :: rest else (c :: word) :: rest
    | [] => [[c]]
  ((text.toList.foldr step [[]]).filter (!·.isEmpty)).map String.ofList

/-- A character set as a list of closed ranges of code points. -/
structure CharSet where
  ranges : Array (Nat × Nat)

namespace CharSet

/-- Reads ranges in hexadecimal, `lo-hi` or a single point, separated by blanks. -/
def ofTable (table : String) : CharSet where
  ranges := (words table).toArray.map fun entry =>
    match entry.splitOn "-" with
    | [lo, hi] => (ofDigits 16 lo.toList, ofDigits 16 hi.toList)
    | _ => (ofDigits 16 entry.toList, ofDigits 16 entry.toList)

def contains (s : CharSet) (c : Char) : Bool :=
  s.ranges.any fun (lo, hi) => lo ≤ c.toNat && c.toNat ≤ hi

end CharSet

end AccessibleMarkdown.Text
