import AccessibleMarkdown.Text.CharSet

/-! White space in the sense of Unicode, and trimming it. -/

namespace AccessibleMarkdown.Text

/-- The property `White_Space`. -/
def blankChars : CharSet := .ofTable "9-d 20 85 a0 1680 2000-200a 2028-2029 202f 205f 3000"

def isBlank (c : Char) : Bool :=
  if c.toNat < 0x80 then c == ' ' || (9 ≤ c.toNat && c.toNat ≤ 13) else blankChars.contains c

def dropEndWhile (p : Char → Bool) (text : List Char) : List Char :=
  (text.reverse.dropWhile p).reverse

def trim (text : List Char) : List Char := dropEndWhile isBlank (text.dropWhile isBlank)

end AccessibleMarkdown.Text
