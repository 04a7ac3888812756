import AccessibleMarkdown.Decimal.Binary64

/-! Binary floating-point numbers in decimal with two places, rounded from the exact value. -/

namespace AccessibleMarkdown.Decimal

/-- `num / den` to the nearest integer, a tie to the even one. -/
def roundHalfEven (num den : Nat) : Nat :=
  let q := num / den
  let r := num % den
  if 2 * r < den then q
  else if 2 * r = den then q + q % 2
  else q + 1

/-- A number of hundredths, with a point before the last two digits. -/
def hundredths (n : Nat) : String :=
  let cents := n % 100
  toString (n / 100) ++ "." ++ (if cents < 10 then "0" else "") ++ toString cents

/-- The number with the given binary64 bits to two places. Zero keeps its sign. -/
def twoPlaces (bits : UInt64) : String :=
  match Binary64.ofBits bits with
  | .nan => "NaN"
  | .infinite negative => Binary64.sign negative ++ "inf"
  | .finite negative mantissa exponent =>
    Binary64.sign negative
      ++ hundredths
        (roundHalfEven (mantissa * Nat.pow 2 exponent.toNat * 100) (Nat.pow 2 (-exponent).toNat))

end AccessibleMarkdown.Decimal
