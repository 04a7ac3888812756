/-! Binary floating-point numbers of 64 bits, taken apart. -/

namespace AccessibleMarkdown.Decimal

inductive Binary64
  | nan
  | infinite (negative : Bool)
  /-- The number `mantissa * 2 ^ exponent` under a sign, which zero has as well. -/
  | finite (negative : Bool) (mantissa : Nat) (exponent : Int)
  deriving DecidableEq, Repr

namespace Binary64

def ofBits (bits : UInt64) : Binary64 :=
  let n := bits.toNat
  let negative := n / Nat.pow 2 63 = 1
  let exponent := n / Nat.pow 2 52 % 2048
  let fraction := n % Nat.pow 2 52
  if exponent = 2047 then if fraction = 0 then infinite negative else nan
  else if exponent = 0 then finite negative fraction (-1074)
  else finite negative (fraction + Nat.pow 2 52) (Int.ofNat exponent - 1075)

def sign (negative : Bool) : String := if negative then "-" else ""

end Binary64

end AccessibleMarkdown.Decimal
