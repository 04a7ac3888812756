import AccessibleMarkdown.Decimal.Binary64

/-!
Binary floating-point numbers in decimal with the fewest digits that are nearer to them than to any
other such number, written out without an exponent.
-/

namespace AccessibleMarkdown.Decimal

/--
The multiple of `num / den` that is nearest to `value`, if it lies between `low` and `high`; the
bounds themselves count if `closed`.
-/
def gridPoint? (closed : Bool) (low value high num den : Nat) : Option Nat :=
  let inside := fun c =>
    if closed then low * den ≤ c * num ∧ c * num ≤ high * den
    else low * den < c * num ∧ c * num < high * den
  let down := value * den / num
  let up := down + 1
  if inside down then
    if inside up ∧ (2 * down + 1) * num ≤ 2 * value * den then some up else some down
  else if inside up then some up
  else none

/--
The first point between the bounds on the grids of `10 ^ k`, `10 ^ (k - 1)` and so on, and the power
of its grid. The unit of `low`, `value` and `high` is `2 ^ unit`.
-/
def coarsest (closed : Bool) (low value high : Nat) (unit : Int) : Nat → Int → Nat × Int
  | 0, k => (0, k)
  | fuel + 1, k =>
    let num := Nat.pow 10 k.toNat * Nat.pow 2 (-unit).toNat
    let den := Nat.pow 10 (-k).toNat * Nat.pow 2 unit.toNat
    match gridPoint? closed low value high num den with
    | some point => (point, k)
    | none => coarsest closed low value high unit fuel (k - 1)

/--
The shortest decimal, digits and power of ten, that reads back as `mantissa * 2 ^ exponent`. What
reads back lies within half the distance to the neighbours, and below a power of two the neighbour
is half as far.
-/
def shortest (mantissa : Nat) (exponent : Int) : Nat × Int :=
  let value := 4 * mantissa
  let below := if mantissa = Nat.pow 2 52 ∧ exponent ≠ -1074 then 1 else 2
  coarsest (mantissa % 2 == 0) (value - below) value (value + 2) (exponent - 2) 700 310

/-- `digits * 10 ^ power` with at least one place on each side of the point. -/
def positional (digits : Nat) (power : Int) : String :=
  let shown := (toString digits).toList
  if 0 ≤ power then String.ofList (shown ++ .replicate power.toNat '0') ++ ".0"
  else
    let places := (-power).toNat
    let padded := List.replicate (places + 1 - shown.length) '0' ++ shown
    let whole := padded.length - places
    String.ofList (padded.take whole) ++ "." ++ String.ofList (padded.drop whole)

/-- The number with the given binary64 bits; infinities and the lack of a number get a place as
well. -/
def shortestText (bits : UInt64) : String :=
  match Binary64.ofBits bits with
  | .nan => "NaN.0"
  | .infinite negative => Binary64.sign negative ++ "inf.0"
  | .finite negative 0 _ => Binary64.sign negative ++ "0.0"
  | .finite negative mantissa exponent =>
    let (digits, power) := shortest mantissa exponent
    Binary64.sign negative ++ positional digits power

end AccessibleMarkdown.Decimal
