import AccessibleMarkdown.Text.CharSet
import AccessibleMarkdown.Toml.Scan
import AccessibleMarkdown.Toml.Value

/-! Numbers of TOML, and dates and times, of which only the form matters here. -/

namespace AccessibleMarkdown.Toml

open Scan

/-! ## Integers and floats -/

/-- Digits, between which single underscores may stand; the underscores are dropped. -/
def digitRun (p : Char → Bool) : Scan (List Char) := do
  let written ← takeWhile fun c => p c || c == '_'
  let groups := (String.ofList written).splitOn "_"
  if groups.all (!·.isEmpty) then return written.filter (· != '_') else failure

/-- A number whose base a letter after a zero names. -/
def basedInteger : Scan Nat := do
  char '0'
  let base ← match ← next with
    | 'x' => pure 16
    | 'o' => pure 8
    | 'b' => pure 2
    | _ => failure
  let digits ← digitRun fun c => (Text.digitValue? c).any (· < base)
  return Text.ofDigits base digits

/-- A whole number in 64 bits. -/
def bounded (n : Int) : Scan Value :=
  if -Int.pow 2 63 ≤ n ∧ n < Int.pow 2 63 then return .integer n else failure

/-- A sign: is the number negative? -/
def sign : Scan Bool := do
  match ← peek with
  | some '+' => discard next; return false
  | some '-' => discard next; return true
  | _ => return false

/-- The float nearest to `digits * 10 ^ power`. -/
def nearestFloat (digits : List Char) (power : Int) : Float :=
  let n := Text.ofDigits 10 digits
  let magnitude := power + (toString n).length
  if n = 0 ∨ magnitude < -400 then 0
  else if magnitude > 400 then 1 / 0
  else Float.ofScientific n (power < 0) power.natAbs

def fraction : Scan (List Char) := do
  char '.'
  digitRun Char.isDigit

def exponent : Scan Int := do
  discard (satisfy fun c => c == 'e' || c == 'E')
  let negative ← sign
  let n := Text.ofDigits 10 (← digitRun Char.isDigit)
  return if negative then -n else n

def infinity : Scan Float := do
  literal "inf"
  return 1 / 0

def notANumber : Scan Float := do
  literal "nan"
  return 0 / 0

/-- A number in base ten. One too large for a float is refused, but not one too far below zero. -/
def decimalNumber : Scan Value := do
  let negative ← sign
  let signed := fun (x : Float) => Value.float (if negative then -x else x)
  let special ← optional (infinity <|> notANumber)
  match special with
  | some x => return signed x
  | none =>
    let whole ← digitRun Char.isDigit
    if whole.length > 1 ∧ whole.head? = some '0' then failure
    let places ← optional fraction
    let power ← optional exponent
    if places.isNone ∧ power.isNone then
      let n : Int := Text.ofDigits 10 whole
      bounded (if negative then -n else n)
    else
      let places := places.getD []
      let x := nearestFloat (whole ++ places) (power.getD 0 - places.length)
      if x.isInf ∧ ¬negative then failure
      return signed x

def number : Scan Value := (do bounded (← basedInteger)) <|> decimalNumber

/-! ## Dates and times -/

/-- A number of `n` digits between two bounds. -/
def field (n low high : Nat) : Scan Nat := do
  let value := Text.ofDigits 10 (← exactly n Char.isDigit)
  if low ≤ value ∧ value ≤ high then return value else failure

def isLeapYear (year : Nat) : Bool := year % 4 == 0 && (year % 100 != 0 || year % 400 == 0)

def daysInMonth (year month : Nat) : Nat :=
  if month = 2 then if isLeapYear year then 29 else 28
  else if [4, 6, 9, 11].contains month then 30
  else 31

def date : Scan Unit := do
  let year ← field 4 0 9999
  char '-'
  let month ← field 2 1 12
  char '-'
  discard (field 2 1 (daysInMonth year month))

/-- A time of day; a leap second counts as a second of its minute. -/
def time : Scan Unit := do
  discard (field 2 0 23)
  char ':'
  discard (field 2 0 59)
  char ':'
  discard (field 2 0 60)
  if (← peek) == some '.' then
    discard next
    discard (satisfy Char.isDigit)
    discard (takeWhile Char.isDigit)

def offset : Scan Unit := do
  match ← next with
  | 'Z' | 'z' => return ()
  | '+' | '-' =>
    discard (field 2 0 23)
    char ':'
    discard (field 2 0 59)
  | _ => failure

/-- What may follow a date. -/
def timeAfterDate : Scan Unit := do
  discard (satisfy fun c => c == 'T' || c == 't' || c == ' ')
  time
  discard (optional offset)

def datetime : Scan Value := do
  (do date; discard (optional timeAfterDate)) <|> time
  return .datetime

end AccessibleMarkdown.Toml
