/-! Scanning a TOML document: single characters, white space, comments and ends of lines. -/

namespace AccessibleMarkdown.Toml

/-- Takes a value from the start of a text, or fails; the alternatives of `<|>` start at the same
place. -/
abbrev Scan := StateT (List Char) Option

namespace Scan

def peek : Scan (Option Char) := do return (← get).head?

def next : Scan Char := fun text =>
  match text with
  | [] => none
  | c :: rest => some (c, rest)

def satisfy (p : Char → Bool) : Scan Char := do
  let c ← next
  if p c then return c else failure

def char (c : Char) : Scan Unit := discard (satisfy (· == c))

def literal (text : String) : Scan Unit := text.toList.forM char

def takeWhile (p : Char → Bool) : Scan (List Char) := fun text =>
  some (text.takeWhile p, text.dropWhile p)

def exactly (n : Nat) (p : Char → Bool) : Scan (List Char) :=
  (List.replicate n ()).mapM fun _ => satisfy p

/-- Runs a scan that gets as much fuel as there are characters left, and one more. -/
def fueled {α : Type} (scan : Nat → Scan α) : Scan α := do scan ((← get).length + 1)

/-! ## White space -/

def blanks : Scan Unit := discard (takeWhile fun c => c == ' ' || c == '\t')

def newline : Scan Unit := char '\n' <|> literal "\r\n"

def atEnd : Scan Unit := do
  if (← get).isEmpty then return () else failure

def comment : Scan Unit := do
  char '#'
  discard (takeWhile fun c => c == '\t' || 0x20 ≤ c.toNat)

/-- What may follow on the line of a complete statement. -/
def lineEnd : Scan Unit := do
  blanks
  discard (optional comment)
  newline <|> atEnd

/-- Takes blanks and line breaks, and comments too if `comments`. -/
def gapLoop (comments : Bool) : Nat → Scan Unit
  | 0 => return ()
  | fuel + 1 => do
    blanks
    match ← peek with
    | some '#' =>
      if comments then
        comment
        newline
        gapLoop comments fuel
    | some '\n' | some '\r' =>
      newline
      gapLoop comments fuel
    | _ => return ()

def gap (comments : Bool) : Scan Unit := fueled (gapLoop comments)

end Scan

end AccessibleMarkdown.Toml
