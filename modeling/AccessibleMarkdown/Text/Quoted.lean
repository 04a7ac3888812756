import AccessibleMarkdown.Text.Printable

/-!
Quoted text: a text between double quotes, with escapes for the quote, the backslash, line breaks,
and every character that does not print.
-/

namespace AccessibleMarkdown.Text.Quoted

/-- The written form of one character; `raw` says which characters stand for themselves. -/
def escape (raw : Char → Bool) (c : Char) : List Char :=
  match c with
  | '\x00' => ['\\', '0']
  | '\t' => ['\\', 't']
  | '\n' => ['\\', 'n']
  | '\r' => ['\\', 'r']
  | '"' => ['\\', '"']
  | '\\' => ['\\', '\\']
  | c => if raw c then [c] else '\\' :: 'u' :: '\x7b' :: Nat.toDigits 16 c.toNat ++ ['\x7d']

def encode (raw : Char → Bool) (text : List Char) : List Char :=
  '"' :: text.flatMap (escape raw) ++ ['"']

end AccessibleMarkdown.Text.Quoted

namespace AccessibleMarkdown.Text

/-- `text` in quotes, printable characters as they are. -/
def quote (text : String) : String := String.ofList (Quoted.encode isPrintable text.toList)

end AccessibleMarkdown.Text
