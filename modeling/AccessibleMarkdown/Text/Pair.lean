/-! Searching a text for a doubled character, the mark that `--` and `==` are made of. -/

namespace AccessibleMarkdown.Text

/-- The text before the first two adjacent `c`, and the text after them. -/
def cutPair? (c : Char) : List Char → Option (List Char × List Char)
  | a :: b :: rest =>
    if a = c ∧ b = c then some ([], rest)
    else (cutPair? c (b :: rest)).map fun (before, after) => (a :: before, after)
  | _ => none

/-- Where the first two adjacent `c` of a text stand, by byte position. -/
def findPair? (c : Char) (text : String) : Option Nat :=
  (cutPair? c text.toList).map fun (before, _) => (String.ofList before).utf8ByteSize

variable {c : Char} {text before after : List Char}

theorem cutPair?_eq_some (h : cutPair? c text = some (before, after)) :
    text = before ++ c :: c :: after := by
  fun_induction cutPair? c text generalizing before with
  | case1 a b rest hab =>
    obtain ⟨rfl, rfl⟩ := hab
    cases h
    rfl
  | case2 a b rest hab ih =>
    obtain ⟨⟨x, y⟩, hxy, heq⟩ := Option.map_eq_some_iff.mp h
    cases heq
    rw [ih hxy]
    rfl
  | case3 => cases h

theorem cutPair?_length (h : cutPair? c text = some (before, after)) :
    text.length = before.length + after.length + 2 := by
  rw [cutPair?_eq_some h, List.length_append, List.length_cons, List.length_cons]
  omega

end AccessibleMarkdown.Text
