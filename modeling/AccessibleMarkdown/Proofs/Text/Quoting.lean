import AccessibleMarkdown.Proofs.Text.Delimiting
import AccessibleMarkdown.Text.Quoted

/-!
# Quoted text

Which characters stand for themselves between quotes is a matter of choice. As long as the quote and
the backslash do not, a quoted text ends by itself.
-/

namespace AccessibleMarkdown.Text.Quoted

variable {raw : Char → Bool}

/-! ## 1. Characters -/

/-- One character between quotes: as it is, or as its usual escape. -/
def spell (raw : Char → Bool) (c : Char) : List Char :=
  if raw c then [c] else escape (fun _ => false) c

/-- No character that stands for itself can be taken for the closing quote or for an escape. -/
def Safe (raw : Char → Bool) : Prop := raw '"' = false ∧ raw '\\' = false

instance : Decidable (Safe raw) := inferInstanceAs (Decidable (_ ∧ _))

/-- Reads back the character that stands at the front, escaped or as it is. -/
def unescape : List Char → Option (Char × List Char)
  | '\\' :: '0' :: rest => some ('\x00', rest)
  | '\\' :: 't' :: rest => some ('\t', rest)
  | '\\' :: 'n' :: rest => some ('\n', rest)
  | '\\' :: 'r' :: rest => some ('\r', rest)
  | '\\' :: '"' :: rest => some ('"', rest)
  | '\\' :: '\\' :: rest => some ('\\', rest)
  | '\\' :: 'u' :: '\x7b' :: rest =>
    some
      (Char.ofNat (ofDigits 16 (rest.takeWhile (· ≠ '\x7d'))), (rest.dropWhile (· ≠ '\x7d')).tail)
  | c :: rest => some (c, rest)
  | [] => none

theorem unescape_raw {c : Char} (hc : c ≠ '\\') (s : List Char) :
    unescape (c :: s) = some (c, s) := by
  unfold unescape
  split <;> simp_all

/-- The digits of a code point end at the brace. -/
theorem ne_brace_of_mem_toDigits {n : Nat} {c : Char} (hc : c ∈ Nat.toDigits 16 n) :
    decide (c ≠ '\x7d') = true := by
  have hdigit := isSome_digitValue?_of_mem_toDigits (by decide) (by decide) n c hc
  rw [decide_eq_true_eq]
  rintro rfl
  cases hdigit

theorem unescape_escape (c : Char) (s : List Char) :
    unescape (escape (fun _ => false) c ++ s) = some (c, s) := by
  unfold escape
  split
  case h_7 =>
    have hdigits : ∀ d ∈ Nat.toDigits 16 c.toNat, decide (d ≠ '\x7d') = true :=
      fun d => ne_brace_of_mem_toDigits
    simp only [Bool.false_eq_true, if_false, List.cons_append, List.append_assoc,
      List.nil_append, unescape]
    rw [List.takeWhile_append_of_pos hdigits, List.dropWhile_append_of_pos hdigits]
    simp [ofDigits_toDigits]
  all_goals rfl

theorem unescape_spell (h : Safe raw) (c : Char) (s : List Char) :
    unescape (spell raw c ++ s) = some (c, s) := by
  rw [spell]
  split
  · rename_i hraw
    refine unescape_raw ?_ s
    rintro rfl
    rw [h.2] at hraw
    cases hraw
  · exact unescape_escape c s

/-- No character of a text is written as a lone quote. -/
theorem spell_append_ne (h : Safe raw) (c : Char) (s t : List Char) :
    spell raw c ++ s ≠ '"' :: t := by
  intro heq
  have hread := unescape_spell h c s
  rw [heq, unescape_raw (by decide), Option.some.injEq, Prod.mk.injEq] at hread
  obtain ⟨rfl, rfl⟩ := hread
  rw [spell, h.1] at heq
  cases heq

/-! ## 2. Texts -/

def quoteWith (raw : Char → Bool) (text : String) : String :=
  String.ofList ('"' :: (text.toList.flatMap (spell raw) ++ ['"']))

/-- Quoted texts can be told from each other and from what comes after them. -/
theorem delimits_quoteWith (h : Safe raw) (text other : String) :
    Delimits (fun text => (quoteWith raw text).toList) text other := by
  intro s t heq
  simp only [quoteWith, String.toList_ofList, List.cons_append, List.cons.injEq, true_and] at heq
  have hlist : Delimits (fun l => l.flatMap (spell raw) ++ ['"']) text.toList other.toList :=
    delimits_flatMap (spell_append_ne h) fun c _ d _ =>
      delimits_of_read unescape (unescape_spell h) c d
  obtain ⟨htext, hst⟩ := hlist s t heq
  exact ⟨String.toList_inj.mp htext, hst⟩

/-! ## 3. Characters that print -/

/-- The characters that have a letter for their escape, or themselves. -/
def escaped : List Char := ['\x00', '\t', '\n', '\r', '"', '\\']

/-- The printable characters, but for those that are escaped all the same. -/
def printed (c : Char) : Bool := isPrintable c && !escaped.contains c

theorem safe_printed : Safe printed := by
  simp [Safe, printed, escaped]

theorem spell_printed (c : Char) : spell printed c = escape isPrintable c := by
  unfold spell escape
  split <;> split <;> simp_all [printed, escaped]

theorem quote_eq (text : String) : quote text = quoteWith printed text := by
  rw [quote, quoteWith, encode, funext spell_printed]
  rfl

end AccessibleMarkdown.Text.Quoted
