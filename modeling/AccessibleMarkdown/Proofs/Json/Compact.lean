import AccessibleMarkdown.Json
import AccessibleMarkdown.Proofs.Text.Delimiting

/-!
# Compact JSON

The text of a value in one line ends by itself. So different values have different texts.
-/

namespace AccessibleMarkdown.Json

open Text (Delimits digitValue?)

/-! ## 1. Characters -/

/-- Reads back the character that stands at the front, escaped or as it is. -/
def unescape : List Char → Option (Char × List Char)
  | '\\' :: '"' :: rest => some ('"', rest)
  | '\\' :: '\\' :: rest => some ('\\', rest)
  | '\\' :: 'b' :: rest => some ('\x08', rest)
  | '\\' :: 't' :: rest => some ('\t', rest)
  | '\\' :: 'n' :: rest => some ('\n', rest)
  | '\\' :: 'f' :: rest => some ('\x0c', rest)
  | '\\' :: 'r' :: rest => some ('\r', rest)
  | '\\' :: 'u' :: '0' :: '0' :: high :: low :: rest =>
    some (Char.ofNat (Text.ofDigits 16 [high, low]), rest)
  | c :: rest => some (c, rest)
  | [] => none

theorem unescape_escape (c : Char) (s : List Char) : unescape (escape c ++ s) = some (c, s) := by
  unfold escape
  split
  case h_8 =>
    split
    · rename_i hcontrol
      have hdigits : Text.ofDigits 16 [Nat.digitChar (c.toNat / 16), Nat.digitChar (c.toNat % 16)] =
          c.toNat := by
        have hhigh := Text.digitValue?_digitChar (n := c.toNat / 16) (by omega)
        have hlow := Text.digitValue?_digitChar (n := c.toNat % 16) (by omega)
        simp only [Text.ofDigits, List.foldl_cons, List.foldl_nil, hhigh, hlow, Option.getD_some]
        omega
      simp only [List.cons_append, List.nil_append, unescape, hdigits, Char.ofNat_toNat]
    · rw [List.singleton_append, unescape]
      all_goals simp_all
  all_goals rfl

theorem delimits_escape (c d : Char) : Delimits escape c d :=
  Text.delimits_of_read unescape unescape_escape c d

/-- Just the quote, the backslash and the controls below U+0020 are escaped. -/
theorem escape_eq_self_iff (c : Char) : escape c = [c] ↔ c ≠ '"' ∧ c ≠ '\\' ∧ 0x20 ≤ c.toNat := by
  unfold escape
  split
  case h_8 =>
    split
    · simp_all
    · simp_all
  all_goals decide

/-! ## 2. Strings -/

theorem toList_quote (text : String) :
    (quote text).toList = '"' :: (text.toList.flatMap escape ++ ['"']) := by
  simp [quote]

/-- No character of a text is written as a lone quote. -/
theorem escape_append_ne (c : Char) (s t : List Char) : escape c ++ s ≠ '"' :: t := by
  intro h
  have hread := unescape_escape c s
  rw [h, unescape, Option.some.injEq, Prod.mk.injEq] at hread
  · obtain ⟨rfl, rfl⟩ := hread
    cases h
  all_goals simp

theorem delimits_quote (text other : String) :
    Delimits (fun text => (quote text).toList) text other := by
  intro s t h
  simp only [toList_quote, List.cons_append, List.cons.injEq, true_and] at h
  have hlist : Delimits (fun l => l.flatMap escape ++ ['"']) text.toList other.toList :=
    Text.delimits_flatMap escape_append_ne fun c _ d _ => delimits_escape c d
  obtain ⟨htext, hst⟩ := hlist s t h
  exact ⟨String.toList_inj.mp htext, hst⟩

/-! ## 3. Values -/

def chars (j : Json) : List Char := j.compact.toList

/-- A name with its value. -/
def fieldChars (field : String × Json) : List Char :=
  (quote field.1).toList ++ ([':'] ++ field.2.chars)

theorem chars_arr (items : List Json) :
    (arr items).chars = ['['] ++ ([','].intercalate (items.map chars) ++ [']']) := by
  have hitems : compactItems items = items.map compact := by
    induction items with
    | nil => rfl
    | cons item rest ih => rw [compactItems, ih, List.map_cons]
  have hchars : items.map chars = (items.map compact).map String.toList := by
    rw [List.map_map]
    rfl
  rw [chars, compact, hitems, hchars]
  simp [String.toList_intercalate]

theorem chars_obj (fields : List (String × Json)) :
    (obj fields).chars = ['\x7b'] ++ ([','].intercalate (fields.map fieldChars) ++ ['\x7d']) := by
  have hfields :
      compactFields fields = fields.map fun field => quote field.1 ++ ":" ++ field.2.compact := by
    induction fields with
    | nil => rfl
    | cons field rest ih => rw [compactFields, ih, List.map_cons]
  have hchars : fields.map fieldChars =
      (fields.map fun field => quote field.1 ++ ":" ++ field.2.compact).map String.toList := by
    simp [fieldChars, chars]
  rw [chars, compact, hfields, hchars]
  simp [String.toList_intercalate]

/-- The character that the text of a value begins with. -/
def opening : Json → Char
  | null => 'n'
  | str _ => '"'
  | arr _ => '['
  | obj _ => '\x7b'

theorem chars_eq_cons (j : Json) : ∃ rest, j.chars = j.opening :: rest := by
  cases j with
  | null => exact ⟨_, rfl⟩
  | str text => exact ⟨_, toList_quote text⟩
  | arr items => exact ⟨_, chars_arr items⟩
  | obj fields => exact ⟨_, chars_obj fields⟩

theorem opening_eq_of_append {j k : Json} {s t : List Char} (h : j.chars ++ s = k.chars ++ t) :
    j.opening = k.opening := by
  obtain ⟨rest, hj⟩ := j.chars_eq_cons
  obtain ⟨rest', hk⟩ := k.chars_eq_cons
  rw [hj, hk] at h
  exact (List.cons.inj h).1

theorem delimits_null (k : Json) : Delimits chars null k := by
  intro s t h
  cases k with
  | null => exact ⟨rfl, List.append_cancel_left h⟩
  | str _ | arr _ | obj _ => cases opening_eq_of_append h

theorem delimits_str (text : String) (k : Json) : Delimits chars (str text) k := by
  intro s t h
  cases k with
  | str other =>
    obtain ⟨rfl, hst⟩ := delimits_quote text other s t h
    exact ⟨rfl, hst⟩
  | null | arr _ | obj _ => cases opening_eq_of_append h

/-- No value begins with a closing bracket. -/
theorem chars_append_ne (j : Json) (s t : List Char) : j.chars ++ s ≠ ']' :: t := by
  intro h
  obtain ⟨rest, hj⟩ := j.chars_eq_cons
  rw [hj] at h
  cases j <;> cases (List.cons.inj h).1

theorem delimits_arr {items : List Json} (h : ∀ j ∈ items, ∀ k, Delimits chars j k) (k : Json) :
    Delimits chars (arr items) k := by
  intro s t heq
  cases k with
  | arr others =>
    have hlist : Delimits (fun l => [','].intercalate (l.map chars) ++ [']']) items others :=
      Text.delimits_intercalate (by decide) chars_append_ne fun j hj k _ => h j hj k
    rw [chars_arr, chars_arr] at heq
    obtain ⟨rfl, hst⟩ := hlist.append_left ['['] s t heq
    exact ⟨rfl, hst⟩
  | null | str _ | obj _ => cases opening_eq_of_append heq

theorem delimits_field {field : String × Json} (h : ∀ k, Delimits chars field.2 k)
    (other : String × Json) : Delimits fieldChars field other := by
  obtain ⟨name, value⟩ := field
  obtain ⟨name', value'⟩ := other
  intro s t heq
  simp only [fieldChars, List.append_assoc] at heq
  obtain ⟨rfl, hrest⟩ := delimits_quote name name' _ _ heq
  simp only [← List.append_assoc] at hrest
  obtain ⟨rfl, hst⟩ := (h value').append_left [':'] s t hrest
  exact ⟨rfl, hst⟩

theorem delimits_obj {fields : List (String × Json)}
    (h : ∀ field ∈ fields, ∀ k, Delimits chars field.2 k) (k : Json) :
    Delimits chars (obj fields) k := by
  -- A field begins with the quote of its name.
  have hopen : ∀ field s t, fieldChars field ++ s ≠ '\x7d' :: t := by
    intro field s t heq
    rw [fieldChars, toList_quote] at heq
    cases (List.cons.inj heq).1
  intro s t heq
  cases k with
  | obj others =>
    have hlist :
        Delimits (fun l => [','].intercalate (l.map fieldChars) ++ ['\x7d']) fields others :=
      Text.delimits_intercalate (by decide) hopen fun field hfield other _ =>
        delimits_field (h field hfield) other
    rw [chars_obj, chars_obj] at heq
    obtain ⟨rfl, hst⟩ := hlist.append_left ['\x7b'] s t heq
    exact ⟨rfl, hst⟩
  | null | str _ | arr _ => cases opening_eq_of_append heq

mutual

theorem delimits_chars : (j : Json) → ∀ k, Delimits chars j k
  | null => delimits_null
  | str text => delimits_str text
  | arr items => delimits_arr (delimits_items items)
  | obj fields => delimits_obj (delimits_fields fields)

theorem delimits_items : (items : List Json) → ∀ j ∈ items, ∀ k, Delimits chars j k
  | [] => nofun
  | item :: rest => List.forall_mem_cons.mpr ⟨delimits_chars item, delimits_items rest⟩

theorem delimits_fields :
    (fields : List (String × Json)) → ∀ field ∈ fields, ∀ k, Delimits chars field.2 k
  | [] => nofun
  | (_, value) :: rest => List.forall_mem_cons.mpr ⟨delimits_chars value, delimits_fields rest⟩

end

theorem compact_injective : Function.Injective compact := by
  intro j k h
  exact (delimits_chars j k).eq (congrArg String.toList h)

end AccessibleMarkdown.Json
