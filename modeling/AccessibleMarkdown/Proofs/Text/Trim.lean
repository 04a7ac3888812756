import AccessibleMarkdown.Text.Blank
import Mathlib.Data.List.TakeWhile

/-!
# Trimmed texts

Trimming takes all blanks off both ends of a text. What is left begins and ends with other
characters, and it is the only part of the text of which this is true.
-/

namespace AccessibleMarkdown.Text

variable {text part front back rest : List Char}

/-- The part of the text between its blanks in front and its blanks at the end. -/
def Trims (text part : List Char) : Prop :=
  ∃ front back, text = front ++ part ++ back ∧ (∀ c ∈ front, isBlank c = true) ∧
    (∀ c ∈ back, isBlank c = true) ∧
    (∀ c, part.head? = some c → isBlank c = false) ∧ ∀ c, part.getLast? = some c → isBlank c = false

theorem dropWhile_append_blanks (hfront : ∀ c ∈ front, isBlank c = true)
    (hrest : ∀ c, rest.head? = some c → isBlank c = false) :
    (front ++ rest).dropWhile isBlank = rest := by
  rw [List.dropWhile_append_of_pos hfront]
  cases rest with
  | nil => rfl
  | cons c rest => exact List.dropWhile_cons_of_neg (by simp [hrest c rfl])

theorem Trims.eq (h : Trims text part) : part = trim text := by
  obtain ⟨front, back, rfl, hfront, hback, hhead, hlast⟩ := h
  rw [trim, List.append_assoc]
  cases part with
  | nil =>
    -- Where nothing is left, all of the text goes in front.
    rw [List.nil_append, List.dropWhile_eq_nil_iff.mpr]
    · rfl
    · intro c hc
      exact (List.mem_append.mp hc).elim (hfront c) (hback c)
  | cons c part =>
    have hend : (back.reverse ++ (c :: part).reverse).dropWhile isBlank = (c :: part).reverse := by
      apply dropWhile_append_blanks
      · exact fun d hd => hback d (List.mem_reverse.mp hd)
      · rw [List.head?_reverse]
        exact hlast
    rw [dropWhile_append_blanks hfront (by simpa using hhead), dropEndWhile,
      List.reverse_append, hend, List.reverse_reverse]

theorem dropEndWhile_append (p : Char → Bool) (text : List Char) :
    dropEndWhile p text ++ (text.reverse.takeWhile p).reverse = text := by
  rw [dropEndWhile, ← List.reverse_append, List.takeWhile_append_dropWhile, List.reverse_reverse]

theorem trims_trim (text : List Char) : Trims text (trim text) := by
  refine ⟨text.takeWhile isBlank, ((text.dropWhile isBlank).reverse.takeWhile isBlank).reverse, ?_,
    ?_, ?_, ?_, ?_⟩
  · rw [List.append_assoc, trim, dropEndWhile_append, List.takeWhile_append_dropWhile]
  · exact fun c hc => List.mem_takeWhile_imp hc
  · exact fun c hc => List.mem_takeWhile_imp (List.mem_reverse.mp hc)
  · -- What goes at the end leaves the first character where it is.
    intro c hc
    have hhead := List.head?_dropWhile_not isBlank text
    rw [← dropEndWhile_append isBlank (text.dropWhile isBlank),
      List.head?_append, ← trim, hc] at hhead
    exact hhead
  · intro c hc
    have hhead := List.head?_dropWhile_not isBlank (text.dropWhile isBlank).reverse
    rw [trim, dropEndWhile, List.getLast?_reverse] at hc
    rw [hc] at hhead
    exact hhead

theorem trims_iff : Trims text part ↔ part = trim text :=
  ⟨Trims.eq, fun h => h ▸ trims_trim text⟩

theorem Trims.isInfix (h : Trims text part) : part <:+: text := by
  obtain ⟨front, back, rfl, -⟩ := h
  exact ⟨front, back, rfl⟩

/-- Of what is left, nothing more is trimmed. -/
theorem Trims.trim_eq (h : Trims text part) : trim part = part := by
  obtain ⟨-, -, -, -, -, hhead, hlast⟩ := h
  have hself : Trims part part := ⟨[], [], (List.append_nil part).symm, nofun, nofun, hhead, hlast⟩
  exact hself.eq.symm

end AccessibleMarkdown.Text
