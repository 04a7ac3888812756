import AccessibleMarkdown.Proofs.Text.Delimiting
import Mathlib.Data.List.Basic

/-!
# Lines

A line is what a line break ends. Lines that have no break inside are read back from the text that
they make, and one that has takes up as many lines more.
-/

namespace AccessibleMarkdown.Text

/-- The text stays on one line. -/
def Unbroken (text : String) : Prop := '\n' ∉ text.toList

instance (text : String) : Decidable (Unbroken text) := inferInstanceAs (Decidable (¬ _))

/-- For texts that are given by their characters. -/
theorem unbroken_literal {l : List Char} (h : l.all (· ≠ '\n') = true) :
    Unbroken (String.ofList l) := by
  rw [Unbroken, String.toList_ofList]
  exact fun hbreak => of_decide_eq_true (List.all_eq_true.mp h _ hbreak) rfl

@[simp] theorem unbroken_append {a b : String} : Unbroken (a ++ b) ↔ Unbroken a ∧ Unbroken b := by
  simp [Unbroken, not_or]

def breaks (text : String) : Nat := text.toList.count '\n'

@[simp] theorem breaks_append (a b : String) : breaks (a ++ b) = breaks a + breaks b := by
  rw [breaks, String.toList_append, List.count_append, breaks, breaks]

theorem breaks_eq_zero {text : String} : breaks text = 0 ↔ Unbroken text := List.count_eq_zero

theorem breaks_join_congr {α : Type} {f g : α → String} {l : List α}
    (h : ∀ a ∈ l, breaks (f a) = breaks (g a)) :
    breaks (String.join (l.map f)) = breaks (String.join (l.map g)) := by
  induction l with
  | nil => rfl
  | cons a l ih =>
    have hrest := ih fun b hb => h b (List.mem_cons_of_mem a hb)
    rw [List.map_cons, List.map_cons, String.join_cons, String.join_cons, breaks_append,
      breaks_append, hrest, h a List.mem_cons_self]

/-- Digits are no line breaks. -/
theorem notMem_toDigits {base : Nat} (hone : 1 < base) (hbase : base ≤ 16) (n : Nat) :
    '\n' ∉ Nat.toDigits base n := by
  intro hbreak
  have hdigit := isSome_digitValue?_of_mem_toDigits hone hbase n '\n' hbreak
  revert hdigit
  decide

theorem unbroken_toString (n : Nat) : Unbroken (toString n) := by
  rw [Nat.toString_eq_repr, Unbroken, Nat.toList_repr]
  exact notMem_toDigits (by decide) (by decide) n

/-- The characters of each line, the last of which may lack its break. -/
def linesOf : List Char → List (List Char)
  | [] => []
  | c :: rest =>
    if c = '\n' then [] :: linesOf rest
    else
      match linesOf rest with
      | [] => [[c]]
      | line :: lines => (c :: line) :: lines

def lines (text : String) : List String := (linesOf text.toList).map String.ofList

theorem linesOf_break (rest : List Char) : linesOf ('\n' :: rest) = [] :: linesOf rest := if_pos rfl

theorem linesOf_ne_nil {c : Char} {rest : List Char} : linesOf (c :: rest) ≠ [] := by
  rw [linesOf]
  split
  · exact List.cons_ne_nil _ _
  · split <;> exact List.cons_ne_nil _ _

theorem exists_first_line (l : List Char) :
    ∃ line lines, linesOf (l ++ ['\n']) = line :: lines := by
  apply List.exists_cons_of_ne_nil
  cases l <;> exact linesOf_ne_nil

/-- No line has a break inside. -/
theorem notMem_of_mem_linesOf {l line : List Char} (hline : line ∈ linesOf l) : '\n' ∉ line := by
  induction l generalizing line with
  | nil => cases hline
  | cons c rest ih =>
    rw [linesOf] at hline
    split at hline
    · obtain rfl | hline := List.mem_cons.mp hline
      · exact List.not_mem_nil
      · exact ih hline
    · rename_i hc
      have hhead : ∀ l, '\n' ∉ l → '\n' ∉ c :: l :=
        fun _ => List.not_mem_cons_of_ne_of_not_mem (Ne.symm hc)
      split at hline
      · rw [List.mem_singleton.mp hline]
        exact hhead [] List.not_mem_nil
      · rename_i first lines hrest
        rw [hrest] at ih
        obtain rfl | hline := List.mem_cons.mp hline
        · exact hhead first (ih List.mem_cons_self)
        · exact ih (List.mem_cons_of_mem _ hline)

/-- Behind a break, the lines begin anew. -/
theorem linesOf_append_break (l rest : List Char) :
    linesOf (l ++ '\n' :: rest) = linesOf (l ++ ['\n']) ++ linesOf rest := by
  induction l with
  | nil =>
    rw [List.nil_append, List.nil_append, linesOf_break, linesOf_break]
    rfl
  | cons c l ih =>
    rw [List.cons_append, List.cons_append, linesOf, linesOf, ih]
    split
    · rfl
    · obtain ⟨line, lines, hfirst⟩ := exists_first_line l
      rw [hfirst]
      rfl

theorem linesOf_unbroken {l : List Char} (h : '\n' ∉ l) : linesOf (l ++ ['\n']) = [l] := by
  induction l with
  | nil => rfl
  | cons c l ih =>
    rw [List.cons_append, linesOf, ih (List.not_mem_of_not_mem_cons h),
      if_neg (List.ne_of_not_mem_cons h).symm]

/-- A text takes up a line, and one more for each break inside. -/
theorem length_lines_break (text : String) : (lines (text ++ "\n")).length = breaks text + 1 := by
  have hchars : ∀ l : List Char, (linesOf (l ++ ['\n'])).length = l.count '\n' + 1 := by
    intro l
    induction l with
    | nil => rfl
    | cons c l ih =>
      rw [List.cons_append, linesOf, List.count_cons]
      split
      · rename_i hc
        rw [List.length_cons, ih, hc, beq_self_eq_true, if_pos rfl]
      · rename_i hc
        rw [if_neg (by rwa [beq_iff_eq]), Nat.add_zero, ← ih]
        obtain ⟨line, lines, hfirst⟩ := exists_first_line l
        rw [hfirst]
        rfl
  have hbreak : ("\n" : String).toList = ['\n'] := rfl
  rw [lines, List.length_map, String.toList_append, hbreak, hchars, breaks]

theorem length_flatMap_lines (texts : List String) :
    (texts.flatMap fun text => lines (text ++ "\n")).length =
      texts.length + breaks (String.join texts) := by
  induction texts with
  | nil => rfl
  | cons text texts ih =>
    rw [List.flatMap_cons, List.length_append, length_lines_break, ih, List.length_cons,
      String.join_cons, breaks_append]
    omega

/-- Texts one after the other, each with a break behind it. -/
theorem lines_join (texts : List String) :
    lines (String.join (texts.map (· ++ "\n"))) = texts.flatMap fun text =>
      lines (text ++ "\n") := by
  induction texts with
  | nil => rfl
  | cons text texts ih =>
    have hbreak : ("\n" : String).toList = ['\n'] := rfl
    rw [lines] at ih ⊢
    rw [List.map_cons, String.join_cons, List.flatMap_cons, ← ih, lines, String.toList_append,
      String.toList_append, hbreak, List.append_assoc, List.singleton_append, linesOf_append_break,
      List.map_append]

theorem lines_unbroken {text : String} (h : Unbroken text) : lines (text ++ "\n") = [text] := by
  have hbreak : ("\n" : String).toList = ['\n'] := rfl
  rw [lines, String.toList_append, hbreak, linesOf_unbroken h, List.map_singleton,
    String.ofList_toList]

theorem unbroken_of_mem_lines {text line : String} (h : line ∈ lines text) : Unbroken line := by
  obtain ⟨l, hl, rfl⟩ := List.mem_map.mp h
  rw [Unbroken, String.toList_ofList]
  exact notMem_of_mem_linesOf hl

/-- **Texts are the lines of what they make** just if they have no breaks inside. -/
theorem lines_join_eq_iff {texts : List String} :
    lines (String.join (texts.map (· ++ "\n"))) = texts ↔ ∀ text ∈ texts, Unbroken text := by
  constructor
  · intro h text htext
    rw [← h] at htext
    exact unbroken_of_mem_lines htext
  · intro h
    rw [lines_join, List.flatMap_congr fun text htext => lines_unbroken (h text htext),
      List.flatMap_singleton']

end AccessibleMarkdown.Text
