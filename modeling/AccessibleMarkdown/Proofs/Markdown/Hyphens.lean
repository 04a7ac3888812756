import AccessibleMarkdown.Markdown.Deletion
import AccessibleMarkdown.Proofs.Text.Pair

/-!
# Where deletion markup opens

Two hyphens open deletion markup where two others close it on the same line. The scanner moves by
byte position; here is what each of its positions says about the characters: what stands before the
first hyphens, on the first line, and in the text up to the next marker.
-/

namespace AccessibleMarkdown.Markdown.Deletion

/-! ## Where markup opens -/

/-- Two hyphens at the head of a text, and two others after them on the same line. -/
def Opens (text : List Char) : Prop :=
  ∃ inner after, text = '-' :: '-' :: inner ++ '-' :: '-' :: after ∧ '\n' ∉ inner

/-- In a text that consists of `run` and `rest`, markup opens at no place of `run`. -/
def Plain (run rest : List Char) : Prop := ∀ back, back ≠ [] → back <:+ run → ¬ Opens (back ++ rest)

/-- A text that hyphens can enclose: the two after it are the first two. -/
structure Enclosed (run : List Char) : Prop where
  no_pair : ¬ ['-', '-'] <:+: run
  last : run.getLast? ≠ some '-'
  one_line : '\n' ∉ run

variable {a b rest : List Char} {c : Char}

theorem Opens.append (h : Opens a) (b : List Char) : Opens (a ++ b) := by
  obtain ⟨inner, after, rfl, hline⟩ := h
  exact ⟨inner, after ++ b, by simp, hline⟩

theorem Opens.has_pair (h : Opens a) : ['-', '-'] <:+: a := by
  obtain ⟨inner, after, rfl, -⟩ := h
  exact ⟨[], inner ++ '-' :: '-' :: after, rfl⟩

theorem plain_nil : Plain [] rest :=
  fun _ hback hsuffix => absurd (List.suffix_nil.mp hsuffix) hback

theorem plain_cons : Plain (c :: a) rest ↔ ¬ Opens (c :: a ++ rest) ∧ Plain a rest := by
  simp only [Plain, List.suffix_cons_iff]
  constructor
  · intro h
    exact ⟨h _ (List.cons_ne_nil _ _) (.inl rfl),
      fun back hback hsuffix => h back hback (.inr hsuffix)⟩
  · rintro ⟨hhead, htail⟩ back hback (rfl | hsuffix)
    · exact hhead
    · exact htail back hback hsuffix

theorem plain_append : Plain (a ++ b) rest ↔ Plain a (b ++ rest) ∧ Plain b rest := by
  induction a with
  | nil => exact ⟨fun h => ⟨plain_nil, h⟩, And.right⟩
  | cons c a ih =>
    rw [List.cons_append, plain_cons, plain_cons, ih, and_assoc, ← List.cons_append,
      List.append_assoc]

theorem plain_toList_append {a b rest : String} :
    Plain (a ++ b).toList rest.toList ↔
      Plain a.toList (b ++ rest).toList ∧ Plain b.toList rest.toList := by
  rw [String.toList_append, String.toList_append]
  exact plain_append

/-- What does not open before more text does not open without it. -/
theorem Plain.alone (h : Plain a rest) : Plain a [] := by
  intro back hback hsuffix hopens
  rw [List.append_nil] at hopens
  exact h back hback hsuffix (hopens.append rest)

/-- Without two hyphens nothing opens. -/
theorem plain_of_no_pair (h : ¬ ['-', '-'] <:+: a) : Plain a [] := by
  intro back _ hsuffix hopens
  rw [List.append_nil] at hopens
  exact h (hopens.has_pair.trans hsuffix.isInfix)

/-- Before the first two hyphens nothing opens. -/
theorem plain_before (hpair : ¬ ['-', '-'] <:+: a) (hlast : a.getLast? ≠ some '-') :
    Plain a ('-' :: '-' :: rest) := by
  rintro back hback ⟨front, rfl⟩ ⟨inner, after, heq, -⟩
  rw [List.cons_append, List.cons_append] at heq
  match back with
  | [d] =>
    obtain ⟨rfl, -⟩ := List.cons.inj heq
    exact hlast (by simp)
  | d :: e :: back =>
    obtain ⟨rfl, hnext⟩ := List.cons.inj heq
    obtain ⟨rfl, -⟩ := List.cons.inj hnext
    exact hpair ⟨front, back, by simp⟩

/-- What hyphens enclose is found again. -/
theorem Enclosed.cut (h : Enclosed a) (rest : List Char) :
    Text.cutPair? '-' (a ++ '-' :: '-' :: rest) = some (a, rest) :=
  Text.cutPair?_eq_some_iff.mpr ⟨rfl, h.no_pair, h.last⟩

/-- Hyphens open nothing where none follow on their line. -/
theorem not_opens {line tail : List Char} (hline : ¬ ['-', '-'] <:+: line)
    (htail : ∀ c, tail.head? = some c → c = '\n') : ¬ Opens ('-' :: '-' :: (line ++ tail)) := by
  rintro ⟨inner, after, heq, hinner⟩
  rw [List.cons_append, List.cons_append] at heq
  have htext : line ++ tail = inner ++ '-' :: '-' :: after :=
    (List.cons.inj (List.cons.inj heq).2).2
  obtain ⟨u, rfl, hu⟩ | ⟨u, rfl, hu⟩ := List.append_eq_append_iff.mp htext
  -- The line ends before the second hyphens.
  · match u with
    | [] => exact absurd (htail '-' (by rw [hu]; rfl)) (by decide)
    | d :: u =>
      obtain rfl := htail d (by rw [hu]; rfl)
      exact hinner (by simp)
  -- The line reaches beyond their first, and then beyond their second one.
  · match u with
    | [] => exact absurd (htail '-' (congrArg List.head? hu).symm) (by decide)
    | [d] => exact absurd (htail '-' (congrArg List.head? (List.cons.inj hu).2).symm) (by decide)
    | d :: e :: u =>
      obtain ⟨rfl, hnext⟩ := List.cons.inj hu
      obtain ⟨rfl, -⟩ := List.cons.inj hnext
      exact hline ⟨inner, u, by simp⟩

/-! ## What is found -/

/-- A search by byte position for two hyphens cuts the text before them. -/
theorem hyphens?_eq_some {text : String} {found : Nat} (h : hyphens? text = some found) :
    ∃ before after : String, text = before ++ "--" ++ after ∧ found = before.utf8ByteSize ∧
      ¬ ['-', '-'] <:+: before.toList ∧ before.toList.getLast? ≠ some '-' := by
  obtain ⟨⟨before, after⟩, hcut, rfl⟩ := Option.map_eq_some_iff.mp h
  obtain ⟨htext, hpair, hlast⟩ := Text.cutPair?_eq_some_iff.mp hcut
  refine ⟨String.ofList before, String.ofList after, ?_, rfl, ?_, ?_⟩
  · apply String.toList_inj.mp
    simp [htext]
  · rwa [String.toList_ofList]
  · rwa [String.toList_ofList]

theorem hyphens?_eq_none_iff {text : String} :
    hyphens? text = none ↔ ¬ ['-', '-'] <:+: text.toList := by
  rw [hyphens?, Text.findPair?, Option.map_eq_none_iff, Text.cutPair?_eq_none_iff]

/-- A text is its first line, and a rest that is empty or starts with the line feed. -/
theorem exists_line (text : String) :
    ∃ line tail : String, text = line ++ tail ∧ lineEnd text = line.utf8ByteSize ∧
      '\n' ∉ line.toList ∧
      ∀ c, tail.toList.head? = some c → c = '\n' := by
  refine ⟨String.ofList (text.toList.takeWhile (· ≠ '\n')),
    String.ofList (text.toList.dropWhile (· ≠ '\n')), ?_, rfl, ?_, ?_⟩
  · rw [← String.ofList_append, List.takeWhile_append_dropWhile, String.ofList_toList]
  · rw [String.toList_ofList]
    intro h
    simpa using List.all_eq_true.mp List.all_takeWhile _ h
  · intro c hc
    rw [String.toList_ofList] at hc
    have := List.head?_dropWhile_not (· ≠ '\n') text.toList
    rw [hc] at this
    simpa using this

/-- What the first hyphens in `rest` are, where `pre` stands before it in the text. -/
def Marker.Describes (pre rest : String) : Marker → Prop
  | missing => Plain rest.toList []
  | unclosed start => ∃ passed tail : String,
      rest = passed ++ tail ∧ start + 1 = (pre ++ passed).utf8ByteSize ∧
      Plain passed.toList tail.toList
  | closed start stop => ∃ passed run tail : String,
      rest = passed ++ ("--" ++ run ++ "--" ++ tail) ∧
      start = (pre ++ passed).utf8ByteSize ∧ stop = (pre ++ passed ++ "--" ++ run).utf8ByteSize ∧
      Plain passed.toList ("--" ++ run ++ "--" ++ tail).toList ∧ Enclosed run.toList

theorem size_hyphen : "-".utf8ByteSize = 1 := rfl

theorem size_hyphens : "--".utf8ByteSize = 2 := rfl

section

variable {pre passed run line after tail : String} (hpair : ¬ ['-', '-'] <:+: passed.toList)
  (hlast : passed.toList.getLast? ≠ some '-')
include hpair hlast

theorem unclosed_describes (hline : hyphens? line = none)
    (htail : ∀ c, tail.toList.head? = some c → c = '\n') :
    (Marker.unclosed (pre.utf8ByteSize + passed.utf8ByteSize)).Describes pre
    (passed ++ "--" ++ (line ++ tail)) := by
  refine ⟨passed ++ "-", "-" ++ (line ++ tail), ?_, ?_, ?_⟩
  · rw [show "--" = "-" ++ "-" from rfl]
    simp only [String.append_assoc]
  · simp only [String.utf8ByteSize_append, size_hyphen, Nat.add_assoc]
  · have hopens := not_opens (hyphens?_eq_none_iff.mp hline) htail
    simp only [String.toList_append]
    exact plain_append.mpr ⟨plain_before hpair hlast, plain_cons.mpr ⟨hopens, plain_nil⟩⟩

theorem closed_describes (hrun : Enclosed run.toList) :
    (Marker.closed (pre.utf8ByteSize + passed.utf8ByteSize)
      (pre.utf8ByteSize + passed.utf8ByteSize + 2 + run.utf8ByteSize)).Describes pre
      (passed ++ "--" ++ (run ++ "--" ++ after ++ tail)) := by
  refine ⟨passed, run, after ++ tail, ?_, ?_, ?_, ?_, hrun⟩
  · simp only [String.append_assoc]
  · rw [String.utf8ByteSize_append]
  · simp only [String.utf8ByteSize_append, size_hyphens]
  · simp only [String.toList_append, List.append_assoc]
    exact plain_before hpair hlast

end

/-- **The search for a marker.** It finishes at every place between two characters. -/
theorem exists_marker? {text pre rest : String} (htext : text = pre ++ rest) :
    ∃ m, marker? text pre.utf8ByteSize = some m ∧ m.Describes pre rest := by
  have hrest : Text.slice? text pre.utf8ByteSize text.utf8ByteSize = some rest :=
    Text.slice?_eq_some_iff.mpr ⟨pre, "", by rw [htext, String.append_empty], rfl, by rw [htext]⟩
  cases hfound : hyphens? rest with
  | none =>
    refine ⟨.missing, ?_, plain_of_no_pair (hyphens?_eq_none_iff.mp hfound)⟩
    simp only [marker?, hrest, hfound, bind, Option.bind_some, pure]
  | some found =>
    obtain ⟨passed, inner, rfl, rfl, hpair, hlast⟩ := hyphens?_eq_some hfound
    obtain ⟨line, tail, rfl, hend, hline, htail⟩ := exists_line inner
    -- Two more slices are read: what is behind the hyphens, and the first line of that.
    have hinner : Text.slice? text (pre.utf8ByteSize + passed.utf8ByteSize + 2) text.utf8ByteSize =
        some (line ++ tail) :=
      Text.slice?_eq_some_iff.mpr
        ⟨pre ++ passed ++ "--", "", by simp [htext, String.append_assoc], by simp [size_hyphens],
          by simp [htext, String.append_assoc]⟩
    have hslice : Text.slice? text (pre.utf8ByteSize + passed.utf8ByteSize + 2)
        (pre.utf8ByteSize + passed.utf8ByteSize + 2 + line.utf8ByteSize) = some line :=
      Text.slice?_eq_some_iff.mpr
        ⟨pre ++ passed ++ "--", tail, by simp [htext, String.append_assoc], by simp [size_hyphens],
          by simp [size_hyphens]⟩
    cases hclose : hyphens? line with
    | none =>
      refine ⟨.unclosed (pre.utf8ByteSize + passed.utf8ByteSize), ?_,
        unclosed_describes hpair hlast hclose htail⟩
      simp only [marker?, hrest, hfound, hinner, hend, hslice, hclose, bind, Option.bind_some, pure]
    | some length =>
      obtain ⟨run, after, rfl, rfl, hrun⟩ := hyphens?_eq_some hclose
      have henclosed : Enclosed run.toList := ⟨hrun.1, hrun.2, fun h => hline (by simp [h])⟩
      refine ⟨_, ?_, closed_describes hpair hlast henclosed⟩
      simp only [marker?, hrest, hfound, hinner, hend, hslice, hclose, bind, Option.bind_some, pure]

theorem describes_of_marker? {text pre rest : String} {search : Nat} {m : Marker}
    (h : marker? text search = some m) (htext : text = pre ++ rest)
    (hsearch : search = pre.utf8ByteSize) : m.Describes pre rest := by
  obtain ⟨found, hfound, hdescribes⟩ := exists_marker? htext
  rw [← hsearch, h] at hfound
  cases hfound
  exact hdescribes

end AccessibleMarkdown.Markdown.Deletion
