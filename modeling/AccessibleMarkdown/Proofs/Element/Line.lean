import AccessibleMarkdown.Tree.Outline
import AccessibleMarkdown.Proofs.Text.Quoting

/-!
# The line of an element

Under mild conditions on its names, an element is known from its line in an outline, whichever
characters the quoted values in it show as they are.
-/

namespace AccessibleMarkdown

open Text (Delimits)
open Text.Quoted (Safe quoteWith)

/-! ## 1. Tags -/

namespace Tag

theorem name_inj_of_known : ∀ a ∈ known, ∀ b ∈ known, a.name = b.name → a = b := by decide

/-- A name that a known tag has is read as that tag. -/
theorem ofName_cases (name : String) :
    ofName name ∈ known ∨ ∃ rest, ofName name = other rest ∧ ∀ tag ∈ known, tag.name ≠ rest := by
  rw [ofName]
  cases hfound : known.find? (·.name == name.map Char.toLower) with
  | some tag => exact Or.inl (List.mem_of_find?_eq_some hfound)
  | none =>
    refine Or.inr ⟨_, rfl, fun tag htag heq => ?_⟩
    have hnot := List.find?_eq_none.mp hfound tag htag
    exact hnot (beq_iff_eq.mpr heq)

/-- Tags that were read are known from their names. -/
theorem ofName_inj {a b : String} (h : (ofName a).name = (ofName b).name) :
    ofName a = ofName b := by
  obtain ha | ⟨rest, ha, hfree⟩ := ofName_cases a
  · obtain hb | ⟨rest, hb, hfree⟩ := ofName_cases b
    · exact name_inj_of_known _ ha _ hb h
    · rw [hb] at h
      exact absurd h (hfree _ ha)
  · obtain hb | ⟨rest', hb, -⟩ := ofName_cases b
    · rw [ha] at h
      exact absurd h.symm (hfree _ hb)
    · rw [ha, hb] at h ⊢
      exact congrArg other h

end Tag

namespace Element

variable {raw : Char → Bool} {e other : Element}

/-! ## 2. Fields -/

/-- What a line shows after the tag: the attributes, then text and tail if there are any. -/
def fields (e : Element) : List (String × String) :=
  e.attrs.toList ++
    ((e.text.map fun text => ("text", text)).toList ++
      (e.tail.map fun tail => ("tail", tail)).toList)

/-- The line of an element, in which `quote` writes the values. -/
def outlineWith (quote : String → String) (e : Element) : String :=
  e.tag.name ++ String.join (e.fields.map fun (name, value) => " " ++ name ++ "=" ++ quote value)

/-- A field, from the blank in front of it on. -/
def fieldChars (quote : String → String) (field : String × String) : List Char :=
  [' '] ++ (field.1.toList ++ ('=' :: (quote field.2).toList))

theorem toList_outlineWith (quote : String → String) (e : Element) :
    (e.outlineWith quote).toList = e.tag.name.toList ++ e.fields.flatMap (fieldChars quote) := by
  rw [outlineWith, String.toList_append, String.toList_join, List.flatMap_map]
  unfold fieldChars
  simp

theorem outline_eq (e : Element) : e.outline = e.outlineWith Text.quote := by
  rw [← String.toList_inj, toList_outlineWith, outline, fields]
  unfold fieldChars
  cases e.text <;> cases e.tail <;> simp [String.toList_join, List.flatMap_map]

/-- A line does not confuse the names. The tag was read from a name, and that is neither empty nor
divided; the name of an attribute ends where the equals sign comes, and is not taken for that of a
text. -/
structure Legible (e : Element) : Prop where
  read : ∃ name, e.tag = Tag.ofName name
  tag_ne_empty : e.tag.name ≠ ""
  no_blank : ' ' ∉ e.tag.name.toList
  no_break : '\n' ∉ e.tag.name.toList
  no_equals : ∀ pair ∈ e.attrs.toList, '=' ∉ pair.1.toList
  not_text : ∀ pair ∈ e.attrs.toList, pair.1 ≠ "text" ∧ pair.1 ≠ "tail"

theorem Legible.tag_solid (h : e.Legible) :
    ∀ c ∈ e.tag.name.toList, c ≠ ' ' ∧ c ≠ '\n' := fun _ hc =>
  ⟨ne_of_mem_of_not_mem hc h.no_blank, ne_of_mem_of_not_mem hc h.no_break⟩

theorem Legible.name_of_mem_fields (h : e.Legible) {field : String × String}
    (hfield : field ∈ e.fields) : '=' ∉ field.1.toList := by
  rw [fields, List.mem_append, List.mem_append, Option.mem_toList, Option.mem_toList] at hfield
  obtain hattr | htext | htail := hfield
  · exact h.no_equals field hattr
  · obtain ⟨text, -, rfl⟩ := Option.map_eq_some_iff.mp htext
    exact show '=' ∉ "text".toList by decide
  · obtain ⟨tail, -, rfl⟩ := Option.map_eq_some_iff.mp htail
    exact show '=' ∉ "tail".toList by decide

/-- The attributes end where the name of a text comes. -/
theorem Legible.fields_inj (h : e.Legible) (h' : other.Legible) (heq : e.fields = other.fields) :
    e.attrs = other.attrs ∧ e.text = other.text ∧ e.tail = other.tail := by
  have hstop : ∀ e : Element, ∀ field ∈ ((e.text.map fun text => ("text", text)).toList ++
      (e.tail.map fun tail => ("tail", tail)).toList).head?,
      ¬ (field.1 ≠ "text" ∧ field.1 ≠ "tail") := by
    intro e
    cases e.text <;> cases e.tail <;> simp
  obtain ⟨hattrs, htexts⟩ := Text.run_inj h.not_text h'.not_text (hstop e) (hstop other) heq
  have hpair : ∀ a b : Attribute, a.pair = b.pair → a = b := by
    rintro ⟨_, _⟩ ⟨_, _⟩ hab
    obtain ⟨rfl, rfl⟩ := Prod.mk.inj hab
    rfl
  refine ⟨Attributes.ext_entries (Array.toList_inj.mp ((List.map_inj_right hpair).mp hattrs)), ?_⟩
  revert htexts
  cases e.text <;> cases other.text <;> cases e.tail <;> cases other.tail <;> simp

/-! ## 3. Lines -/

/-- A field ends with its value, which is quoted. -/
theorem delimits_field (h : Safe raw) {a b : String × String} (ha : '=' ∉ a.1.toList)
    (hb : '=' ∉ b.1.toList) : Delimits (fieldChars (quoteWith raw)) a b := by
  refine Text.Delimits.append_left (fun s t heq => ?_) [' ']
  rw [List.append_assoc, List.append_assoc] at heq
  have hrun : ∀ name : List Char, '=' ∉ name → ∀ c ∈ name, c ≠ '=' :=
    fun _ hname _ hc => ne_of_mem_of_not_mem hc hname
  obtain ⟨hname, hrest⟩ := Text.run_inj (hrun _ ha) (hrun _ hb) (by simp) (by simp) heq
  obtain ⟨hvalue, hst⟩ := Text.Quoted.delimits_quoteWith h a.2 b.2 s t (List.cons.inj hrest).2
  exact ⟨Prod.ext (String.toList_inj.mp hname) hvalue, hst⟩

/-- **A line tells its element.** -/
theorem delimits_line (hraw : Safe raw) (h : e.Legible) (h' : other.Legible) :
    Delimits (fun e => (e.outlineWith (quoteWith raw)).toList ++ ['\n']) e other := by
  intro s t heq
  simp only [toList_outlineWith, List.append_assoc] at heq
  -- The tag ends before the blank in front of a field, or else at the end of the line.
  have hstop : ∀ (fields : List (String × String)) (s : List Char),
      ∀ c ∈ (fields.flatMap (fieldChars (quoteWith raw)) ++ (['\n'] ++ s)).head?,
        ¬ (c ≠ ' ' ∧ c ≠ '\n') := by
    intro fields s
    cases fields <;> simp [fieldChars]
  obtain ⟨htag, hrest⟩ := Text.run_inj h.tag_solid h'.tag_solid (hstop _ _) (hstop _ _) heq
  have hfields :
      Delimits (fun l => l.flatMap (fieldChars (quoteWith raw)) ++ ['\n']) e.fields other.fields :=
    Text.delimits_flatMap (fun _ _ _ hopen => absurd (List.cons.inj hopen).1 (by decide))
      fun a ha b hb => delimits_field hraw (h.name_of_mem_fields ha) (h'.name_of_mem_fields hb)
  obtain ⟨hsame, hst⟩ := hfields s t (by simpa only [List.append_assoc] using hrest)
  obtain ⟨hattrs, htext, htail⟩ := h.fields_inj h' hsame
  have hread : e.tag = other.tag := by
    obtain ⟨name, hname⟩ := h.read
    obtain ⟨name', hname'⟩ := h'.read
    rw [hname, hname'] at htag ⊢
    exact Tag.ofName_inj (String.toList_inj.mp htag)
  refine ⟨?_, hst⟩
  cases e
  cases other
  rw [Element.mk.injEq]
  exact ⟨hread, hattrs, htext, htail⟩

end Element

end AccessibleMarkdown
