import AccessibleMarkdown.Audit.AltText
import Mathlib.Data.Finset.Card

/-!
# Repeats

The search for repeated texts goes over a list with the texts that it has seen. It finds the items
that have the text of an earlier one, and each text of the list is new once. What is said about the
images of a list of siblings is said about the repeats among them.
-/

namespace AccessibleMarkdown.Audit

section
variable {α β : Type} {alt? : α → Option String} {seen : List String} {xs : List α} {x c : α}
  {alt : String}

/-! ## 1. Items that repeat a text -/

/-- The items of a list whose text has been seen, in the beginning or at an earlier item. -/
def repeated (alt? : α → Option String) (seen : List String) : List α → List α
  | [] => []
  | x :: xs =>
    match alt? x with
    | none => repeated alt? seen xs
    | some alt => if alt ∈ seen then x :: repeated alt? seen xs else repeated alt? (alt :: seen) xs

theorem sublist_repeated (alt? : α → Option String) (seen : List String) (xs : List α) :
    (repeated alt? seen xs).Sublist xs := by
  fun_induction repeated alt? seen xs with
  | case1 => exact .slnil
  | case2 _ _ _ _ ih => exact ih.cons _
  | case3 _ _ _ _ _ _ ih => exact ih.cons_cons _
  | case4 _ _ _ _ _ _ ih => exact ih.cons _

theorem repeated_map (alt? : α → Option String) (seen : List String) (f : β → α) (ys : List β) :
    repeated alt? seen (ys.map f) = (repeated (fun y => alt? (f y)) seen ys).map f := by
  fun_induction repeated (fun y => alt? (f y)) seen ys with
  | case1 => rfl
  | case2 seen y ys halt ih =>
    rw [List.map_cons, repeated, halt]
    exact ih
  | case3 seen y ys alt halt hseen ih =>
    rw [List.map_cons, List.map_cons, repeated, halt, ← ih]
    exact if_pos hseen
  | case4 seen y ys alt halt hseen ih =>
    rw [List.map_cons, repeated, halt, ← ih]
    exact if_neg hseen

/-- The item is in the list, and its text is one of `seen` or belongs to an item before it. -/
def Repeats (alt? : α → Option String) (seen : List String) (xs : List α) (c : α) : Prop :=
  ∃ before after alt, xs = before ++ c :: after ∧ alt? c = some alt ∧
    (alt ∈ seen ∨ ∃ a ∈ before, alt? a = some alt)

theorem Repeats.mono {seen' : List String} (h : Repeats alt? seen xs c) (hseen : seen ⊆ seen') :
    Repeats alt? seen' xs c := by
  obtain ⟨before, after, alt, hxs, halt, hfirst⟩ := h
  exact ⟨before, after, alt, hxs, halt, hfirst.imp_left (hseen ·)⟩

/-- For the rest of a list, the text of its head has been seen. -/
theorem repeats_cons :
    Repeats alt? seen (x :: xs) c ↔
      (c = x ∧ ∃ alt ∈ seen, alt? x = some alt) ∨ Repeats alt? ((alt? x).toList ++ seen) xs c := by
  have hfirst : ∀ alt before, (alt ∈ (alt? x).toList ++ seen ∨ ∃ a ∈ before, alt? a = some alt) ↔
      alt ∈ seen ∨ ∃ a ∈ x :: before, alt? a = some alt := by
    intro alt before
    rw [List.mem_append, Option.mem_toList, List.exists_mem_cons_iff, or_assoc, or_left_comm]
  constructor
  · rintro ⟨before, after, alt, hxs, halt, hseen⟩
    obtain ⟨rfl, hhead⟩ | ⟨before, rfl, rfl⟩ := List.cons_eq_append_iff.mp hxs
    · cases hhead
      exact .inl ⟨rfl, alt, hseen.resolve_right (by simp), halt⟩
    · exact .inr ⟨before, after, alt, rfl, halt, (hfirst alt before).mpr hseen⟩
  · rintro (⟨rfl, alt, hseen, halt⟩ | ⟨before, after, alt, rfl, halt, hseen⟩)
    · exact ⟨[], xs, alt, rfl, halt, .inl hseen⟩
    · exact ⟨x :: before, after, alt, rfl, halt, (hfirst alt before).mp hseen⟩

theorem mem_repeated_iff : c ∈ repeated alt? seen xs ↔ Repeats alt? seen xs c := by
  fun_induction repeated alt? seen xs with
  | case1 => simp [Repeats]
  | case2 seen x xs halt ih =>
    rw [repeats_cons, halt, ih]
    simp
  | case3 seen x xs alt halt hseen ih =>
    have hhead : ∃ alt ∈ seen, alt? x = some alt := ⟨alt, hseen, halt⟩
    have hrest : Repeats alt? (alt :: seen) xs c ↔ Repeats alt? seen xs c :=
      ⟨fun h => h.mono (List.cons_subset.mpr ⟨hseen, List.Subset.refl _⟩),
        fun h => h.mono (List.subset_cons_self _ _)⟩
    rw [repeats_cons, and_iff_left hhead, halt, List.mem_cons, ih]
    exact or_congr_right hrest.symm
  | case4 seen x xs alt halt hseen ih =>
    have hhead : ¬ ∃ alt ∈ seen, alt? x = some alt := by
      rintro ⟨alt', hseen', halt'⟩
      obtain rfl : alt = alt' := Option.some.inj (halt.symm.trans halt')
      exact hseen hseen'
    rw [repeats_cons, or_iff_right fun h => hhead h.2, halt, ih]
    rfl

/-- Each text is new once, unless it has been seen in the beginning. -/
theorem length_repeated (alt? : α → Option String) (seen : List String) (xs : List α) :
    (repeated alt? seen xs).length + ((xs.filterMap alt?).toFinset \ seen.toFinset).card =
      (xs.filterMap alt?).length := by
  fun_induction repeated alt? seen xs with
  | case1 => simp
  | case2 seen x xs halt ih => rw [List.filterMap_cons_none halt, ih]
  | case3 seen x xs alt halt hseen ih =>
    rw [List.filterMap_cons_some halt, List.toFinset_cons,
      Finset.insert_sdiff_of_mem _ (List.mem_toFinset.mpr hseen), List.length_cons,
      List.length_cons, ← ih]
    omega
  | case4 seen x xs alt halt hseen ih =>
    have hnew : alt ∉ seen.toFinset := fun h => hseen (List.mem_toFinset.mp h)
    rw [List.filterMap_cons_some halt, List.toFinset_cons, Finset.insert_sdiff_of_notMem _ hnew,
      List.length_cons, ← ih, List.toFinset_cons,
      Finset.sdiff_insert, ← Finset.card_erase_add_one (Finset.mem_insert_self alt _),
      Finset.erase_insert_eq_erase, Nat.add_assoc]

/-- Nothing is repeated if all texts are different, and different from those seen before. -/
theorem repeated_eq_nil_iff (alt? : α → Option String) (seen : List String) (xs : List α) :
    repeated alt? seen xs = [] ↔ (xs.filterMap alt?).Nodup ∧ ∀ alt ∈ xs.filterMap alt?,
      alt ∉ seen := by
  fun_induction repeated alt? seen xs with
  | case1 => simp
  | case2 seen x xs halt ih => rw [List.filterMap_cons_none halt, ih]
  | case3 seen x xs alt halt hseen ih =>
    rw [List.filterMap_cons_some halt]
    simp [hseen]
  | case4 seen x xs alt halt hseen ih =>
    rw [List.filterMap_cons_some halt, ih]
    -- The text is new; those after it must differ from it as well.
    simp only [List.nodup_cons, List.mem_cons, not_or, forall_eq_or_imp]
    grind

end

/-! ## 2. Repeats among siblings -/

variable {t u : Tree} {cx : Context} {seen : List String} {index : Nat} {ids : List NodeId}
  {d : Diagnostic}

/-- The image that a node is, if it is one. -/
def imageAt? (t : Tree) (id : NodeId) : Option Element := (t.element? id).filter (·.tag == .img)

/-- The alternative text of the image that a node is. -/
def altAt? (t : Tree) (id : NodeId) : Option String := (imageAt? t id).bind (·.get? "alt")

/-- What is said about an image whose text is repeated. -/
def repeatNote (t : Tree) (path : Path) (id : NodeId) : Diagnostic where
  rule := "alt-duplicate"
  criterion := some .nonTextContent
  message := "Found an image with duplicate alt text(" ++ (altAt? t id).getD "" ++ ") for " ++
    ((imageAt? t id).map srcOf).getD ""
  path := path

/-- The search reports the repeats of a list of siblings, each at its position. -/
theorem altRepeats_eq (t : Tree) (cx : Context) (seen : List String) (index : Nat)
    (ids : List NodeId) :
    altRepeats t cx seen index ids =
      (repeated (fun x => altAt? t x.1) seen (ids.zipIdx index)).map fun x =>
        repeatNote t (cx.path.child x.2) x.1 := by
  -- For every position, and whatever texts have been seen in front of it.
  induction ids generalizing seen index with
  | nil => rfl
  | cons id ids ih =>
    rw [altRepeats, List.zipIdx_cons, repeated]
    simp only [ih]
    split
    · rename_i himg
      have halt : altAt? t id = none := by rw [altAt?, imageAt?, himg]; rfl
      simp only [halt]
    · rename_i img himg
      have hget : altAt? t id = img.get? "alt" := by rw [altAt?, imageAt?, himg]; rfl
      simp only [hget]
      cases halt : img.get? "alt" with
      | none => rfl
      | some alt =>
        by_cases hseen : alt ∈ seen
        · have hnote : repeatNote t (cx.path.child index) id =
              { rule := "alt-duplicate", criterion := some .nonTextContent,
                message :=
                  "Found an image with duplicate alt text(" ++ alt ++ ") for " ++ srcOf img,
                path := cx.path.child index } := by
            rw [repeatNote, hget, halt, imageAt?, himg]
            rfl
          simp only [if_pos hseen]
          rw [List.map_cons, hnote]
        · simp only [if_neg hseen]

end AccessibleMarkdown.Audit
