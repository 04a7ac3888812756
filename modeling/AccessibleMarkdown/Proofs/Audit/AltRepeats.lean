import AccessibleMarkdown.Proofs.Audit.Coverage
import AccessibleMarkdown.Proofs.Audit.Findings

/-!
# Repeated texts

The search for repeated texts goes over the children of a paragraph with the texts that it has seen.
What it reports are the images that have the text of an earlier image there, and no other ones.
-/

namespace AccessibleMarkdown.Audit

variable {t : Tree} {kids : NodeId → List NodeId} {p c : NodeId}

/-! ## 1. Repeats in a paragraph -/

/-- The node is a child of `p`, and an earlier child is an image with the same text. -/
def RepeatsAlt (t : Tree) (p c : NodeId) : Prop :=
  ∃ before after a alt, t.children p = before ++ c :: after ∧ a ∈ before ∧ altAt? t a = some alt ∧
    altAt? t c = some alt

theorem repeatsAlt_iff : RepeatsAlt t p c ↔ c ∈ repeated (altAt? t) [] (t.children p) := by
  rw [mem_repeated_iff]
  constructor
  · rintro ⟨before, after, a, alt, hids, ha, hfirst, halt⟩
    exact ⟨before, after, alt, hids, halt, .inr ⟨a, ha, hfirst⟩⟩
  · rintro ⟨before, after, alt, hids, halt, hseen | ⟨a, ha, hfirst⟩⟩
    · exact absurd hseen List.not_mem_nil
    · exact ⟨before, after, a, alt, hids, ha, hfirst, halt⟩

/-- The list has the children of `p` that repeat a text, in their order. -/
structure ListsRepeats (t : Tree) (p : NodeId) (repeats : List NodeId) : Prop where
  order : repeats.Sublist (t.children p)
  once : repeats.Nodup
  mem : ∀ c, c ∈ repeats ↔ RepeatsAlt t p c
  place : ∀ before c after, t.children p = before ++ c :: after →
    t.path c = (t.path p).child before.length
  /-- Each text that there is comes first once. -/
  count : repeats.length + ((t.children p).filterMap (altAt? t)).toFinset.card =
    ((t.children p).filterMap (altAt? t)).length

theorem listsRepeats (h : t.Linked kids) (p : NodeId) :
    ListsRepeats t p (repeated (altAt? t) [] (t.children p)) where
  order := sublist_repeated _ _ _
  once := (h.nodup_children p).sublist (sublist_repeated _ _ _)
  mem _ := repeatsAlt_iff.symm
  place before c after hids := h.path_of_getElem? (by simp [hids])
  count := by
    have hlength := length_repeated (altAt? t) [] (t.children p)
    rwa [List.toFinset_nil, Finset.sdiff_empty] at hlength

/-! ## 2. Repeats in a subtree -/

/-- What a search in the subtree of `scope` does: it leaves the tree alone, and reports the repeats
of each outermost paragraph in document order. -/
structure RepeatsReported (t : Tree) (scope : NodeId) (ds : Diagnostics)
    (after : Tree × Diagnostics) : Prop where
  kept : after.1 = t
  reported : ∃ paragraphs : List NodeId, (∀ p, p ∈ paragraphs ↔ t.Outermost .p scope p) ∧
    (paragraphs.Pairwise fun p q => (t.path p).Before (t.path q)) ∧
    ∃ repeats : NodeId → List NodeId, (∀ p, ListsRepeats t p (repeats p)) ∧
      after.2 = ds ++
        (paragraphs.flatMap fun p => (repeats p).map fun c => repeatNote t (t.path c) c).toArray

/-- The search reports the repeats among the children of a node, each at its place. -/
theorem altRepeats_children (h : t.Linked kids) (p : NodeId) :
    altRepeats t (.ofPath (t.path p)) [] 0 (t.children p) =
      (repeated (altAt? t) [] (t.children p)).map fun c => repeatNote t (t.path c) c := by
  have hplace : ∀ x ∈ (t.children p).zipIdx, t.path x.1 = (t.path p).child x.2 := by
    rintro ⟨c, i⟩ hmem
    exact h.path_of_getElem? (List.mk_mem_zipIdx_iff_getElem?.mp hmem)
  have hmap := repeated_map (altAt? t) [] Prod.fst (t.children p).zipIdx
  rw [List.zipIdx_map_fst] at hmap
  rw [altRepeats_eq, hmap, List.map_map]
  apply List.map_congr_left
  intro x hx
  exact congrArg (repeatNote t · x.1) (hplace x ((sublist_repeated _ _ _).subset hx)).symm

theorem survey_repeatNotes (h : t.Linked kids) (scope : NodeId) :
    t.survey (repeatNotes t) (t.stops (stopAt .p) scope) = (covered t .p scope).flatMap fun p =>
      (repeated (altAt? t) [] (t.children p)).map fun c => repeatNote t (t.path c) c := by
  have hother : ∀ id cx e, e.tag ≠ .p → repeatNotes t id cx e = [] := fun _ _ _ hne => if_neg hne
  rw [survey_covered h hother]
  apply List.flatMap_congr
  intro p hp
  obtain ⟨e, he, htag⟩ := Tree.tag?_eq_some.mp ((mem_covered_iff h).mp hp).1
  rw [he, Option.map_some, Option.getD_some, repeatNotes, if_pos htag, altRepeats_children h]

/-- **Repeated texts.** In each outermost paragraph of a subtree the search reports just the images
that have the text of an image before them, and nothing changes. -/
theorem altDuplicates_reports (ht : t.Reachable) (scope : NodeId) (ds : Diagnostics) :
    RepeatsReported t scope ds (t.walkFrom altDuplicates scope ds) := by
  obtain ⟨kids, h⟩ := ht.linked
  rw [reports_altDuplicates.walkFrom_eq, survey_repeatNotes h]
  exact ⟨rfl, covered t .p scope, fun p => mem_covered_iff h, pairwise_covered h .p scope, _,
    listsRepeats h, rfl⟩

/-- An image with a text of its own, one that repeats it, and one in a paragraph of its own. -/
theorem altDuplicates_reports_second :
    let img : Element := { tag := .img, attrs := .ofList [("src", "a.png"), ("alt", "A")] }
    let t :=
      Tree.session { tag := .div }
        [.append 0 { tag := .p }, .append 1 img, .append 1 { tag := .img },
      .append 1 img, .append 0 { tag := .p }, .append 5 img]
    t.Reachable ∧ RepeatsReported t 0 #[] (t.walkFrom altDuplicates 0 #[]) ∧ RepeatsAlt t 1 4 ∧
      (t.walkFrom altDuplicates 0 #[]).2.toList.map (·.path) = [⟨[0, 2]⟩] := by
  intro img t
  have ht : t.Reachable := ⟨_, _, rfl⟩
  have hrepeats : RepeatsAlt t 1 4 :=
    ⟨[2, 3], [], 2, "A", by decide, by decide, by decide, by decide⟩
  exact ⟨ht, altDuplicates_reports ht 0 #[], hrepeats, by decide⟩

end AccessibleMarkdown.Audit
