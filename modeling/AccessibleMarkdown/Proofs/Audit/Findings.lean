import AccessibleMarkdown.Proofs.Audit.Marking
import AccessibleMarkdown.Report
import Mathlib.Data.List.Pairwise

/-!
# What there is to find

Where every image has an alternative text, the findings of an audit are read off the tree: the
images whose text is empty, the paragraphs in which a text is repeated, and the mark of a missing
title. The repair that comes before the search for repeated texts adds no finding of its own.
-/

namespace AccessibleMarkdown

open Audit

variable {t : Tree} {kids : NodeId → List NodeId} {id : NodeId}

/-! ## 1. Faults of a tree -/

namespace Tree

/-- An image has an empty alternative text. -/
def HasEmptyAlt (t : Tree) : Prop := ∃ id, altAt? t id = some ""

/-- Two images that stand directly in a paragraph, which is in no other paragraph, have the same
alternative text. -/
def HasRepeatedAlt (t : Tree) : Prop :=
  ∃ p, t.tag? p = some .p ∧ (∀ q, t.parent? p = some q → t.Clear [.p] q) ∧
    ∃ a ∈ t.children p, ∃ b ∈ t.children p, a ≠ b ∧ ∃ alt,
      altAt? t a = some alt ∧ altAt? t b = some alt

/-- There is something below the root, but no title comes first. -/
def Untitled (t : Tree) : Prop :=
  ∃ first e, t.firstChild? rootId = some first ∧ t.element? first = some e ∧ e.tag ≠ .h1

/-- Every image has an alternative text. -/
def HasAlts (t : Tree) : Prop :=
  ∀ id e, t.element? id = some e → e.tag = .img → ∃ alt, e.get? "alt" = some alt

end Tree

namespace Audit

theorem altAt?_eq_some {alt : String} :
    altAt? t id = some alt ↔
      ∃ e, t.element? id = some e ∧ e.tag = .img ∧ e.get? "alt" = some alt := by
  unfold altAt? imageAt?
  simp only [Option.bind_eq_some_iff, Option.filter_eq_some_iff, beq_iff_eq]
  constructor
  · rintro ⟨e, ⟨he, htag⟩, halt⟩
    exact ⟨e, he, htag, halt⟩
  · rintro ⟨e, he, htag, halt⟩
    exact ⟨e, ⟨he, htag⟩, halt⟩

/-! ## 2. Rules and severities -/

/-- All of the diagnostics are of one rule and of one severity. -/
def Uniform (rule : String) (severity : Severity) (ds : List Diagnostic) : Prop :=
  ∀ d ∈ ds, d.rule = rule ∧ d.severity = severity

namespace Uniform

variable {rule : String} {severity : Severity} {ds : List Diagnostic}

theorem filter_rule (h : Uniform rule severity ds) (other : String) :
    ds.filter (·.rule == other) = if rule = other then ds else [] := by
  split
  · rename_i heq
    apply List.filter_eq_self.mpr
    intro d hd
    simp [(h d hd).1, heq]
  · rename_i hne
    apply List.filter_eq_nil_iff.mpr
    intro d hd
    simp [(h d hd).1, hne]

theorem exists_info_iff (h : Uniform rule .info ds) : (∃ d ∈ ds, d.severity = .info) ↔ ds ≠ [] := by
  constructor
  · rintro ⟨d, hd, -⟩
    exact List.ne_nil_of_mem hd
  · intro hne
    obtain ⟨d, hd⟩ := List.exists_mem_of_ne_nil ds hne
    exact ⟨d, hd, (h d hd).2⟩

theorem survey {notes : NodeId → Context → Element → List Diagnostic}
    (h : ∀ id cx e, Uniform rule severity (notes id cx e)) (t : Tree)
    (stops : List (NodeId × Context)) : Uniform rule severity (t.survey notes stops) := by
  intro d hd
  obtain ⟨stop, -, e, -, hd⟩ := Tree.mem_survey.mp hd
  exact h _ _ e d hd

end Uniform

theorem uniform_altRepeats (t : Tree) (cx : Context) (seen : List String) (index : Nat)
    (ids : List NodeId) : Uniform "alt-duplicate" .info (altRepeats t cx seen index ids) := by
  intro d hd
  obtain ⟨i, id, img, alt, -, -, rfl⟩ := exists_of_mem_altRepeats hd
  exact ⟨rfl, rfl⟩

theorem uniform_repeatNotes (t : Tree) (id : NodeId) (cx : Context) (e : Element) :
    Uniform "alt-duplicate" .info (repeatNotes t id cx e) := by
  unfold repeatNotes
  split
  · exact uniform_altRepeats _ _ _ _ _
  · exact List.forall_mem_nil _

theorem uniform_titleFaults (t : Tree) : Uniform "title-missing" .info (titleFaults t) := by
  unfold titleFaults
  split <;> simp [Uniform]

theorem uniform_roleNotes (id : NodeId) (cx : Context) (e : Element) :
    Uniform "aria-role-set" .debug (roleNotes id cx e) := by
  unfold roleNotes
  split <;> simp [Uniform]

/-! ## 3. Repeated texts -/

/-- No text is repeated if all of them are different, and different from those seen before. -/
theorem altRepeats_eq_nil_iff (t : Tree) (cx : Context) (seen : List String) (index : Nat)
    (ids : List NodeId) :
    altRepeats t cx seen index ids = [] ↔
      (ids.filterMap (altAt? t)).Nodup ∧ ∀ alt ∈ ids.filterMap (altAt? t), alt ∉ seen := by
  have halts : (ids.zipIdx index).filterMap (fun x => altAt? t x.1) = ids.filterMap (altAt? t) := by
    rw [← List.zipIdx_map_fst index ids, List.filterMap_map, List.zipIdx_map_fst]
    rfl
  rw [altRepeats_eq, List.map_eq_nil_iff, repeated_eq_nil_iff, halts]

/-- In a list of different nodes the texts are all different if no two nodes have the same one. -/
theorem nodup_alts_iff {ids : List NodeId} (h : ids.Nodup) :
    (ids.filterMap (altAt? t)).Nodup ↔
      ¬ ∃ a ∈ ids, ∃ b ∈ ids, a ≠ b ∧ ∃ alt, altAt? t a = some alt ∧ altAt? t b = some alt := by
  rw [List.nodup_iff_pairwise_ne, List.pairwise_filterMap]
  constructor
  · rintro hpair ⟨a, ha, b, hb, hne, alt, halt, halt'⟩
    have : Std.Symm fun a b => a ≠ b → ∀ alt, altAt? t a = some alt →
        ∀ alt', altAt? t b = some alt' → alt ≠ alt' :=
      ⟨fun a b h hne alt halt alt' halt' => (h hne.symm alt' halt' alt halt).symm⟩
    have hall := (hpair.imp fun {a b} hab (_ : a ≠ b) => hab).forall_of_forall
      (fun a _ hself => absurd rfl hself) ha hb
    exact hall hne alt halt alt halt' rfl
  · intro hno
    refine h.pairwise_of_forall_ne fun a ha b hb hne alt halt alt' halt' heq => hno ?_
    exact ⟨a, ha, b, hb, hne, alt, halt, heq ▸ halt'⟩

theorem mem_reached_stopAt_iff (h : t.Whole) {tag : Tag} (hid : id < t.size) :
    id ∈ t.reached (stopAt tag) Tree.rootId ↔ ∀ p, t.parent? id = some p → t.Clear [tag] p := by
  obtain ⟨kids, hl⟩ := h.linked
  constructor
  · intro hmem p hp
    refine hl.clear_of_mem_reached (fun k hk => ?_) hmem hp
    exact if_pos (List.mem_singleton.mp hk)
  · exact mem_reached_stopAt h hid

theorem survey_repeatNotes_eq_nil_iff (h : t.Whole) :
    t.survey (repeatNotes t) (t.stops (stopAt .p) Tree.rootId) = [] ↔ ¬ t.HasRepeatedAlt := by
  obtain ⟨kids, hl⟩ := h.linked
  rw [hl.stops_root, Tree.survey, List.flatMap_map, List.flatMap_eq_nil_iff]
  -- What is said about a node, if the walk meets it.
  have hnode :
      ∀ id, ((t.element? id).map (repeatNotes t id (t.placed (stopAt .p) id))).getD [] = [] ↔
        (t.tag? id = some .p → ¬ ∃ a ∈ t.children id, ∃ b ∈ t.children id, a ≠ b ∧
          ∃ alt, altAt? t a = some alt ∧ altAt? t b = some alt) := by
    intro id
    cases he : t.element? id with
    | none => simp [Tree.tag?, he]
    | some e =>
      rw [Tree.tag?_of_element? he, Option.map_some, Option.getD_some, repeatNotes,
        Option.some.injEq]
      split
      · rename_i htag
        rw [altRepeats_eq_nil_iff, nodup_alts_iff (hl.nodup_children id)]
        simp [htag]
      · rename_i htag
        simp [htag]
  simp only [hnode]
  constructor
  · rintro hall ⟨p, htag, hclear, hrepeat⟩
    exact hall p ((mem_reached_stopAt_iff h (Tree.lt_size_of_tag? htag)).mpr hclear) htag hrepeat
  · intro hno id hid htag hrepeat
    exact hno ⟨id, htag, (mem_reached_stopAt_iff h (Tree.lt_size_of_tag? htag)).mp hid, hrepeat⟩

/-! ## 4. Empty texts -/

/-- The finding about an image without alternative text. -/
def emptyNote (t : Tree) (id : NodeId) : Diagnostic where
  rule := "alt-empty"
  criterion := some .nonTextContent
  message := "Found an image with empty alt text for " ++ ((imageAt? t id).map srcOf).getD ""
  path := t.path id

/-- The findings about images without alternative text, in document order. -/
def emptyNotes (t : Tree) : List Diagnostic :=
  ((t.findAll Tree.rootId .img).filter (altAt? t · = some "")).map (emptyNote t)

theorem uniform_emptyNotes (t : Tree) : Uniform "alt-empty" .info (emptyNotes t) := by
  intro d hd
  obtain ⟨id, -, rfl⟩ := List.mem_map.mp hd
  exact ⟨rfl, rfl⟩

/-- Nothing is below an image, so a walk that stops at images meets every node. -/
theorem reached_images (h : t.Whole) :
    t.reached (stopAt .img) Tree.rootId = t.preorder Tree.rootId := by
  obtain ⟨kids, hl⟩ := h.linked
  -- On the fuel: the two walks part only at an image, and there both have nowhere to go.
  have hsame :
      ∀ fuel id, t.visited (stopAt .img) fuel id = t.visited (fun _ => .children) fuel id := by
    intro fuel
    induction fuel with
    | zero => exact fun _ => rfl
    | succ fuel ih =>
      intro id
      cases he : t.element? id with
      | none => rw [Tree.visited, Tree.visited, he]
      | some e =>
        rw [Tree.visited_succ he, Tree.visited_succ he, funext ih]
        by_cases htag : e.tag = .img
        · have hnone :=
            h.children_eq_nil ((Tree.tag?_of_element? he).trans (congrArg some htag))
              List.mem_cons_self
          rw [stopAt, if_pos htag, hnone]
          rfl
        · rw [stopAt, if_neg htag]
  rw [hl.preorder_eq_reached hl.root_lt, Tree.reached, hsame]
  rfl

/-- The images with an empty text are reported, each once. -/
theorem survey_altNotes (h : t.Whole) (halts : t.HasAlts) :
    t.survey altNotes (t.stops (stopAt .img) Tree.rootId) = emptyNotes t := by
  obtain ⟨kids, hl⟩ := h.linked
  have hnode : ∀ id, ((t.element? id).map (altNotes id (t.placed (stopAt .img) id))).getD [] =
      if altAt? t id = some "" then [emptyNote t id] else [] := by
    intro id
    cases he : t.element? id with
    | none => simp [altAt?, imageAt?, he]
    | some e =>
      rw [Option.map_some, Option.getD_some, altNotes]
      split
      · rename_i htag
        obtain ⟨alt, halt⟩ := halts id e he htag
        have himg : imageAt? t id = some e := by simp [imageAt?, he, htag]
        have hat : altAt? t id = some alt := by simp [altAt?, himg, halt]
        rw [altFault?, halt, hat]
        by_cases hempty : alt = ""
        · subst hempty
          simp [emptyNote, himg, Tree.placed]
        · simp [hempty]
      · rename_i htag
        rw [if_neg]
        rintro hempty
        obtain ⟨e', he', himg, -⟩ := altAt?_eq_some.mp hempty
        rw [he, Option.some.injEq] at he'
        exact htag (he' ▸ himg)
  rw [hl.stops_root, reached_images h, emptyNotes, hl.findAll_eq, Tree.survey, List.flatMap_map]
  simp only [hnode]
  -- Of the nodes in document order only images have an alternative text.
  induction t.preorder Tree.rootId with
  | nil => rfl
  | cons id ids ih =>
    rw [List.flatMap_cons, ih]
    by_cases hempty : altAt? t id = some ""
    · obtain ⟨e, he, htag, -⟩ := altAt?_eq_some.mp hempty
      simp [hempty, he, htag]
    · by_cases himg : (t.element? id).any (·.tag = .img) <;> simp [hempty, himg]

theorem survey_altNotes_eq_nil_iff (h : t.Whole) (halts : t.HasAlts) :
    t.survey altNotes (t.stops (stopAt .img) Tree.rootId) = [] ↔ ¬ t.HasEmptyAlt := by
  rw [survey_altNotes h halts, emptyNotes, List.map_eq_nil_iff, List.filter_eq_nil_iff]
  constructor
  · rintro hall ⟨id, hempty⟩
    obtain ⟨kids, hl⟩ := h.linked
    obtain ⟨e, he, htag, -⟩ := altAt?_eq_some.mp hempty
    have hmem : id ∈ t.findAll Tree.rootId .img := by
      rw [hl.findAll_eq, List.mem_filter]
      exact ⟨h.mem_preorder (Tree.lt_size_of_element? he), by simp [he, htag]⟩
    exact hall id hmem (decide_eq_true hempty)
  · intro hno id _ hempty
    exact hno ⟨id, of_decide_eq_true hempty⟩

/-! ## 5. The checks of texts -/

theorem exists_notes_altCheck (probe : Probe) (h : t.Whole) (halts : t.HasAlts) :
    ∃ repeats, Pass.altCheck.notes probe Tree.rootId t = emptyNotes t ++ repeats ∧
      Uniform "alt-duplicate" .info repeats := by
  rw [Pass.notes, survey_altNotes h halts]
  exact ⟨_, rfl, .survey (uniform_repeatNotes _) _ _⟩

/-- Where no text is empty or missing there is nothing to repair. -/
theorem repaint_altCheck (halts : t.HasAlts) (hno : ¬ t.HasEmptyAlt) (scope : NodeId) :
    t.repaint (Pass.altCheck.paint scope t) = t := by
  apply Tree.repaint_self
  intro id e he
  have hself : repaired e = e := by
    apply if_neg
    rintro ⟨htag, hfault⟩
    obtain ⟨alt, halt⟩ := halts id e he htag
    have hne : alt ≠ "" := by
      rintro rfl
      exact hno ⟨id, altAt?_eq_some.mpr ⟨e, he, htag, halt⟩⟩
    unfold altFault? at hfault
    rw [halt] at hfault
    split at hfault
    · rename_i heq
      cases heq
    · rename_i heq
      exact hne (Option.some.inj heq)
    · cases hfault
  unfold Pass.paint Tree.brushed
  split
  · exact hself
  · rfl

/-- **Alternative texts.** An audit of the texts finds nothing if and only if none is empty and none
is repeated in the tree as it was before the repair. -/
theorem notes_altCheck_eq_nil_iff (probe : Probe) (h : t.Whole) (halts : t.HasAlts) :
    Pass.altCheck.notes probe Tree.rootId t = [] ↔ ¬ t.HasEmptyAlt ∧ ¬ t.HasRepeatedAlt := by
  rw [Pass.notes, List.append_eq_nil_iff, survey_altNotes_eq_nil_iff h halts]
  refine and_congr_right fun hno => ?_
  simp only [repaint_altCheck halts hno]
  exact survey_repeatNotes_eq_nil_iff h

theorem titleFaults_eq_nil_iff (t : Tree) :
    titleFaults t = [] ↔ (t.element? Tree.rootId).bind (·.text) ≠ some noTitleMark := by
  unfold titleFaults
  split <;> simp_all

end Audit

theorem Report.hasFindings_iff (r : Report) :
    r.hasFindings = true ↔ ∃ d ∈ r.diagnostics, d.severity = .info := by
  have hleast : ∀ d : Diagnostic, d.severity.atLeast .info = true ↔ d.severity = .info := by
    intro d
    cases d.severity <;> decide
  unfold hasFindings findings Diagnostics.atLeast
  rw [Bool.not_eq_true', ← Bool.not_eq_true, Array.isEmpty_iff, Array.filter_eq_empty_iff]
  simp only [hleast]
  grind

end AccessibleMarkdown
