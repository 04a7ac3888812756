import AccessibleMarkdown.Proofs.Audit.Findings
import AccessibleMarkdown.Proofs.Checker.Staging

/-!
# The verdict of a checker

With the passes that a checker has by default, a document has findings if and only if an image of
its tree has an empty text, two images of a paragraph have the same one, or there is no title.
-/

namespace AccessibleMarkdown

open Markdown
open Audit (Diagnostics Pass Pipeline Probe Uniform altAt? emptyNote emptyNotes titleFaults)

variable {t : Tree}

/-! ## 1. Titles -/

theorem Tree.untitled_iff (t : Tree) :
    t.Untitled ↔ ∃ tag, (t.firstChild? rootId).bind t.tag? = some tag ∧ tag ≠ .h1 := by
  simp only [Untitled, Option.bind_eq_some_iff, Tree.tag?_eq_some]
  constructor
  · rintro ⟨first, e, hfirst, he, htag⟩
    exact ⟨e.tag, ⟨first, hfirst, e, he, rfl⟩, htag⟩
  · rintro ⟨_, ⟨first, hfirst, e, he, rfl⟩, htag⟩
    exact ⟨first, e, hfirst, he, htag⟩

/-- A mute root gets the mark of a missing title if and only if a title is missing. -/
theorem titleFaults_markUntitled (h : t.Drawn true) :
    titleFaults (Builder.markUntitled t) = [] ↔ ¬ (Builder.markUntitled t).Untitled := by
  have hshape := Builder.sameShape_markUntitled t
  obtain ⟨root, hroot, hmute⟩ := h.root
  have htext := hmute rfl
  rw [Audit.titleFaults_eq_nil_iff, Tree.untitled_iff, hshape.tag, hshape.links.first,
    Audit.markUntitled_eq]
  -- The mark is the text of the root, which has none of its own.
  cases hfirst : (t.firstChild? Tree.rootId).bind t.tag? with
  | none => simp [hroot, htext]
  | some tag =>
    by_cases htag : tag = .h1
    · simp [htag, hroot, htext]
    · simp [htag, Tree.element?_modify, hroot, htext, Audit.noTitleMark]

/-! ## 2. Trees of documents -/

theorem Markdown.Nest.hasAlts_tree (deletion : Bool) (n : Nest) : (n.tree deletion).HasAlts :=
  fun id e he => ((n.drawn_tree deletion).elements id e he).alt

theorem Markdown.Nest.titleFaults_tree (deletion : Bool) {n : Nest} (hn : n.sheltered = true) :
    titleFaults (n.tree deletion) = [] ↔ ¬ (n.tree deletion).Untitled :=
  titleFaults_markUntitled (n.draft_drawn (fun _ _ => rfl) deletion () fun _ => hn)

/-! ## 3. The passes by default -/

namespace Checker

def defaultPipeline : Pipeline := ⟨({} : Config).passes⟩

/-- What the passes say that run by default. The block stage and the numbering of rows say
nothing. -/
def defaultNotes (probe : Probe) (t : Tree) : List Audit.Diagnostic :=
  Pass.altCheck.notes probe Tree.rootId t ++
    (titleFaults t ++ Pass.ariaRole.notes probe Tree.rootId t)

theorem notes_default (probe : Probe) (t : Tree) :
    defaultPipeline.bothStages.flatMap (·.notes probe Tree.rootId t) = defaultNotes probe t := by
  have hstages : defaultPipeline.bothStages =
      [.ariaTableRole, .altCheck, .titleCheck, .ariaRole, .ariaTableIndex] := by
    decide
  rw [hstages]
  simp [defaultNotes, Pass.notes]

/-- Of each rule there is one list, and only the roles of headings are no findings. -/
theorem exists_defaultNotes (probe : Probe) (h : t.Whole) (halts : t.HasAlts) :
    ∃ repeats roles, defaultNotes probe t = emptyNotes t ++ repeats ++ titleFaults t ++ roles ∧
      Pass.altCheck.notes probe Tree.rootId t = emptyNotes t ++ repeats ∧
      Uniform "alt-duplicate" .info repeats ∧ Uniform "aria-role-set" .debug roles := by
  obtain ⟨repeats, hnotes, hrepeats⟩ := Audit.exists_notes_altCheck probe h halts
  refine ⟨repeats, Pass.ariaRole.notes probe Tree.rootId t, ?_, hnotes, hrepeats,
    .survey Audit.uniform_roleNotes _ _⟩
  rw [defaultNotes, hnotes, List.append_assoc (emptyNotes t ++ repeats)]

theorem exists_finding_iff (probe : Probe) (h : t.Whole) (halts : t.HasAlts) :
    (∃ d ∈ defaultNotes probe t, d.severity = .info) ↔
      t.HasEmptyAlt ∨ t.HasRepeatedAlt ∨ titleFaults t ≠ [] := by
  obtain ⟨repeats, roles, hall, hnotes, hrepeats, hroles⟩ := exists_defaultNotes probe h halts
  have hfaults := Audit.notes_altCheck_eq_nil_iff probe h halts
  have hdebug : ¬ ∃ d ∈ roles, d.severity = .info := by
    rintro ⟨d, hd, hinfo⟩
    rw [(hroles d hd).2] at hinfo
    cases hinfo
  calc (∃ d ∈ defaultNotes probe t, d.severity = .info)
    _ ↔ (emptyNotes t ≠ [] ∨ repeats ≠ []) ∨ titleFaults t ≠ [] := by
      simp only [hall, List.mem_append, or_and_right, exists_or,
        (Audit.uniform_emptyNotes t).exists_info_iff, hrepeats.exists_info_iff,
        (Audit.uniform_titleFaults t).exists_info_iff, hdebug, or_false]
    _ ↔ Pass.altCheck.notes probe Tree.rootId t ≠ [] ∨ titleFaults t ≠ [] := by
      simp only [hnotes, ne_eq, List.append_eq_nil_iff, not_and_or]
    _ ↔ t.HasEmptyAlt ∨ t.HasRepeatedAlt ∨ titleFaults t ≠ [] := by
      rw [Ne, hfaults, ← not_or, not_not, or_assoc]

/-! ## 4. Documents -/

/-- What the diagnostics of a document say about its tree as it was before any pass. -/
structure Verdict (t : Tree) (ds : Diagnostics) : Prop where
  findings : ∀ r : Report, r.diagnostics = ds →
    (r.hasFindings = true ↔ t.HasEmptyAlt ∨ t.HasRepeatedAlt ∨ t.Untitled)
  /-- No alternative text is missing. -/
  missing : ∀ d ∈ ds, d.rule ≠ "alt-missing"
  /-- Each empty one is reported, once. -/
  empty : (Diagnostics.byRule ds "alt-empty").toList.map (·.path) =
    ((t.findAll Tree.rootId .img).filter (altAt? t · = some "")).map t.path
  title : (Diagnostics.byRule ds "title-missing").size ≤ 1

theorem verdict_defaultNotes (probe : Probe) (h : t.Whole) (halts : t.HasAlts)
    (htitle : titleFaults t = [] ↔ ¬ t.Untitled) : Verdict t (defaultNotes probe t).toArray := by
  obtain ⟨repeats, roles, hall, -, hrepeats, hroles⟩ := exists_defaultNotes probe h halts
  -- Diagnostics of a rule are those of the list that is about it.
  have hfilter : ∀ rule, (defaultNotes probe t).filter (·.rule == rule) =
      (if "alt-empty" = rule then emptyNotes t else []) ++
        (if "alt-duplicate" = rule then repeats else []) ++
        (if "title-missing" = rule then titleFaults t else []) ++
        if "aria-role-set" = rule then roles else [] := by
    intro rule
    rw [hall, List.filter_append, List.filter_append, List.filter_append,
      (Audit.uniform_emptyNotes t).filter_rule, hrepeats.filter_rule,
      (Audit.uniform_titleFaults t).filter_rule, hroles.filter_rule]
  constructor
  · rintro r hr
    rw [Report.hasFindings_iff, hr]
    simp only [List.mem_toArray]
    rw [exists_finding_iff probe h halts, Ne, htitle, not_not]
  · intro d hd hrule
    have hmem : d ∈ (defaultNotes probe t).filter (·.rule == "alt-missing") :=
      List.mem_filter.mpr ⟨List.mem_toArray.mp hd, beq_iff_eq.mpr hrule⟩
    rw [hfilter] at hmem
    simp at hmem
  · rw [Diagnostics.byRule, Array.toList_filter, hfilter]
    simp [emptyNotes, emptyNote]
  · have hlength : (titleFaults t).length ≤ 1 := by
      unfold titleFaults
      split <;> simp
    rw [Diagnostics.byRule, List.filter_toArray, List.size_toArray, hfilter]
    simpa using hlength

theorem exists_verdict {stray : Bool} {n : Nest} (hfits : n.fits stray (.flow false) = true)
    (hsheltered : n.sheltered = true) (probe : Probe) (deletion : Bool) :
    ∃ u ds, audit defaultPipeline probe deletion n.events = .ok (u, ds) ∧
      Verdict (n.tree deletion) ds := by
  have hwhole := n.whole_tree deletion
  obtain ⟨kids, hl⟩ := hwhole.linked
  have hpasses : defaultPipeline.passes.Nodup := by decide
  have haudit := audit_nest hpasses probe deletion hfits
  rw [Pipeline.runAll_eq _ probe hl hpasses, notes_default, Array.empty_append] at haudit
  exact ⟨_, _, haudit,
    verdict_defaultNotes probe hwhole (n.hasAlts_tree deletion)
      (n.titleFaults_tree deletion hsheltered)⟩

/-- **Verdict.** By default the report on a document has findings if and only if its tree, as it was
before any pass, has one of the faults. -/
theorem verdict_of_sheltered {events : List Event} (hevents : Sheltered events) (probe : Probe)
    (deletion : Bool) :
    ∃ p t u ds, Pipeline.ofPasses ({} : Config).passes = .ok p ∧
      buildTree deletion TableHook.none () events = .ok (t, ()) ∧
      audit p probe deletion events = .ok (u, ds) ∧ Verdict t ds := by
  obtain ⟨n, rfl, hfits, hsheltered⟩ := hevents
  obtain ⟨u, ds, haudit, hverdict⟩ := exists_verdict hfits hsheltered probe deletion
  exact ⟨defaultPipeline, n.tree deletion, u, ds, Pipeline.ofPasses_eq (by decide),
    n.buildTree_none deletion, haudit, hverdict⟩

/-- A paragraph with two images, the second one without a text, and then a title. -/
theorem verdict_of_sheltered_images :
    let images : Nest := .container (.image "a.png" "") (.leaf (.text "A") .nil)
      (.container (.image "b.png" "") .nil .nil)
    let n : Nest :=
      .container .paragraph images (.container (.heading 1) (.leaf (.text "T") .nil) .nil)
    Sheltered n.events ∧ ∀ probe deletion, ∃ p t u ds,
      Pipeline.ofPasses ({} : Config).passes = .ok p ∧
      buildTree deletion TableHook.none () n.events = .ok (t, ()) ∧
      audit p probe deletion n.events = .ok (u, ds) ∧ Verdict t ds := by
  intro images n
  have hevents : Sheltered n.events := ⟨n, rfl, by decide, by decide⟩
  exact ⟨hevents, verdict_of_sheltered hevents⟩

end Checker

end AccessibleMarkdown
