import AccessibleMarkdown.Checker
import AccessibleMarkdown.Proofs.Audit.Independence
import AccessibleMarkdown.Proofs.Markdown.Wording

/-!
# Checking never fails

Passes change elements but no links and no tags, so they never stand in the way of a building, and
the tree that they are run on stays complete.
-/

namespace AccessibleMarkdown

open Markdown (Builder Event TableHook)

namespace Audit

variable {t : Tree} {scope : NodeId}

theorem sameShape_run (pass : Pass) (probe : Probe) (h : t.Whole) (scope : NodeId)
    (ds : Diagnostics) : t.SameShape (pass.run probe scope t ds).1 := by
  obtain ⟨kids, hl⟩ := h.linked
  rw [pass.run_eq probe hl]
  exact t.sameShape_repaint (pass.tag_paint scope t)

theorem sameShape_foldl_run (passes : List Pass) (probe : Probe) (h : t.Whole) (scope : NodeId)
    (ds : Diagnostics) :
    t.SameShape (passes.foldl (fun (t, ds) pass => pass.run probe scope t ds) (t, ds)).1 := by
  -- Every pass meets a whole tree, since the one before has kept the shape.
  induction passes generalizing t ds with
  | nil => exact .refl t
  | cons pass passes ih =>
    have hrun := sameShape_run pass probe h scope ds
    exact hrun.trans (ih (h.sameShape hrun) _)

end Audit

namespace Checker

theorem shapely_none : TableHook.Shapely TableHook.none := fun _ t _ _ => .refl t

theorem shapely_blockStage (pipeline : Audit.Pipeline) (probe : Audit.Probe) :
    TableHook.Shapely (blockStage pipeline probe) :=
  fun parent _ ds h => Audit.sameShape_foldl_run _ probe h parent ds

/-- The block stage writes attributes, and nothing else. -/
theorem keepsTexts_blockStage (pipeline : Audit.Pipeline) (probe : Audit.Probe) :
    (blockStage pipeline probe).KeepsTexts := by
  have hcounted : ∀ ids (e : Element), (Audit.counted ids e).bare = e.bare := by
    intro ids e
    unfold Audit.counted
    split <;> rfl
  rintro parent ⟨t, ds⟩
  show (List.foldl _ (t, ds) (pipeline.passes.filter (·.stage == .block))).1.bare = t.bare
  have hblock : ∀ pass ∈ pipeline.passes.filter (·.stage == .block), pass = .ariaTableRole := by
    intro pass hpass
    have hstage := (List.mem_filter.mp hpass).2
    cases pass with
    | ariaTableRole => rfl
    | _ => cases hstage
  generalize pipeline.passes.filter (·.stage == .block) = passes at hblock
  induction passes generalizing t ds with
  | nil => rfl
  | cons pass rest ih =>
    obtain rfl := hblock pass List.mem_cons_self
    have hrun := Audit.paints_tableRoles.bare_walkFrom (fun ids _ => hcounted ids) t parent ds
    exact (ih _ _ fun pass hpass => hblock pass (List.mem_cons_of_mem _ hpass)).trans hrun

/-- The builder takes every event, and finishes with a complete tree. -/
def Builds {σ : Type} (deletion : Bool) (hook : TableHook σ) (gathered : σ)
    (events : List Event) : Prop :=
  ∃ b, events.foldlM (Builder.push hook) (.start deletion gathered) = .ok b ∧
    ∃ t gathered, b.finish = .ok (t, gathered) ∧ t.Complete

variable {σ : Type} {hook : TableHook σ}

theorem exists_buildTree (hhook : TableHook.Shapely hook) (deletion : Bool) (gathered : σ)
    (events : List Event) :
    ∃ b t found, events.foldlM (Builder.push hook) (.start deletion gathered) = .ok b ∧
      b.finish = .ok (t, found) ∧ t.Whole := by
  obtain ⟨b, hrun, hsound⟩ := (Builder.sound_start deletion gathered).run hhook events
  obtain ⟨t, found, hfinish, ht⟩ := hsound.finish
  exact ⟨b, t, found, hrun, hfinish, ht⟩

theorem builds (hhook : TableHook.Shapely hook) (deletion : Bool) (gathered : σ)
    (events : List Event) : Builds deletion hook gathered events := by
  obtain ⟨b, t, found, hrun, hfinish, ht⟩ := exists_buildTree hhook deletion gathered events
  exact ⟨b, hrun, t, found, hfinish, ht.complete⟩

theorem buildTree_whole (hhook : TableHook.Shapely hook) (deletion : Bool) (gathered : σ)
    (events : List Event) :
    ∃ t found, Markdown.buildTree deletion hook gathered events = .ok (t, found) ∧ t.Whole := by
  obtain ⟨b, t, found, hrun, hfinish, ht⟩ := exists_buildTree hhook deletion gathered events
  refine ⟨t, found, ?_, ht⟩
  rw [Markdown.buildTree, hrun]
  exact hfinish

/-- Whatever the pipeline, an audit gives a whole tree. -/
theorem audit_whole (pipeline : Audit.Pipeline) (probe : Audit.Probe) (deletion : Bool)
    (events : List Event) :
    ∃ t ds, audit pipeline probe deletion events = .ok (t, ds) ∧ t.Whole := by
  -- The tree stage runs after the building, with or without a hook.
  have hrun : ∀ (t : Tree) (ds : Audit.Diagnostics), t.Whole →
      (pipeline.run probe t ds).1.Whole := by
    intro t ds ht
    exact ht.sameShape (Audit.sameShape_foldl_run _ probe ht Tree.rootId ds)
  unfold audit
  split
  · obtain ⟨t, ds, hbuild, ht⟩ :=
      buildTree_whole (shapely_blockStage pipeline probe) deletion #[] events
    rw [hbuild]
    exact ⟨_, _, rfl, hrun t ds ht⟩
  · obtain ⟨t, _, hbuild, ht⟩ := buildTree_whole shapely_none deletion () events
    rw [hbuild]
    exact ⟨_, _, rfl, hrun t #[] ht⟩

theorem check_eq {c : Checker} {files : File.Files} {text : String} {t : Tree}
    {ds : Audit.Diagnostics}
    (h : audit c.pipeline ((c.imageSource ".").probe files) c.config.markdown.deletion
      (Markdown.eventsOf c.config.markdown text) = .ok (t, ds)) (source : String) :
    c.check files source text = .ok { source, tree := t, diagnostics := ds } := by
  rw [check, checkText, h]
  rfl

/-- **Success.** The builder takes every sequence of events, with no hook or with that of any
pipeline, and finishes with a complete tree. So a checker that has a pipeline gives a report on
every text, and its tree is complete. -/
theorem check_succeeds (deletion : Bool) (events : List Event) :
    Builds deletion TableHook.none () events ∧
      (∀ pipeline probe, Builds deletion (blockStage pipeline probe) #[] events) ∧
      ∀ config codec c, ofConfig config codec = .ok c →
        (∀ probe, ∃ t ds, audit c.pipeline probe deletion events = .ok (t, ds) ∧ t.Complete) ∧
        ∀ files source text, ∃ r, c.check files source text = .ok r ∧ r.tree.Complete := by
  refine ⟨builds shapely_none _ _ _,
    fun pipeline probe => builds (shapely_blockStage _ _) _ _ _, ?_⟩
  intro config codec c _
  constructor
  · intro probe
    obtain ⟨t, ds, haudit, ht⟩ := audit_whole c.pipeline probe deletion events
    exact ⟨t, ds, haudit, ht.complete⟩
  · intro files source text
    obtain ⟨t, ds, haudit, ht⟩ := audit_whole c.pipeline ((c.imageSource ".").probe files)
      c.config.markdown.deletion (Markdown.eventsOf c.config.markdown text)
    exact ⟨_, check_eq haudit source, ht.complete⟩

theorem check_succeeds_default :
    ∃ c, ofConfig {} = .ok c ∧ ∀ files source text, ∃ r, c.check files source text = .ok r ∧
      r.tree.Complete := by
  obtain ⟨-, -, hcheck⟩ :=
    check_succeeds true [.stop .table, .start .tableRow, .start (.image "a.png" "")]
  have hconfig : ofConfig {} = .ok { config := {}, pipeline := ⟨({} : Config).passes⟩ } := rfl
  exact ⟨_, hconfig, (hcheck _ _ _ hconfig).2⟩

end Checker

end AccessibleMarkdown
