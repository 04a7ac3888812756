import AccessibleMarkdown.Proofs.Audit.Extent
import AccessibleMarkdown.Proofs.Checker.Staging
import Mathlib.Data.List.Basic

/-!
# Annotations

A document is drawn without roles, and without numbers of rows. What a finished tree has of them is
what the passes have written that were listed, each on all elements that belong to it: no part of a
table is out of reach, since none is below a cell, and no table is below another one.
-/

namespace AccessibleMarkdown

open Markdown (Event Nest WellFormed cellTags partTags)
open Audit

/-! ## 1. Painting by the owner -/

namespace Audit

variable {t : Tree} {kids : NodeId → List NodeId} {passes : List Pass} {pass : Pass}
  {scope id : NodeId} {e : Element}

theorem paintAll_of_notMem (h : ∀ pass ∈ passes, owner? e.tag ≠ some pass)
    (scope : NodeId) (t : Tree) (id : NodeId) : paintAll passes scope t id e = e := by
  induction passes with
  | nil => rfl
  | cons pass passes ih =>
    rw [List.forall_mem_cons] at h
    show paintAll passes scope t id (pass.paint scope t id e) = e
    rw [Pass.paint_of_ne h.1]
    exact ih h.2

/-- Only the owner of an element paints it, and more than once makes no difference. -/
theorem paintAll_of_mem (howner : owner? e.tag = some pass) (hpass : pass ∈ passes)
    (scope : NodeId) (t : Tree) (id : NodeId) :
    paintAll passes scope t id e = pass.paint scope t id e := by
  -- For every element with the tag: painting keeps the tag, so the owner stays the same.
  induction passes generalizing e with
  | nil => cases hpass
  | cons first passes ih =>
    have htag := first.tag_paint scope t id e
    show paintAll passes scope t id (first.paint scope t id e) = _
    by_cases hfirst : first = pass
    · subst hfirst
      by_cases hrest : first ∈ passes
      · rw [ih (by rw [htag]; exact howner) hrest, Pass.paint_paint]
      · apply paintAll_of_notMem
        intro other hother hown
        rw [htag, howner, Option.some.injEq] at hown
        exact hrest (hown ▸ hother)
    · rw [Pass.paint_of_ne fun hown => hfirst (Option.some.inj (hown.symm.trans howner))]
      exact ih howner ((List.mem_cons.mp hpass).resolve_left (Ne.symm hfirst))

theorem reached_table (h : t.Whole) (htables : t.Apart [.table] [.table])
    (htag : t.tag? id = some .table) : id ∈ t.reached Pass.ariaTableRole.below Tree.rootId :=
  mem_reached_stopAt h (Tree.lt_size_of_tag? htag) fun p hp =>
    htables id p .table hp htag List.mem_cons_self

theorem reached_part (h : t.Whole) (hcells : t.Apart cellTags partTags) {tag : Tag}
    (htag : t.tag? id = some tag) (hpart : tag ∈ partTags) :
    id ∈ t.reached Pass.ariaTableIndex.below Tree.rootId := by
  apply h.mem_reached Pass.ariaTableIndex.below_ne_first _ (Tree.lt_size_of_tag? htag)
  · exact fun p hp => hcells id p tag hp htag hpart
  · intro k hk
    show rowsAndCells k ≠ .stop
    unfold rowsAndCells
    split
    · exact nofun
    · exact absurd (by decide) hk
    · exact absurd (by decide) hk
    · exact nofun

end Audit

/-! ## 2. The specification -/

/-- The role of an element that is no title. -/
def specifiedRole? (passes : List Pass) : Tag → Option String
  | .table => if .ariaTableRole ∈ passes then some "table" else none
  | .thead | .tbody => if .ariaTableIndex ∈ passes then some "rowgroup" else none
  | .tr => if .ariaTableIndex ∈ passes then some "row" else none
  | .td => if .ariaTableIndex ∈ passes then some "cell" else none
  | .th => if .ariaTableIndex ∈ passes then some "columnheader" else none
  | _ => none

/-- The place of a child of a table body, counted from one. -/
def Tree.bodyIndex? (t : Tree) (id : NodeId) : Option Nat :=
  (t.parent? id).bind fun p =>
    if t.tag? p = some .tbody then some ((t.children p).idxOf id + 1) else none

/-- The element of a node has the annotations that it is to have, and no others. -/
structure Annotated (passes : List Pass) (t : Tree) (id : NodeId) (e : Element) : Prop where
  title : e.tag = .h1 → ∀ role, e.get? "role" = some role →
    .ariaRole ∈ passes ∧ role ∈ LandmarkRole.all.map LandmarkRole.name
  role : e.tag ≠ .h1 → e.get? "role" = specifiedRole? passes e.tag
  rowCount : e.get? "aria-rowcount" =
    if e.tag = .table ∧ .ariaTableRole ∈ passes then some (toString (t.children id).length)
    else none
  rowIndex : e.get? "aria-rowindex" =
    if e.tag = .tr ∧ .ariaTableIndex ∈ passes then (t.bodyIndex? id).map toString else none

namespace Annotated

variable {t u : Tree} {kids : NodeId → List NodeId} {passes : List Pass} {id : NodeId} {e : Element}

theorem sameShape (h : Annotated passes t id e) (hs : t.SameShape u) : Annotated passes u id e where
  title := h.title
  role := h.role
  rowCount := by
    rw [hs.links.children]
    exact h.rowCount
  rowIndex := by
    rw [Tree.bodyIndex?, hs.links.children, hs.links.parent, hs.tag]
    exact h.rowIndex

section
variable (hdrawn : e.Drawn)
include hdrawn

/-- What no pass owns that is listed has no annotations. -/
theorem of_notMem (h : ∀ pass ∈ passes, owner? e.tag ≠ some pass) (t : Tree) (id : NodeId) :
    Annotated passes t id e := by
  have hrole := hdrawn.names "role" (by decide)
  constructor
  · intro _ role hsome
    rw [hrole] at hsome
    cases hsome
  · intro _
    rw [hrole]
    unfold specifiedRole?
    split
    all_goals first
      | rfl
      | rename_i htag
        exact (if_neg fun hmem => h _ hmem (by rw [htag]; rfl)).symm
  · rw [hdrawn.names "aria-rowcount" (by decide), if_neg]
    rintro ⟨htag, hmem⟩
    exact h _ hmem (by rw [htag]; rfl)
  · rw [hdrawn.names "aria-rowindex" (by decide), if_neg]
    rintro ⟨htag, hmem⟩
    exact h _ hmem (by rw [htag]; rfl)

theorem of_image (htag : e.tag = .img) (t : Tree) (id : NodeId) :
    Annotated passes t id (Pass.altCheck.paint Tree.rootId t id e) := by
  have hget : ∀ name ∉ drawnNames, (Pass.altCheck.paint Tree.rootId t id e).get? name = none := by
    intro name hname
    have halt : name ∉ Pass.altCheck.writes := by
      intro hmem
      rw [List.mem_singleton.mp hmem] at hname
      exact hname (by decide)
    rw [Pass.get?_paint halt, hdrawn.names name hname]
  have htag' := (Pass.altCheck.tag_paint Tree.rootId t id e).trans htag
  constructor
  · intro htitle
    rw [htag'] at htitle
    cases htitle
  · intro _
    rw [hget "role" (by decide), htag']
    rfl
  · rw [hget "aria-rowcount" (by decide), htag', if_neg nofun]
  · rw [hget "aria-rowindex" (by decide), htag', if_neg nofun]

theorem of_title (htag : e.tag = .h1) (hmem : .ariaRole ∈ passes) (t : Tree) (id : NodeId) :
    Annotated passes t id (Pass.ariaRole.paint Tree.rootId t id e) := by
  have htag' := (Pass.ariaRole.tag_paint Tree.rootId t id e).trans htag
  constructor
  · intro _ role hrole
    refine ⟨hmem, ?_⟩
    -- The element had no role before.
    have hnone : ∀ role, e.get? "role" = some role →
        role ∈ LandmarkRole.all.map LandmarkRole.name := by
      intro role hsome
      rw [hdrawn.names "role" (by decide)] at hsome
      cases hsome
    unfold Pass.paint Tree.brushed at hrole
    split at hrole
    · change (titled e).get? "role" = some role at hrole
      unfold titled at hrole
      split at hrole
      · rename_i landmark _
        rw [← roleAttr, Element.get?_set_self, Option.some.injEq] at hrole
        rw [← hrole]
        cases landmark <;> decide
      · exact hnone role hrole
    · exact hnone role hrole
  · intro htitle
    exact absurd htag' htitle
  · rw [Pass.get?_paint (by decide), hdrawn.names "aria-rowcount" (by decide), htag', if_neg nofun]
  · rw [Pass.get?_paint (by decide), hdrawn.names "aria-rowindex" (by decide), htag', if_neg nofun]

theorem of_table (h : t.Linked kids) (htag : e.tag = .table) (hmem : .ariaTableRole ∈ passes)
    (hid : id ∈ t.reached Pass.ariaTableRole.below Tree.rootId) :
    Annotated passes t id (Pass.ariaTableRole.paint Tree.rootId t id e) := by
  have htag' := (Pass.ariaTableRole.tag_paint Tree.rootId t id e).trans htag
  have hpaint : Pass.ariaTableRole.paint Tree.rootId t id e =
      (setRole .table e).set rowCountAttr (toString (t.children id).length) := by
    rw [Pass.paint_of_reached h hid, h.placedFrom_root]
    exact if_pos htag
  constructor
  · intro htitle
    rw [htag'] at htitle
    cases htitle
  · intro _
    rw [htag', specifiedRole?, if_pos hmem, hpaint, Element.get?_set_of_ne (by decide)]
    exact Element.get?_set_self _ _ _
  · rw [if_pos ⟨htag', hmem⟩, hpaint]
    exact Element.get?_set_self _ _ _
  · rw [Pass.get?_paint (by decide), hdrawn.names "aria-rowindex" (by decide), htag', if_neg nofun]

theorem of_part (h : t.Linked kids) {role : TableRole} (hpart : partRole? e.tag = some role)
    (hmem : .ariaTableIndex ∈ passes) (hid : id ∈ t.reached Pass.ariaTableIndex.below Tree.rootId) :
    Annotated passes t id (Pass.ariaTableIndex.paint Tree.rootId t id e) := by
  have htag := Pass.ariaTableIndex.tag_paint Tree.rootId t id e
  have hpaint :
      Pass.ariaTableIndex.paint Tree.rootId t id e = indexed (t.placed rowsAndCells id) e :=
    h.placedFrom_root ▸ Pass.paint_of_reached h hid e
  have hspecified : specifiedRole? passes e.tag = some role.name := by
    unfold partRole? at hpart
    split at hpart
    all_goals first
      | cases hpart
        rename_i htag
        rw [htag]
        exact if_pos hmem
      | cases hpart
  constructor
  · intro htitle
    rw [htag] at htitle
    rw [htitle] at hpart
    cases hpart
  · intro _
    rw [htag, hspecified, hpaint]
    exact get?_role_indexed hpart _
  · have hne : e.tag ≠ .table := by
      intro htable
      rw [htable] at hpart
      cases hpart
    rw [Pass.get?_paint (by decide), hdrawn.names "aria-rowcount" (by decide), htag,
      if_neg fun h => hne h.1]
  · rw [htag, hpaint, indexed_eq hpart]
    -- A walk from the root numbers the children of bodies.
    have hrow : (t.placed rowsAndCells id).rowIndex = t.bodyIndex? id := by
      unfold Tree.placed Tree.bodyIndex?
      simp only [Option.map_eq_some_iff, rowsAndCells_eq_rows, exists_eq_right]
    have hset : (setRole role e).get? rowIndexAttr = none := by
      rw [setRole, Element.get?_set_of_ne (by decide)]
      exact hdrawn.names rowIndexAttr (by decide)
    by_cases htr : e.tag = .tr
    · rw [if_pos htr, if_pos ⟨htr, hmem⟩, numbered, hrow]
      cases t.bodyIndex? id with
      | none => exact hset
      | some row => exact Element.get?_set_self _ _ _
    · rw [if_neg htr, if_neg fun h => htr h.1]
      exact hset

/-- A drawn element is annotated by the passes together, wherever tables and their parts can be
reached. -/
theorem of_drawn (h : t.Whole) (htables : t.Apart [.table] [.table])
    (hcells : t.Apart cellTags partTags) (he : t.element? id = some e) :
    Annotated passes t id (paintAll passes Tree.rootId t id e) := by
  obtain ⟨kids, hl⟩ := h.linked
  have hid := Tree.tag?_of_element? he
  -- All that is written on an element is written by the one pass that owns its tag.
  by_cases hown : ∃ pass ∈ passes, owner? e.tag = some pass
  · obtain ⟨pass, hpass, howner⟩ := hown
    have hpart : ∀ role, partRole? e.tag = some role → e.tag ∈ partTags → pass = .ariaTableIndex →
        Annotated passes t id (pass.paint Tree.rootId t id e) := by
      rintro role hrole hmem rfl
      exact of_part hdrawn hl hrole hpass (reached_part h hcells hid hmem)
    rw [paintAll_of_mem howner hpass]
    unfold owner? at howner
    split at howner
    · rename_i htag
      cases howner
      exact of_image hdrawn htag t id
    · rename_i htag
      cases howner
      exact of_title hdrawn htag hpass t id
    · rename_i htag
      cases howner
      exact of_table hdrawn hl htag hpass (reached_table h htables (hid.trans (congrArg some htag)))
    all_goals first
      | rename_i htag
        apply hpart _ (by rw [htag]; rfl) (by rw [htag]; decide) (Option.some.inj howner).symm
      | cases howner
  · have hnone : ∀ pass ∈ passes, owner? e.tag ≠ some pass :=
      fun pass hpass howner => hown ⟨pass, hpass, howner⟩
    rw [paintAll_of_notMem hnone]
    exact of_notMem hdrawn hnone t id

end

end Annotated

/-! ## 3. Documents -/

namespace Checker

theorem exists_annotated {n : Nest} (hfits : n.fits false (.flow false) = true) {passes : List Pass}
    (hpasses : passes.Nodup) (probe : Probe) (deletion : Bool) :
    ∃ t ds, audit ⟨passes⟩ probe deletion n.events = .ok (t, ds) ∧
      ∀ id e, t.element? id = some e → Annotated passes t id e := by
  have hwhole := n.whole_tree deletion
  obtain ⟨kids, hl⟩ := hwhole.linked
  have hnodup : (⟨passes⟩ : Pipeline).passes.Nodup := hpasses
  have haudit := audit_nest hnodup probe deletion hfits
  -- The stages list the same passes, in another order.
  rw [Pipeline.runAll_eq _ probe hl hpasses,
    paintAll_perm (Pipeline.perm_bothStages ⟨passes⟩)] at haudit
  refine ⟨_, _, haudit, fun id e' he' => ?_⟩
  rw [Tree.element?_repaint] at he'
  obtain ⟨e, he, rfl⟩ := Option.map_eq_some_iff.mp he'
  have hdrawn := (n.drawn_tree deletion).elements id e he
  have hannotated :
      Annotated passes (n.tree deletion) id (paintAll passes Tree.rootId (n.tree deletion) id e) :=
    .of_drawn hdrawn hwhole (n.tables_tree deletion hfits) (n.cells_tree deletion hfits) he
  exact hannotated.sameShape (Tree.sameShape_repaint _ (tag_paintAll _ _ _))

/-- **Annotations.** On well-formed events the elements of the finished tree have exactly the roles,
counts and row numbers that the listed passes are to give. -/
theorem audit_annotated {events : List Event} (hevents : WellFormed events) {passes : List Pass}
    (hpasses : passes.Nodup) (probe : Probe) (deletion : Bool) :
    ∃ p t ds, Pipeline.ofPasses passes = .ok p ∧ audit p probe deletion events = .ok (t, ds) ∧
      ∀ id e, t.element? id = some e → Annotated passes t id e := by
  obtain ⟨n, rfl, hfits⟩ := hevents
  obtain ⟨t, ds, haudit, hannotated⟩ := exists_annotated hfits hpasses probe deletion
  exact ⟨⟨passes⟩, t, ds, Pipeline.ofPasses_eq hpasses, haudit, hannotated⟩

/-- A table of two columns with one row, below a title. -/
theorem audit_annotated_table :
    let cells : Nest := .part .cell (.leaf (.text "a") .nil) (.part .cell .nil .nil)
    let n : Nest := .container (.heading 1) (.leaf (.text "==main== T") .nil)
      (.part (.table [.left, .none]) (.part .head cells (.part .row cells .nil)) .nil)
    WellFormed n.events ∧ Pass.all.Nodup ∧ ∀ probe deletion, ∃ p t ds,
      Pipeline.ofPasses Pass.all = .ok p ∧
      audit p probe deletion n.events = .ok (t, ds) ∧ ∀ id e, t.element? id = some e →
        Annotated Pass.all t id e := by
  intro cells n
  have hevents : WellFormed n.events := ⟨n, rfl, by decide⟩
  have hall : Pass.all.Nodup := by decide
  exact ⟨hevents, hall, audit_annotated hevents hall⟩

end Checker

end AccessibleMarkdown
