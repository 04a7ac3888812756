import AccessibleMarkdown.Proofs.Audit.Independence
import AccessibleMarkdown.Proofs.Markdown.Tables

/-!
# Marked tables

The block stage gives tables their role and the number of their children, and does nothing else. A
document in which all tables are marked but the open one grows like one in which none is: what is
added later neither sees the marks nor changes what they say.
-/

namespace AccessibleMarkdown.Audit

open Markdown (Content)
open Markdown.Builder (appendRun addText addTail markUntitled)

variable {t : Tree} {kids : NodeId → List NodeId} {current current' : Option NodeId}
  {p id scope : NodeId} {e : Element}

/-! ## 1. Marks -/

theorem counted_of_ne (ids : List NodeId) (h : e.tag ≠ .table) : counted ids e = e := if_neg h

theorem tag_counted (ids : List NodeId) (e : Element) : (counted ids e).tag = e.tag :=
  paints_tableRoles.tag ids {} e

/-- Marks do not depend on texts. -/
theorem counted_text (ids : List NodeId) (e : Element) (text tail : Option String) :
    counted ids { e with text, tail } = { counted ids e with text, tail } := by
  unfold counted
  split <;> rfl

theorem text_counted (ids : List NodeId) (e : Element) :
    (counted ids e).text = e.text ∧ (counted ids e).tail = e.tail := by
  unfold counted
  split <;> exact ⟨rfl, rfl⟩

/-- The painting that marks all tables but the one that is open. -/
def marks (current : Option NodeId) (t : Tree) (id : NodeId) (e : Element) : Element :=
  if current = some id then e else counted (t.children id) e

def marked (current : Option NodeId) (t : Tree) : Tree := t.repaint (marks current t)

theorem tag_marks (current : Option NodeId) (t : Tree) (id : NodeId) (e : Element) :
    (marks current t id e).tag = e.tag := by
  unfold marks
  split
  · rfl
  · exact tag_counted _ _

theorem sameShape_marked (current : Option NodeId) (t : Tree) : t.SameShape (marked current t) :=
  t.sameShape_repaint (tag_marks current t)

theorem size_marked (current : Option NodeId) (t : Tree) : (marked current t).size = t.size :=
  t.size_repaint _

/-! ## 2. Growing a marked tree -/

/-- A marked tree takes a new node anywhere but in a table that has been closed. A new table is
open. -/
theorem marked_grow (h : t.Linked kids) (hp : p < t.size)
    (hold : ∀ id < t.size, current' = some id ↔ current = some id)
    (hclosed : t.tag? p = some .table → current = some p)
    (hnew : e.tag = .table → current' = some t.size) :
    marked current' (t.grow p e) = (marked current t).grow p e := by
  have hself : marks current' (t.grow p e) t.size e = e := by
    unfold marks
    split
    · rfl
    · rename_i hne
      exact counted_of_ne _ fun htag => hne (hnew htag)
  -- Of the old nodes only `p` gets a child, and no mark counts the children of `p`.
  have hrest : t.repaint (marks current' (t.grow p e)) = marked current t := by
    apply Tree.repaint_congr
    intro id x hx
    have hid := Tree.lt_size_of_element? hx
    simp only [marks, hold id hid]
    split
    · rfl
    · rename_i hne
      rw [Tree.children_grow h e hp]
      split
      · -- The parent of the new node is no table, so its children are not counted.
        rename_i hidp
        have htag : x.tag ≠ .table := by
          intro htag
          rw [hidp] at hx hne
          exact hne (hclosed ((Tree.tag?_of_element? hx).trans (congrArg some htag)))
        rw [counted_of_ne _ htag, counted_of_ne _ htag]
      · rfl
  rw [marked, Tree.grow_repaint (tag_marks current' _), hself, hrest]

theorem marked_grow_plain (h : t.Linked kids) (hp : p < t.size)
    (hclosed : t.tag? p = some .table → current = some p) (he : e.tag ≠ .table) :
    marked current (t.grow p e) = (marked current t).grow p e :=
  marked_grow h hp (fun _ _ => Iff.rfl) hclosed fun htag => absurd htag he

theorem marked_modify {f : Element → Element} (hf : ∀ ids e, counted ids (f e) = f (counted ids e))
    (current : Option NodeId) (t : Tree) (id : NodeId) (htag : ∀ e, (f e).tag = e.tag) :
    marked current (t.modify id f) = (marked current t).modify id f := by
  have hshape := t.sameShape_modify id htag
  have hmarks : marks current (t.modify id f) = marks current t := by
    funext id e
    rw [marks, marks, hshape.links.children]
  rw [marked, hmarks, Tree.modify_repaint]
  · rfl
  · intro e
    unfold marks
    split
    · rfl
    · exact hf _ e

theorem marked_appendRun (current : Option NodeId) (t : Tree) (p : NodeId) (run : String) :
    marked current (appendRun t p run) = appendRun (marked current t) p run := by
  have hlast : (marked current t).lastChild? p = t.lastChild? p :=
    congrFun (sameShape_marked current t).links.last p
  -- Marks are about children, runs are about texts and tails: neither sees the other.
  have htext : ∀ ids e, counted ids (addText e run) = addText (counted ids e) run := by
    intro ids e
    obtain ⟨htext, htail⟩ := text_counted ids e
    simp only [addText, htext]
    exact (counted_text ids e _ e.tail).trans (by rw [← htail])
  have htail : ∀ ids e, counted ids (addTail e run) = addTail (counted ids e) run := by
    intro ids e
    obtain ⟨htext, htail⟩ := text_counted ids e
    simp only [addTail, htail]
    exact (counted_text ids e e.text _).trans (by rw [← htext])
  unfold appendRun
  rw [hlast]
  cases t.lastChild? p with
  | none => exact marked_modify htext current t p fun _ => rfl
  | some last => exact marked_modify htail current t last fun _ => rfl

/-- Flat content without tables goes where nodes go. -/
theorem marked_addTo {P : Element → Prop} {c : Content} (hc : c.Flat P)
    (hP : ∀ e, P e → e.tag ≠ .table) (h : t.Whole) (hp : t.Hosts p)
    (hclosed : t.tag? p = some .table → current = some p) :
    marked current (c.addTo t p) = c.addTo (marked current t) p := by
  -- For every tree in which `p` may have children: after each piece it may have more.
  induction c generalizing t with
  | nil => rfl
  | text run rest ih =>
    have hs := Markdown.sameShape_appendRun t p run
    rw [Content.addTo, Content.addTo, ← marked_appendRun]
    exact ih hc (h.sameShape hs) (hp.extends (.of_sameShape hs)) fun htag =>
      hclosed ((congrFun hs.tag p).symm.trans htag)
  | element e inner rest _ ih =>
    obtain ⟨he, rfl, hrest⟩ := hc
    obtain ⟨kids, hl⟩ := h.linked
    have hext := Tree.Extends.grow t p e
    have hgrow := marked_grow_plain hl hp.lt_size hclosed (hP e he)
    rw [Content.addTo_element, Content.addTo_element, Content.addTo_nil, Content.addTo_nil, ← hgrow]
    exact ih hrest (h.grow hp e) (hp.extends hext) fun htag =>
      hclosed ((hext.tag p hp.lt_size).symm.trans htag)

theorem markUntitled_eq (t : Tree) : markUntitled t =
    match (t.firstChild? Tree.rootId).bind t.tag? with
    | some tag => if tag = .h1 then t
        else t.modify Tree.rootId fun root => { root with text := some (root.text.getD "\n") }
    | none => t := by
  unfold markUntitled
  cases t.firstChild? Tree.rootId with
  | none => rfl
  | some first =>
    simp only [Option.bind_some, Tree.tag?]
    cases t.element? first <;> rfl

theorem marked_markUntitled (current : Option NodeId) (t : Tree) :
    marked current (markUntitled t) = markUntitled (marked current t) := by
  have hshape := sameShape_marked current t
  rw [markUntitled_eq, markUntitled_eq, hshape.tag, hshape.links.first]
  split
  · split
    · rfl
    · refine marked_modify ?_ current t _ fun _ => rfl
      intro ids e
      obtain ⟨htext, htail⟩ := text_counted ids e
      rw [htext]
      exact (counted_text ids e _ e.tail).trans (by rw [← htail])
  · rfl

/-! ## 3. The block stage -/

theorem filter_block {passes : List Pass} (hnodup : passes.Nodup) (h : .ariaTableRole ∈ passes) :
    passes.filter (·.stage == .block) = [.ariaTableRole] := by
  have hstage : ∀ pass : Pass, (pass.stage == .block) = (pass == .ariaTableRole) := by
    intro pass
    cases pass <;> rfl
  simp only [hstage]
  rw [List.filter_beq, List.count_eq_one_of_mem hnodup h]
  rfl

theorem hasBlockPasses_iff (p : Pipeline) :
    p.hasBlockPasses = true ↔ .ariaTableRole ∈ p.passes := by
  unfold Pipeline.hasBlockPasses
  rw [List.any_eq_true]
  constructor
  · rintro ⟨pass, hmem, hstage⟩
    cases pass with
    | ariaTableRole => exact hmem
    | _ => cases hstage
  · intro hmem
    exact ⟨_, hmem, rfl⟩

theorem runBlock_eq {p : Pipeline} (hnodup : p.passes.Nodup) (hblock : p.hasBlockPasses = true)
    (probe : Probe) (h : t.Linked kids) (scope : NodeId) (ds : Diagnostics) :
    p.runBlock probe scope t ds = (t.repaint (Pass.ariaTableRole.paint scope t), ds) := by
  rw [Pipeline.runBlock, Pipeline.runStage, filter_block hnodup ((hasBlockPasses_iff p).mp hblock)]
  show Pass.run probe .ariaTableRole scope t ds = _
  rw [Pass.run_eq _ probe h]
  exact congrArg (_, ·) (append_nil_toArray ds)

theorem runBlock_nothing {p : Pipeline} (hblock : p.hasBlockPasses = false) (probe : Probe)
    (scope : NodeId) (t : Tree) (ds : Diagnostics) : p.runBlock probe scope t ds = (t, ds) := by
  have hnone : p.passes.filter (·.stage == .block) = [] := by
    rw [List.filter_eq_nil_iff]
    exact List.any_eq_false.mp hblock
  rw [Pipeline.runBlock, Pipeline.runStage, hnone]
  rfl

theorem exists_lookup {stops : List (NodeId × Context)} (h : id ∈ stops.map Prod.fst) :
    ∃ cx, stops.lookup id = some cx := by
  obtain ⟨stop, hstop, rfl⟩ := List.mem_map.mp h
  exact Option.isSome_iff_exists.mp (List.lookup_isSome_iff.mpr ⟨stop, hstop, beq_self_eq_true _⟩)

/-- A walk that stops at a tag reaches what has no node with the tag above it. -/
theorem mem_reached_stopAt (h : t.Whole) {tag : Tag} (hid : id < t.size)
    (hclear : ∀ p, t.parent? id = some p → t.Clear [tag] p) :
    id ∈ t.reached (stopAt tag) Tree.rootId := by
  refine h.mem_reached (stopAt_ne_first tag) (fun k hk hstop => ?_) hid hclear
  unfold stopAt at hstop
  split at hstop
  · rename_i heq
    exact hk (List.mem_singleton.mpr heq)
  · cases hstop

/-- What the block stage makes of a tree whose tables are marked, but for some that it reaches. -/
theorem repaint_tables {f : NodeId → Element → Element}
    (hf : ∀ id e, t.element? id = some e → f id e = counted (t.children id) e ∨
      f id e = e ∧ (e.tag = .table → id ∈ t.reached (stopAt .table) scope)) :
    (t.repaint f).repaint (Pass.ariaTableRole.paint scope t) = marked none t := by
  rw [Tree.repaint_repaint, marked]
  apply Tree.repaint_congr
  intro id e he
  have hnone : marks none t id e = counted (t.children id) e := if_neg nofun
  rw [hnone, Pass.paint, Tree.brushed]
  -- A mark over a mark changes nothing, and the stage brings in the marks that are missing.
  obtain hmarked | ⟨hself, hreached⟩ := hf id e he
  · rw [hmarked]
    split
    · exact counted_counted _ _
    · rfl
  · rw [hself]
    by_cases htag : e.tag = .table
    · have hmem := hreached htag
      rw [← Tree.map_fst_stops] at hmem
      obtain ⟨cx, hcx⟩ := exists_lookup hmem
      rw [show Pass.ariaTableRole.below = stopAt .table from rfl, hcx]
      rfl
    · rw [counted_of_ne _ htag]
      split
      · exact counted_of_ne _ htag
      · rfl

/-- The block stage marks the table that was open, if it reaches it. -/
theorem repaint_marked (hreached : ∀ id, current = some id → id ∈ t.reached (stopAt .table) scope) :
    (marked current t).repaint (Pass.ariaTableRole.paint scope (marked current t)) =
      marked none t := by
  rw [Pass.paint_congr (sameShape_marked current t)]
  apply repaint_tables
  intro id e _
  by_cases hcurrent : current = some id
  · exact .inr ⟨if_pos hcurrent, fun _ => hreached id hcurrent⟩
  · exact .inl (if_neg hcurrent)

/-- Over a whole tree in which no table is below another one it marks all tables. -/
theorem repaint_ariaTableRole (h : t.Whole) (htables : t.Apart [.table] [.table]) :
    t.repaint (Pass.ariaTableRole.paint Tree.rootId t) = marked none t := by
  have hself : t.repaint (fun _ e => e) = t := Tree.repaint_self fun _ _ _ => rfl
  have hpaint : (t.repaint fun _ e => e).repaint (Pass.ariaTableRole.paint Tree.rootId t) =
      marked none t := by
    apply repaint_tables
    intro id e he
    refine .inr ⟨rfl, fun htag => mem_reached_stopAt h (Tree.lt_size_of_element? he) fun p hp => ?_⟩
    exact htables id p .table hp ((Tree.tag?_of_element? he).trans (congrArg some htag))
      List.mem_cons_self
  rwa [hself] at hpaint

end AccessibleMarkdown.Audit
