import AccessibleMarkdown.Proofs.Markdown.Building
import AccessibleMarkdown.Proofs.Tree.Whole

/-!
# Drafts

A draft is a document in the making: the tree so far, what a hook has gathered, and the table that
is open. What is done to a draft never fails. As long as nodes are added where there may be nodes,
the tree of a draft stays whole, and the open table stays a place for rows.
-/

namespace AccessibleMarkdown.Markdown

open Builder (appendRun nextCell)

open AccessibleMarkdown.Tree (voidTags)

variable {σ : Type}

/-! ## 1. Flat content -/

/-- Text, and elements of a kind with nothing inside. -/
def Content.Flat (P : Element → Prop) : Content → Prop
  | nil => True
  | text _ rest => rest.Flat P
  | element e inner rest => P e ∧ inner = nil ∧ rest.Flat P

/-- What each piece keeps is kept by flat content. -/
theorem Content.Flat.addTo {P : Element → Prop} {M : Tree → Prop} {p : NodeId} {c : Content}
    (hc : c.Flat P) (hrun : ∀ t run, M t → M (appendRun t p run))
    (hgrow : ∀ t e, P e → M t → M (t.grow p e)) {t : Tree} (h : M t) : M (c.addTo t p) := by
  induction c generalizing t with
  | nil => exact h
  | text run rest ih => exact ih hc (hrun t run h)
  | element e inner rest _ ih =>
    obtain ⟨he, rfl, hrest⟩ := hc
    exact ih hrest (hgrow t e he h)

/-- Text that was marked as deleted. -/
def deletedText (run : String) : Element := { tag := .del, text := some run }

theorem flat_ofSegments (segments : List Segment) :
    (Content.ofSegments segments).Flat fun e => ∃ run, e = deletedText run := by
  induction segments with
  | nil => trivial
  | cons segment rest ih =>
    cases segment with
    | text run => exact ih
    | deleted run => exact ⟨⟨run, rfl⟩, rfl, ih⟩

theorem Mode.flat_run (m : Mode) (run : String) :
    (m.run run).Flat fun e => ∃ run, e = deletedText run := by
  unfold Mode.run
  split
  · trivial
  · split
    · exact flat_ofSegments _
    · trivial

/-- Empty cells. -/
def cells : Nat → Content
  | 0 => .nil
  | n + 1 => .element { tag := .td } .nil (cells n)

theorem flat_cells (n : Nat) : (cells n).Flat fun e => e = { tag := .td } := by
  induction n with
  | zero => trivial
  | succ n ih => exact ⟨rfl, rfl, ih⟩

theorem sameShape_appendRun (t : Tree) (p : NodeId) (run : String) :
    t.SameShape (appendRun t p run) := by
  unfold appendRun
  split
  · exact Tree.sameShape_modify t _ fun _ => rfl
  · exact Tree.sameShape_modify t _ fun _ => rfl

/-! ## 2. Shells, and parts of tables -/

def cellTags : List Tag := [.td, .th]

def partTags : List Tag := [.thead, .tbody, .tr, .td, .th]

def tableTags : List Tag := .table :: partTags

/-- The elements that a shell puts around its inside. -/
def Container.Shell.elements : Container.Shell → List Element
  | element e => [e]
  | verbatim outer e => [outer, e]
  | image _ | silent | clear => []

theorem headingTag_mem (level : Nat) : headingTag level ∈ [Tag.h1, .h2, .h3, .h4, .h5, .h6] := by
  unfold headingTag
  split <;> decide

def shellTags : List Tag :=
  [.h1, .h2, .h3, .h4, .h5, .h6] ++
    [.p, .div, .other "blockquote", .other "pre", .other "code", .other "ol", .other "ul",
      .other "li", .other "em", .other "strong", .other "a"]

/-- The elements of containers have no text of their own, and only what is struck through is
deleted. -/
theorem Container.exists_tag (c : Container) {e : Element} (he : e ∈ c.shell.elements) :
    ∃ tag attrs, e = { tag, attrs } ∧ (tag ∈ shellTags ∨ tag = .del ∧ c = .strikethrough) := by
  cases c with
  | heading level =>
    obtain rfl := List.mem_singleton.mp he
    exact ⟨headingTag level, {}, rfl, .inl (List.mem_append_left _ (headingTag_mem level))⟩
  | codeBlock info =>
    obtain rfl | he := List.mem_cons.mp he
    · exact ⟨.other "pre", {}, rfl, .inl (by decide)⟩
    · obtain rfl := List.mem_singleton.mp he
      exact ⟨.other "code", _, rfl, .inl (by decide)⟩
  | list start =>
    cases start with
    | none =>
      obtain rfl := List.mem_singleton.mp he
      exact ⟨.other "ul", {}, rfl, .inl (by decide)⟩
    | some start =>
      obtain rfl := List.mem_singleton.mp he
      exact ⟨.other "ol", _, rfl, .inl (by decide)⟩
  | strikethrough =>
    obtain rfl := List.mem_singleton.mp he
    exact ⟨.del, {}, rfl, .inr ⟨rfl, rfl⟩⟩
  | paragraph | blockQuote | item | footnoteDefinition | emphasis | strong | link =>
    obtain rfl := List.mem_singleton.mp he
    exact ⟨_, _, rfl, .inl (by decide)⟩
  | image | htmlBlock | metadataBlock | definitionList | definitionTitle | definition =>
    exact absurd he List.not_mem_nil

/-- The elements of containers may have children, and are no part of a table. -/
theorem Container.tag_elements (c : Container) {e : Element} (he : e ∈ c.shell.elements) :
    e.tag ∉ voidTags ∧ e.tag ∉ tableTags := by
  have hshell : ∀ tag ∈ shellTags, tag ∉ voidTags ∧ tag ∉ tableTags := by decide
  obtain ⟨tag, attrs, rfl, htag | ⟨rfl, -⟩⟩ := c.exists_tag he
  · exact hshell tag htag
  · exact ⟨nofun, nofun⟩

/-- The spans that tables are made of. -/
inductive Part
  | table (alignments : List Alignment)
  | head
  | row
  | cell
  deriving DecidableEq, Repr

def Part.span : Part → Span
  | table alignments => .table alignments
  | head => .tableHead
  | row => .tableRow
  | cell => .tableCell

/-- Spans are containers and parts of tables. -/
theorem span_cases (s : Span) : (∃ c : Container, c.span = s) ∨ ∃ p : Part, p.span = s := by
  obtain hc | hp := exists_container s
  · exact .inl hc
  · cases s with
    | table alignments => exact .inr ⟨.table alignments, rfl⟩
    | tableHead => exact .inr ⟨.head, rfl⟩
    | tableRow => exact .inr ⟨.row, rfl⟩
    | tableCell => exact .inr ⟨.cell, rfl⟩
    | _ => simp [Span.kind] at hp

theorem tag_nextCell (table : Option OpenTable) : (nextCell table).1.tag ∈ cellTags := by
  have htd : Tag.ofName "td" = .td := by decide +kernel
  have hth : Tag.ofName "th" = .th := by decide +kernel
  unfold nextCell
  split
  · rw [Builder.element]
    split
    · simp [hth, cellTags]
    · simp [htd, cellTags]
  · simp [Builder.element, htd, cellTags]

theorem nextCell_not_void (table : Option OpenTable) : (nextCell table).1.tag ∉ voidTags :=
  (by decide : ∀ tag ∈ cellTags, tag ∉ voidTags) _ (tag_nextCell table)

theorem nextCell_ne_table (table : Option OpenTable) : (nextCell table).1.tag ≠ .table :=
  (by decide : ∀ tag ∈ cellTags, tag ≠ .table) _ (tag_nextCell table)

/-! ## 3. Drafts -/

structure Draft (σ : Type) where
  tree : Tree
  gathered : σ
  table : Option OpenTable := none

namespace Draft

def put (c : Content) (p : NodeId) (d : Draft σ) : Draft σ := { d with tree := c.addTo d.tree p }

def grow (p : NodeId) (e : Element) (d : Draft σ) : Draft σ := { d with tree := d.tree.grow p e }

/-- Changes what is known of the open table. -/
def mapTable (f : OpenTable → OpenTable) (d : Draft σ) : Draft σ :=
  { d with table := d.table.map f }

/-- The node that a body row goes to, made if it is missing. Without a table it is the container. -/
def body (container : NodeId) (d : Draft σ) : Draft σ × NodeId :=
  match d.table with
  | none => (d, container)
  | some o =>
    match o.body with
    | some id => (d, id)
    | none =>
      ({ d.grow o.table { tag := .tbody } with table := some { o with body := some d.tree.size } },
        d.tree.size)

@[simp] theorem size_grow (d : Draft σ) (p : NodeId) (e : Element) :
    (d.grow p e).tree.size = d.tree.size + 1 :=
  Tree.size_grow e

section
variable {d : Draft σ} {o : OpenTable} (container : NodeId)

theorem body_outside (htable : d.table = none) : d.body container = (d, container) := by
  rw [body, htable]

theorem body_there (htable : d.table = some o) {id : NodeId} (hbody : o.body = some id) :
    d.body container = (d, id) := by
  simp only [body, htable, hbody]

theorem body_missing (htable : d.table = some o) (hbody : o.body = none) :
    d.body container =
      ({ d.grow o.table { tag := .tbody } with table := some { o with body := some d.tree.size } },
        d.tree.size) := by
  simp only [body, htable, hbody]

end

/-- Gives a table without body rows one row of empty cells. -/
def fillBody (o : OpenTable) (d : Draft σ) : Draft σ :=
  if o.body.isSome then d
  else ((d.grow o.table { tag := .tbody }).grow d.tree.size { tag := .tr }).put
    (cells o.alignments.length)
    (d.tree.size + 1)

/-- Calls the hook on the parent of a table that is complete. -/
def report (hook : TableHook σ) (table : NodeId) (d : Draft σ) : Draft σ :=
  let made := hook ((d.tree.parent? table).getD Tree.rootId) (d.tree, d.gathered)
  { d with tree := made.1, gathered := made.2 }

def closeTable (hook : TableHook σ) (d : Draft σ) : Draft σ :=
  match d.table with
  | none => d
  | some o => ({ d with table := none }.fillBody o).report hook o.table

end Draft

/-- The draft in which a shell has been opened, and the frame inside it. An image has no inside. -/
def Container.Shell.opened (f : Frame) (d : Draft σ) : Container.Shell → Draft σ × Frame
  | element e => (d.grow f.container e, { container := d.tree.size })
  | verbatim outer e =>
    ((d.grow f.container outer).grow d.tree.size e, { container := d.tree.size + 1, raw := true })
  | silent => (d, { container := f.container, skip := true })
  | clear | image _ => (d, f)

/-- The draft in which a part of a table has been opened, and the container inside it. -/
def Part.opened (container : NodeId) (d : Draft σ) : Part → Draft σ × NodeId
  | table alignments =>
    ({ d.grow container { tag := .table } with table := some { table := d.tree.size, alignments } },
      d.tree.size)
  | head =>
    (((d.grow container { tag := .thead }).grow d.tree.size { tag := .tr }).mapTable fun o =>
      { o with column := 0, inHead := true }, d.tree.size + 1)
  | row =>
    let made := d.body container
    ((made.1.grow made.2 { tag := .tr }).mapTable fun o => { o with column := 0 }, made.1.tree.size)
  | cell =>
    ((d.grow container (nextCell d.table).1).mapTable fun o => { o with column := o.column + 1 },
      d.tree.size)

def Part.closed (hook : TableHook σ) (d : Draft σ) : Part → Draft σ
  | table _ => d.closeTable hook
  | head => d.mapTable fun o => { o with inHead := false }
  | row | cell => d

/-! ## 4. Sound drafts -/

/-- The hook changes no links and no tags. -/
def TableHook.Shapely (hook : TableHook σ) : Prop :=
  ∀ parent (t : Tree) gathered, t.Whole → t.SameShape (hook parent (t, gathered)).1

/-- The table is a place for rows, and so is its body. -/
structure OpenTable.Placed (o : OpenTable) (t : Tree) : Prop where
  table : t.Hosts o.table
  body : ∀ id, o.body = some id → t.Hosts id

theorem OpenTable.Placed.extends {o : OpenTable} {t u : Tree} (h : o.Placed t) (hu : t.Extends u) :
    o.Placed u where
  table := h.table.extends hu
  body id hid := (h.body id hid).extends hu

namespace Draft

structure Sound (d : Draft σ) : Prop where
  tree : d.tree.Whole
  table : ∀ o, d.table = some o → o.Placed d.tree

/-- `d'` is sound, and its tree is that of `d` with more nodes. -/
structure Advances (d d' : Draft σ) : Prop where
  sound : d'.Sound
  tree : d.tree.Extends d'.tree

namespace Advances

variable {d d' d'' : Draft σ}

theorem trans (h : d.Advances d') (h' : d'.Advances d'') : d.Advances d'' :=
  ⟨h'.sound, h.tree.trans h'.tree⟩

theorem hosts (h : d.Advances d') {id : NodeId} (hid : d.tree.Hosts id) : d'.tree.Hosts id :=
  hid.extends h.tree

end Advances

namespace Sound

variable {d : Draft σ} {p : NodeId} {hook : TableHook σ}

theorem refl (h : d.Sound) : d.Advances d := ⟨h, .refl _⟩

/-- A tree that is whole and extends that of the draft may take its place. -/
theorem advances (h : d.Sound) {t : Tree} (ht : t.Whole) (hext : d.tree.Extends t) (gathered : σ) :
    d.Advances { d with tree := t, gathered } where
  sound := { tree := ht, table := fun o ho => (h.table o ho).extends hext }
  tree := hext

theorem grow (h : d.Sound) (hp : d.tree.Hosts p) (e : Element) : d.Advances (d.grow p e) :=
  h.advances (h.tree.grow hp e) (.grow _ p e) d.gathered

theorem put (h : d.Sound) (hp : d.tree.Hosts p) {P : Element → Prop} {c : Content} (hc : c.Flat P) :
    d.Advances (d.put c p) := by
  -- `p` may have children in every tree that extends the old one.
  have hstep : (c.addTo d.tree p).Whole ∧ d.tree.Extends (c.addTo d.tree p) := by
    refine hc.addTo (M := fun t => t.Whole ∧ d.tree.Extends t) ?_ ?_ ⟨h.tree, .refl _⟩
    · rintro t run ⟨ht, hext⟩
      have hs := sameShape_appendRun t p run
      exact ⟨ht.sameShape hs, hext.trans (.of_sameShape hs)⟩
    · rintro t e - ⟨ht, hext⟩
      exact ⟨ht.grow (hp.extends hext) e, hext.trans (.grow t p e)⟩
  exact h.advances hstep.1 hstep.2 d.gathered

theorem mapTable (h : d.Sound) {f : OpenTable → OpenTable} (htable : ∀ o, (f o).table = o.table)
    (hbody : ∀ o, (f o).body = o.body) : d.Advances (d.mapTable f) where
  sound := {
    tree := h.tree
    table := by
      intro o ho
      obtain ⟨o', ho', rfl⟩ := Option.map_eq_some_iff.mp ho
      have hplaced := h.table o' ho'
      exact ⟨by rw [htable]; exact hplaced.table, by rw [hbody]; exact hplaced.body⟩ }
  tree := .refl _

theorem body (h : d.Sound) (hp : d.tree.Hosts p) :
    d.Advances (d.body p).1 ∧ (d.body p).1.tree.Hosts (d.body p).2 := by
  cases htable : d.table with
  | none =>
    rw [body_outside p htable]
    exact ⟨h.refl, hp⟩
  | some o =>
    have hplaced := h.table o htable
    cases hbody : o.body with
    | some id =>
      rw [body_there p htable hbody]
      exact ⟨h.refl, hplaced.body id hbody⟩
    | none =>
      rw [body_missing p htable hbody]
      -- The new body is the one that the table has from now on.
      have hgrow := h.grow hplaced.table { tag := .tbody }
      have hnew : (d.tree.grow o.table { tag := .tbody }).Hosts d.tree.size :=
        Tree.hosts_grow _ _ (by decide)
      refine ⟨⟨⟨hgrow.sound.tree, ?_⟩, hgrow.tree⟩, hnew⟩
      intro o' ho'
      obtain rfl := Option.some.inj ho'
      refine ⟨hgrow.hosts hplaced.table, ?_⟩
      intro id hid
      obtain rfl := Option.some.inj hid
      exact hnew

theorem fillBody (h : d.Sound) {o : OpenTable} (ho : d.tree.Hosts o.table) :
    d.Advances (d.fillBody o) := by
  unfold Draft.fillBody
  split
  · exact h.refl
  · have hbody := h.grow ho { tag := .tbody }
    have hrow :=
      hbody.sound.grow (p := d.tree.size) (Tree.hosts_grow _ _ (by decide)) { tag := .tr }
    have hcells :=
      hrow.sound.put (p := d.tree.size + 1) (c := cells o.alignments.length) ?_ (flat_cells _)
    · exact (hbody.trans hrow).trans hcells
    · have hnew := Tree.hosts_grow (d.tree.grow o.table { tag := .tbody }) d.tree.size
        (e := { tag := .tr }) (by decide)
      rwa [Tree.size_grow] at hnew

theorem report (h : d.Sound) (hhook : TableHook.Shapely hook) (table : NodeId) :
    d.Advances (d.report hook table) := by
  have hshape := hhook ((d.tree.parent? table).getD Tree.rootId) d.tree d.gathered h.tree
  exact h.advances (h.tree.sameShape hshape) (.of_sameShape hshape) _

theorem closeTable (h : d.Sound) (hhook : TableHook.Shapely hook) :
    d.Advances (d.closeTable hook) := by
  unfold Draft.closeTable
  split
  · exact h.refl
  · rename_i o ho
    have hclosed : Sound { d with table := none } := ⟨h.tree, fun _ h => nomatch h⟩
    have hfill := hclosed.fillBody (h.table o ho).table
    have hreport := hfill.sound.report hhook o.table
    exact ⟨hreport.sound, hfill.tree.trans hreport.tree⟩

/-- Opening a container leaves a sound draft, and a frame whose container may have children. -/
theorem openShell (h : d.Sound) {f : Frame} (hf : d.tree.Hosts f.container) (c : Container) :
    d.Advances (c.shell.opened f d).1 ∧
    (c.shell.opened f d).1.tree.Hosts (c.shell.opened f d).2.container := by
  have htag := fun e => c.tag_elements (e := e)
  cases hshell : c.shell with
  | element e =>
    rw [hshell] at htag
    obtain ⟨hvoid, -⟩ := htag e (List.mem_singleton_self e)
    exact ⟨h.grow hf e, Tree.hosts_grow _ _ hvoid⟩
  | verbatim outer e =>
    rw [hshell] at htag
    obtain ⟨hvoid, -⟩ := htag outer List.mem_cons_self
    obtain ⟨hvoid', -⟩ := htag e (List.mem_cons_of_mem _ (List.mem_singleton_self e))
    have houter := h.grow hf outer
    have hinner := houter.sound.grow (p := d.tree.size) (Tree.hosts_grow _ _ hvoid) e
    have hnew := Tree.hosts_grow (d.tree.grow f.container outer) d.tree.size hvoid'
    rw [Tree.size_grow] at hnew
    exact ⟨houter.trans hinner, hnew⟩
  | image attrs => exact ⟨h.refl, hf⟩
  | silent => exact ⟨h.refl, hf⟩
  | clear => exact ⟨h.refl, hf⟩

/-- Opening a part of a table leaves a sound draft, and a container that may have children. -/
theorem opened (h : d.Sound) (hp : d.tree.Hosts p) (part : Part) :
    d.Advances (part.opened p d).1 ∧ (part.opened p d).1.tree.Hosts (part.opened p d).2 := by
  cases part with
  | table alignments =>
    have hgrow := h.grow hp { tag := .table }
    have hnew : (d.tree.grow p { tag := .table }).Hosts d.tree.size :=
      Tree.hosts_grow _ _ (by decide)
    -- The open table is the new one, and it has no body yet.
    refine ⟨⟨⟨hgrow.sound.tree, ?_⟩, hgrow.tree⟩, hnew⟩
    intro o ho
    obtain rfl := Option.some.inj ho
    exact ⟨hnew, fun _ h => nomatch h⟩
  | head =>
    have hhead := h.grow hp { tag := .thead }
    have hrow :=
      hhead.sound.grow (p := d.tree.size) (Tree.hosts_grow _ _ (by decide)) { tag := .tr }
    have hnew :=
      Tree.hosts_grow (d.tree.grow p { tag := .thead }) d.tree.size
        (e := { tag := .tr }) (by decide)
    rw [Tree.size_grow] at hnew
    exact ⟨(hhead.trans hrow).trans (hrow.sound.mapTable (fun _ => rfl) fun _ => rfl), hnew⟩
  | row =>
    obtain ⟨hbody, hhosts⟩ := h.body hp
    have hrow := hbody.sound.grow hhosts { tag := .tr }
    exact ⟨(hbody.trans hrow).trans (hrow.sound.mapTable (fun _ => rfl) fun _ => rfl),
      Tree.hosts_grow _ _ (by decide)⟩
  | cell =>
    have hcell := h.grow hp (nextCell d.table).1
    exact ⟨hcell.trans (hcell.sound.mapTable (fun _ => rfl) fun _ => rfl),
      Tree.hosts_grow _ _ (nextCell_not_void d.table)⟩

theorem closed (h : d.Sound) (hhook : TableHook.Shapely hook) (part : Part) :
    d.Advances (part.closed hook d) := by
  cases part with
  | table alignments => exact h.closeTable hhook
  | head => exact h.mapTable (fun _ => rfl) fun _ => rfl
  | row => exact h.refl
  | cell => exact h.refl

end Sound

end Draft

end AccessibleMarkdown.Markdown
