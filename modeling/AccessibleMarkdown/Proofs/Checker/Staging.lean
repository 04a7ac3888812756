import AccessibleMarkdown.Proofs.Audit.Marking
import AccessibleMarkdown.Proofs.Checker.Success
import AccessibleMarkdown.Proofs.Markdown.Drawing
import AccessibleMarkdown.Proofs.Markdown.Pouring

/-!
# The block stage may wait

A checker runs the block stage on every table as soon as it is complete, and goes on with the tree
that this leaves. For events that are well formed the outcome is the same as if the stage had been
run once, on the finished tree: while the document grows, all tables are marked but the open one.
-/

namespace AccessibleMarkdown

open Markdown
open Audit (Pass Pipeline Probe Diagnostics stopAt)

variable {σ τ : Type}

/-! ## 1. Marked drafts -/

/-- The draft in which all tables are marked but the open one, and something else has been
gathered. -/
def Markdown.Draft.marked (current : Option NodeId) (found : τ) (d : Draft σ) : Draft τ :=
  { tree := Audit.marked current d.tree, gathered := found, table := d.table }

namespace Checker

variable {d : Draft σ} {current : Option NodeId} {found : τ} {p q T : NodeId} {e : Element}
  {stray : Bool}

theorem marked_grow (h : d.Sound) (hp : d.tree.Hosts p)
    (hclosed : d.tree.tag? p = some .table → current = some p) (he : e.tag ≠ .table) :
    (d.marked current found).grow p e = (d.grow p e).marked current found := by
  obtain ⟨kids, hl⟩ := h.tree.linked
  simp only [Draft.marked, Draft.grow, Audit.marked_grow_plain hl hp.lt_size hclosed he]

theorem marked_put {P : Element → Prop} {c : Content} (hc : c.Flat P)
    (hP : ∀ e, P e → e.tag ≠ .table) (h : d.Sound) (hp : d.tree.Hosts p)
    (hclosed : d.tree.tag? p = some .table → current = some p) :
    (d.marked current found).put c p = (d.put c p).marked current found := by
  simp only [Draft.marked, Draft.put, Audit.marked_addTo hc hP h.tree hp hclosed]

theorem marked_flush (h : d.Sound) {f : Frame} (hf : d.tree.Hosts f.container)
    (hclosed : d.tree.tag? f.container = some .table → current = some f.container) (deletion : Bool)
    (run : String) :
    (d.marked current found).flush deletion f run =
      (d.flush deletion f run).marked current found := by
  refine marked_put (Mode.flat_run _ _) ?_ h hf hclosed
  rintro e ⟨run, rfl⟩
  exact nofun

theorem size_marked : (d.marked current found).tree.size = d.tree.size := Audit.size_marked _ _

/-! ## 2. Opening and closing -/

theorem marked_openShell (h : d.Sound) {f : Frame} (hf : d.tree.Hosts f.container)
    (hclosed : d.tree.tag? f.container = some .table → current = some f.container) (c : Container) :
    c.shell.opened f (d.marked current found) =
      ((c.shell.opened f d).1.marked current found, (c.shell.opened f d).2) := by
  have htag : ∀ e ∈ c.shell.elements, e.tag ∉ Tree.voidTags ∧ e.tag ≠ .table := by
    intro e he
    obtain ⟨hvoid, htable⟩ := c.tag_elements he
    exact ⟨hvoid, fun htag => htable (htag ▸ List.mem_cons_self)⟩
  cases hshell : c.shell with
  | element e =>
    rw [hshell] at htag
    obtain ⟨-, he⟩ := htag e (List.mem_singleton_self e)
    rw [Container.Shell.opened, marked_grow h hf hclosed he, size_marked]
    rfl
  | verbatim outer e =>
    rw [hshell] at htag
    obtain ⟨hvoid, houter⟩ := htag outer List.mem_cons_self
    obtain ⟨-, he⟩ := htag e (List.mem_cons_of_mem _ (List.mem_singleton_self e))
    rw [Container.Shell.opened, marked_grow h hf hclosed houter, size_marked,
      marked_grow (h.grow hf outer).sound (Tree.hosts_grow _ _ hvoid)
        (unclosed_new _ d.tree _ houter) he]
    rfl
  | image attrs => rfl
  | silent => rfl
  | clear => rfl

theorem marked_body (h : d.Orderly stray current) (hcurrent : current = some p) :
    (d.marked current found).body p = ((d.body p).1.marked current found, (d.body p).2) := by
  have htable := h.table
  rw [hcurrent] at htable
  obtain ⟨o, ho, rfl⟩ := Option.map_eq_some_iff.mp htable
  cases hbody : o.body with
  | some id =>
    rw [Draft.body_there _ ho hbody]
    exact Draft.body_there (d := d.marked current found) _ ho hbody
  | none =>
    rw [Draft.body_missing _ ho hbody, Draft.body_missing (d := d.marked current found) _ ho hbody,
      marked_grow h.sound (h.sound.table o ho).table (fun _ => hcurrent) (e := { tag := .tbody })
        nofun, size_marked]
    rfl

theorem marked_fillBody (h : d.Sound) {o : OpenTable} (ho : d.tree.Hosts o.table)
    (hcurrent : current = some o.table) :
    (d.marked current found).fillBody o = (d.fillBody o).marked current found := by
  unfold Draft.fillBody
  by_cases hfilled : o.body.isSome = true
  · rw [if_pos hfilled, if_pos hfilled]
  · rw [if_neg hfilled, if_neg hfilled]
    have hbody := h.grow ho { tag := .tbody }
    have hnew : (d.tree.grow o.table { tag := .tbody }).Hosts d.tree.size :=
      Tree.hosts_grow _ _ (by decide)
    have hrow := hbody.sound.grow hnew { tag := .tr }
    have hnew' :=
      Tree.hosts_grow (d.tree.grow o.table { tag := .tbody }) d.tree.size
        (e := { tag := .tr }) (by decide)
    have hclosed := unclosed_new current (d.tree.grow o.table { tag := .tbody }) d.tree.size
      (e := { tag := .tr }) nofun
    rw [Tree.size_grow] at hnew' hclosed
    rw [marked_grow h ho (fun _ => hcurrent) (e := { tag := .tbody }) nofun, size_marked,
      marked_grow hbody.sound hnew (unclosed_new _ d.tree _ (e := { tag := .tbody }) nofun)
        (e := { tag := .tr }) nofun]
    refine marked_put (flat_cells _) ?_ hrow.sound hnew' hclosed
    rintro e rfl
    exact nofun

/-- A part is opened in a marked draft as in any other; a table that is opened is not marked yet. -/
theorem marked_opened (h : d.Orderly stray current) {place inside after : Place} {part : Part}
    (ha : place.Admits stray current d.tree p) (hnext : Place.Next stray place part inside after) :
    part.opened p (d.marked current found) =
      ((part.opened p d).1.marked (part.current current d) found, (part.opened p d).2) := by
  obtain ⟨kids, hl⟩ := h.sound.tree.linked
  have hcell := nextCell_ne_table d.table
  cases hnext with
  | table alignments =>
    obtain ⟨-, rfl⟩ := ha.outside rfl
    -- No old node is the new table.
    have hold : ∀ id < d.tree.size, some d.tree.size = some id ↔
        (none : Option NodeId) = some id := by
      intro id hid
      simp only [Option.some.injEq, reduceCtorEq, iff_false]
      omega
    have hgrow :=
      Audit.marked_grow (e := { tag := .table }) hl ha.hosts.lt_size hold ha.unclosed fun _ => rfl
    show (Draft.mk ((Audit.marked none d.tree).grow p { tag := .table }) _ _, _) = _
    rw [← hgrow, size_marked]
    rfl
  | stray | cell =>
    show ((((d.marked current found).grow p (Builder.nextCell d.table).1).mapTable _), _) = _
    rw [marked_grow h.sound ha.hosts ha.unclosed hcell, size_marked]
    rfl
  | head =>
    have hhead := h.sound.grow ha.hosts { tag := .thead }
    have hnew : (d.tree.grow p { tag := .thead }).Hosts d.tree.size :=
      Tree.hosts_grow _ _ (by decide)
    rw [Part.opened,
      marked_grow h.sound ha.hosts ha.unclosed (e := { tag := .thead }) nofun, size_marked,
      marked_grow hhead.sound hnew (unclosed_new _ d.tree _ (e := { tag := .thead }) nofun)
        (e := { tag := .tr }) nofun]
    rfl
  | row =>
    have hcurrent := ha.inTable (.inr rfl)
    obtain ⟨hbody, htbody, -⟩ := h.tableBody hcurrent
    have hclosed : (d.body p).1.tree.tag? (d.body p).2 = some .table →
        current = some (d.body p).2 := by
      intro htag
      rw [htbody] at htag
      cases htag
    rw [Part.opened, marked_body h hcurrent]
    simp only
    rw [marked_grow hbody.sound (h.sound.body ha.hosts).2 hclosed (e := { tag := .tr }) nofun,
      size_marked]
    rfl

theorem marked_shell {d : Draft Unit} {place : Place} {f : Frame} (h : d.Orderly stray current)
    (hflow : place.isFlow = true) (ha : place.Admits stray current d.tree f.container)
    (c : Container) (alt : String) {inner : Frame → Draft Unit → Draft Unit}
    {inner' : Frame → Draft τ → Draft τ}
    (hinner : ∀ g d', Draft.Orderly stray current d' →
      place.Admits stray current d'.tree g.container →
      inner' g (d'.marked current found) = (inner g d').marked current found) :
    c.shell.filled f (d.marked current found) alt inner' =
      (c.shell.filled f d alt inner).marked current found := by
  obtain ⟨hopened, haopened⟩ := h.openShell hflow ha c
  have hopen : c.shell.opened f (d.marked current found) = _ :=
    marked_openShell h.sound ha.hosts ha.unclosed c
  cases hshell : c.shell with
  | image attrs => exact marked_grow h.sound ha.hosts ha.unclosed nofun
  | _ =>
    rw [hshell] at hopened haopened hopen
    rw [Container.Shell.filled, hopen]
    · exact hinner _ _ hopened haopened
    · exact nofun

variable {pipeline : Pipeline} (hpasses : pipeline.passes.Nodup)
  (hblock : pipeline.hasBlockPasses = true) (probe : Probe) (found : Diagnostics)
include hpasses hblock

/-- The block stage marks the table that it is run on, and finds nothing. -/
theorem marked_report (h : d.Sound) (hparent : d.tree.parent? T = some q)
    (htag : d.tree.tag? q ≠ some .table) :
    (d.marked (some T) found).report (blockStage pipeline probe) T = d.marked none found := by
  obtain ⟨kids, hl⟩ := h.tree.linked
  have hshape := Audit.sameShape_marked (some T) d.tree
  obtain ⟨tag, hq, -⟩ := h.tree.hosts hparent
  -- The walk of the stage starts at the parent and goes on to the table.
  have hreached : T ∈ d.tree.reached (stopAt .table) q := by
    have hbelow : stopAt .table tag = .children := if_neg fun heq : tag = .table => htag (heq ▸ hq)
    exact hl.mem_reached_child hparent (Tree.Linked.mem_reached_self (hl.parent_lt hparent)) hq
      (by rw [hbelow]; exact nofun) (Audit.stopAt_ne_first _ _)
  have hrun : blockStage pipeline probe q (Audit.marked (some T) d.tree, found) =
      (Audit.marked none d.tree, found) := by
    rw [blockStage, Audit.runBlock_eq hpasses hblock probe (hl.sameLinks hshape.links),
      Audit.repaint_marked]
    rintro id ⟨⟩
    exact hreached
  have hup : (Audit.marked (some T) d.tree).parent? T = some q :=
    (congrFun hshape.links.parent T).trans hparent
  simp only [Draft.report, Draft.marked, hup, Option.getD_some, hrun]

theorem marked_closeTable {d : Draft Unit} (h : d.Orderly stray (some T))
    (hparent : d.tree.parent? T = some q) (htag : d.tree.tag? q ≠ some .table) :
    (d.marked (some T) found).closeTable (blockStage pipeline probe) =
      (d.closeTable TableHook.none).marked none found := by
  obtain ⟨o, ho, rfl⟩ := Option.map_eq_some_iff.mp h.table
  have hplaced := h.sound.table o ho
  -- The body is filled first, while the table is without a mark; so the mark counts it.
  have hclosed : Draft.Sound { d with table := none } := ⟨h.sound.tree, nofun⟩
  have hfill := hclosed.fillBody hplaced.table
  obtain ⟨kids, hl⟩ := h.sound.tree.linked
  have hparent' := (hfill.tree.parent _ (Tree.lt_size_of_parent? hparent)).trans hparent
  have htag' : (Draft.fillBody o { d with table := none }).tree.tag? q ≠ some .table := by
    rw [hfill.tree.tag q (hl.parent_lt hparent)]
    exact htag
  have hreport := marked_report hpasses hblock probe found hfill.sound hparent' htag'
  have hmarked : (d.marked (some o.table) found).closeTable (blockStage pipeline probe) =
      ((Draft.marked (some o.table) found { d with table := none }).fillBody o).report
      (blockStage pipeline probe)
        o.table := by
    rw [Draft.closeTable, show (d.marked (some o.table) found).table = some o from ho]
    rfl
  have hplain : d.closeTable TableHook.none = Draft.fillBody o { d with table := none } := by
    rw [Draft.closeTable, ho]
    rfl
  rw [hmarked, marked_fillBody hclosed hplaced.table rfl, hreport, hplain]

theorem marked_closed {d d' : Draft Unit} {place inside after : Place} {part : Part}
    (h : d.Orderly stray current) (ha : place.Admits stray current d.tree p)
    (hnext : Place.Next stray place part inside after) (hd : (part.opened p d).1.Advances d')
    (h' : d'.Orderly stray (part.current current d)) :
    part.closed (blockStage pipeline probe) (d'.marked (part.current current d) found) =
      (part.closed TableHook.none d').marked current found := by
  cases hnext with
  | table alignments =>
    obtain ⟨hclear, rfl⟩ := ha.outside rfl
    -- The table stands where it was opened, outside of other tables.
    have hlt : d.tree.size < (d.tree.grow p { tag := .table }).size := d.tree.size_lt_grow _ _
    have hparent : d'.tree.parent? d.tree.size = some p := by
      rw [hd.tree.parent _ hlt]
      exact d.tree.parent?_grow_size p _
    have htag : d'.tree.tag? p ≠ some .table := by
      rw [hd.tree.tag p (Tree.lt_size_grow _ ha.hosts.lt_size)]
      show (d.tree.grow p _).tag? p ≠ _
      rw [Tree.tag?_grow_of_lt _ ha.hosts.lt_size]
      exact fun heq => hclear.self heq List.mem_cons_self
    exact marked_closeTable hpasses hblock probe found h' hparent htag
  | head => rfl
  | stray | row | cell => rfl

/-! ## 3. Nests -/

theorem marked_filled {d : Draft Unit} {place inside after : Place} {part : Part}
    (h : d.Orderly stray current) (ha : place.Admits stray current d.tree p)
    (hnext : Place.Next stray place part inside after)
    {inner : Frame → Draft Unit → Draft Unit}
    {inner' : Frame → Draft Diagnostics → Draft Diagnostics}
    (hadvance : ∀ g (d' : Draft Unit), d'.Sound → d'.tree.Hosts g.container →
      d'.Advances (inner g d'))
    (horder : ∀ g current (d' : Draft Unit), d'.Orderly stray current →
      inside.Admits stray current d'.tree g.container → (inner g d').Orderly stray current)
    (hinner : ∀ g current d', Draft.Orderly stray current d' →
      inside.Admits stray current d'.tree g.container →
      inner' g (d'.marked current found) = (inner g d').marked current found) :
    part.filled (blockStage pipeline probe) p (d.marked current found) inner' =
      (part.filled TableHook.none p d inner).marked current found := by
  obtain ⟨hopened, haopened⟩ := h.opened ha hnext
  have hinside := hadvance { container := (part.opened p d).2 } _ hopened.sound haopened.hosts
  rw [Part.filled, marked_opened h ha hnext]
  simp only
  rw [hinner _ _ _ hopened haopened]
  exact marked_closed hpasses hblock probe found h ha hnext hinside (horder _ _ _ hopened haopened)

/-- **Staging.** With the block stage as its hook, a nest that keeps to the grammar makes of a
marked draft what it makes of the plain one without a hook, marked. -/
theorem pour_marked (deletion : Bool) (n : Nest) {d : Draft Unit} {place : Place} {f : Frame}
    (run : String) (hfits : n.fits stray place = true) (h : d.Orderly stray current)
    (ha : place.Admits stray current d.tree f.container) :
    n.pour (blockStage pipeline probe) deletion f run (d.marked current found) =
      (n.pour TableHook.none deletion f run d).marked current found := by
  -- For every open table, since inside a table it is another one. Whatever is opened, poured or
  -- closed commutes with the marks, and the rest of the nest meets a draft of the same form.
  induction n generalizing place current f run d with
  | nil => exact marked_flush h.sound ha.hosts ha.unclosed deletion run
  | leaf l rest ih =>
    rw [Nest.fits, Bool.and_eq_true] at hfits
    obtain ⟨hflow, hrest⟩ := hfits
    unfold Nest.pour
    split
    · exact ih _ hrest h ha
    · rename_i e hsense
      have hflush := h.sound.flush ha.hosts deletion run
      have haflush := ha.extends hflush.tree h.sound.tree
      have htag := Leaf.tag_sense hsense
      rw [marked_flush h.sound ha.hosts ha.unclosed,
        marked_grow hflush.sound haflush.hosts haflush.unclosed fun heq =>
          htag (heq ▸ List.mem_cons_self)]
      have hleaf := (h.flush ha.hosts deletion run).grow_plain haflush.hosts htag
      exact ih _ hrest hleaf (haflush.extends (.grow _ _ _) hflush.sound.tree)
  | container c inner rest ihinner ihrest =>
    rw [Nest.fits, Bool.and_eq_true, Bool.and_eq_true] at hfits
    obtain ⟨⟨hflow, hinner⟩, hrest⟩ := hfits
    have hflush := h.sound.flush ha.hosts deletion run
    have horder := h.flush ha.hosts deletion run
    have haflush := ha.extends hflush.tree h.sound.tree
    have hfilled := c.filled_advances inner.alt hflush.sound haflush.hosts fun _ _ hd hg =>
      inner.pour_advances shapely_none deletion "" hd hg
    have hshell := horder.shell hflow haflush c inner.alt fun _ _ hd hg =>
      inner.pour_orderly shapely_none deletion "" hinner hd hg
    rw [Nest.pour, Nest.pour, marked_flush h.sound ha.hosts ha.unclosed,
      marked_shell horder hflow haflush c inner.alt fun _ _ hd hg => ihinner "" hinner hd hg]
    exact ihrest "" hrest hshell (haflush.extends hfilled.tree hflush.sound.tree)
  | part p inner rest ihinner ihrest =>
    rw [Nest.fits] at hfits
    split at hfits
    · rename_i inside after hnext
      rw [Bool.and_eq_true] at hfits
      obtain ⟨hinner, hrest⟩ := hfits
      have hrule := Place.next_of_next? hnext
      have hflush := h.sound.flush ha.hosts deletion run
      have horder := h.flush ha.hosts deletion run
      have haflush := ha.extends hflush.tree h.sound.tree
      have hfilled := p.filled_advances shapely_none hflush.sound haflush.hosts fun _ _ hd hg =>
        inner.pour_advances shapely_none deletion "" hd hg
      have hpart := horder.part shapely_none haflush hrule fun _ _ _ hd hg =>
        inner.pour_orderly shapely_none deletion "" hinner hd hg
      rw [Nest.pour, Nest.pour, marked_flush h.sound ha.hosts ha.unclosed,
        marked_filled hpasses hblock probe found horder haflush hrule
          (fun _ _ hd hg => inner.pour_advances shapely_none deletion "" hd hg)
          (fun _ _ _ hd hg => inner.pour_orderly shapely_none deletion "" hinner hd hg)
          fun _ _ _ hd hg => ihinner "" hinner hd hg]
      exact ihrest "" hrest hpart ((haflush.next hrule).extends hfilled.tree hflush.sound.tree)
    · cases hfits

/-! ## 4. Documents -/

omit hpasses hblock in
theorem marked_empty : Audit.marked none .empty = .empty := by
  apply Tree.repaint_self
  intro id e he
  have hid : id = Tree.rootId := Nat.lt_one_iff.mp (Tree.lt_size_of_element? he)
  subst hid
  obtain rfl := Option.some.inj he
  rfl

end Checker

namespace Markdown.Nest

variable {deletion stray : Bool} {n : Nest}

/-- The tree of a document before any pass. -/
def tree (deletion : Bool) (n : Nest) : Tree :=
  Builder.markUntitled (n.draft TableHook.none deletion ()).tree

theorem buildTree_none (deletion : Bool) (n : Nest) :
    buildTree deletion TableHook.none () n.events = .ok (n.tree deletion, ()) :=
  buildTree_nest Checker.shapely_none deletion () n

theorem sameShape_tree (deletion : Bool) (n : Nest) :
    (n.draft TableHook.none deletion ()).tree.SameShape (n.tree deletion) :=
  Builder.sameShape_markUntitled _

theorem whole_tree (deletion : Bool) (n : Nest) : (n.tree deletion).Whole :=
  (n.draft_advances Checker.shapely_none deletion ()).sound.tree.sameShape
  (n.sameShape_tree deletion)

theorem drawn_tree (deletion : Bool) (n : Nest) : (n.tree deletion).Drawn false := by
  have hdraft : (n.draft TableHook.none deletion ()).tree.Drawn false :=
    n.draft_drawn (fun _ _ => rfl) deletion () (absurd · Bool.false_ne_true)
  exact hdraft.markUntitled

/-- No table is below another one. -/
theorem tables_tree (deletion : Bool) (hfits : n.fits stray (.flow false) = true) :
    (n.tree deletion).Apart [.table] [.table] := by
  have horder := n.draft_orderly Checker.shapely_none deletion () hfits
  obtain ⟨kids, hl⟩ := horder.sound.tree.linked
  exact horder.tables.sameShape hl (n.sameShape_tree deletion)

/-- No part of a table is below a cell. -/
theorem cells_tree (deletion : Bool) (hfits : n.fits false (.flow false) = true) :
    (n.tree deletion).Apart cellTags partTags := by
  have horder := n.draft_orderly Checker.shapely_none deletion () hfits
  obtain ⟨kids, hl⟩ := horder.sound.tree.linked
  exact (horder.cells rfl).sameShape hl (n.sameShape_tree deletion)

end Markdown.Nest

namespace Checker

variable {stray : Bool} {n : Nest} {pipeline : Pipeline}

/-- A document with tables in order is audited like its tree. -/
theorem audit_nest (hpasses : pipeline.passes.Nodup) (probe : Probe) (deletion : Bool)
    (hfits : n.fits stray (.flow false) = true) :
    audit pipeline probe deletion n.events = .ok (pipeline.runAll probe (n.tree deletion) #[]) := by
  obtain ⟨kids, hl⟩ := (n.whole_tree deletion).linked
  cases hblock : pipeline.hasBlockPasses with
  | true =>
    have hpour :=
      pour_marked hpasses hblock probe #[] deletion n (f := { container := Tree.rootId }) "" hfits
        (orderly_empty stray ()) (admits_empty stray)
    have hdraft : n.draft (blockStage pipeline probe) deletion #[] =
        (n.draft TableHook.none deletion ()).marked none #[] := by
      rw [Nest.draft, Nest.draft, ← hpour, Draft.marked, marked_empty]
    have hbuild := buildTree_nest (shapely_blockStage pipeline probe) deletion #[] n
    -- Marked at the end is what the block stage makes of the whole tree when it runs on the root.
    have htree :
        Builder.markUntitled
          ((n.draft TableHook.none deletion ()).marked none (#[] : Diagnostics)).tree =
        (n.tree deletion).repaint (Pass.ariaTableRole.paint Tree.rootId (n.tree deletion)) := by
      rw [Audit.repaint_ariaTableRole (n.whole_tree deletion) (n.tables_tree deletion hfits),
        Nest.tree, Audit.marked_markUntitled]
      rfl
    rw [hdraft, htree] at hbuild
    rw [audit, if_pos hblock, hbuild, Pipeline.runAll, Audit.runBlock_eq hpasses hblock probe hl]
    rfl
  | false =>
    rw [audit, if_neg (by rw [hblock]; exact Bool.false_ne_true), n.buildTree_none, Pipeline.runAll,
      Audit.runBlock_nothing hblock]
    rfl

/-- **Staging.** On well-formed events a checker with the block stage in its hook gives the tree and
the diagnostics that both stages give on the tree that is built without a hook. -/
theorem audit_eq_runAll {events : List Event} (hevents : WellFormed events) {passes : List Pass}
    (hpasses : passes.Nodup) (probe : Probe) (deletion : Bool) :
    ∃ p t, Pipeline.ofPasses passes = .ok p ∧
      buildTree deletion TableHook.none () events = .ok (t, ()) ∧
      audit p probe deletion events = .ok (p.runAll probe t #[]) := by
  obtain ⟨n, rfl, hfits⟩ := hevents
  exact ⟨⟨passes⟩, n.tree deletion, Pipeline.ofPasses_eq hpasses, n.buildTree_none deletion,
    audit_nest hpasses probe deletion hfits⟩

/-- Text and two tables, one of them in a quotation and without rows. -/
theorem audit_eq_runAll_tables :
    let row : Nest := .part .cell (.leaf (.text "a") .nil) .nil
    let full : Nest := .part .head row (.part .row row .nil)
    let bare : Nest := .part .head row .nil
    let n : Nest := .container (.heading 2) (.leaf (.text "T") .nil) (.part (.table [.left]) full
      (.container .blockQuote (.part (.table [.none, .right]) bare .nil) .nil))
    WellFormed n.events ∧ Pass.all.Nodup ∧ ∀ probe deletion, ∃ p t,
      Pipeline.ofPasses Pass.all = .ok p ∧
      buildTree deletion TableHook.none () n.events = .ok (t, ()) ∧
      audit p probe deletion n.events = .ok (p.runAll probe t #[]) := by
  intro row full bare n
  have hevents : WellFormed n.events := ⟨n, rfl, by decide⟩
  have hall : Pass.all.Nodup := by decide
  exact ⟨hevents, hall, audit_eq_runAll hevents hall⟩

end Checker

end AccessibleMarkdown
