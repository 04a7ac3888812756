import AccessibleMarkdown.Proofs.Markdown.Nesting
import AccessibleMarkdown.Proofs.Tree.Reach

/-!
# Where the parts of tables stand

A nest that keeps to the grammar puts no table below another one. If it has no stray cells, it puts
no part of a table below a cell either. While a table is open, it alone of all tables gets new
children.
-/

namespace AccessibleMarkdown.Markdown

open AccessibleMarkdown.Tree (voidTags)
open Builder (nextCell)

variable {σ : Type}

/-! ## 1. The order of a draft -/

/-- The tables of a draft are in order, and the one that is open is the node `current`. -/
structure Draft.Orderly (stray : Bool) (current : Option NodeId) (d : Draft σ) : Prop where
  sound : d.Sound
  tables : d.tree.Apart [.table] [.table]
  cells : stray = false → d.tree.Apart cellTags partTags
  table : d.table.map (·.table) = current
  tag : ∀ id, current = some id → d.tree.tag? id = some .table
  free : stray = false → ∀ id, current = some id → d.tree.Clear cellTags id
  body : ∀ o id, d.table = some o → o.body = some id →
    d.tree.parent? id = some o.table ∧ d.tree.tag? id = some .tbody

/-- The container is fit for what may stand at the place, while the table `current` is open. -/
structure Place.Admits (stray : Bool) (current : Option NodeId) (place : Place) (t : Tree)
    (container : NodeId) : Prop where
  hosts : t.Hosts container
  outside : place = .flow false → t.Clear [.table] container ∧ current = none
  free : stray = false → place ≠ .flow true → t.Clear cellTags container
  inTable : place = .table ∨ place = .rows → current = some container
  /-- The container is not a table that has been closed. -/
  unclosed : t.tag? container = some .table → current = some container

/-- A node that has just been added, and is no table, is no table that has been closed. -/
theorem unclosed_new {e : Element} (current : Option NodeId) (t : Tree) (p : NodeId)
    (he : e.tag ≠ .table) : (t.grow p e).tag? t.size = some .table → current = some t.size := by
  intro htag
  rw [Tree.tag?_grow_size, Option.some.injEq] at htag
  exact absurd htag he

theorem Place.Admits.extends {stray : Bool} {current : Option NodeId} {place : Place} {t u : Tree}
    {container : NodeId} (h : place.Admits stray current t container) (hu : t.Extends u)
    (ht : t.Whole) : place.Admits stray current u container := by
  obtain ⟨kids, hl⟩ := ht.linked
  have hlt := h.hosts.lt_size
  refine ⟨h.hosts.extends hu, fun hp => ?_, fun hs hp => ?_, h.inTable, fun htag => ?_⟩
  · obtain ⟨hclear, hnone⟩ := h.outside hp
    exact ⟨hclear.extends hu hl hlt, hnone⟩
  · exact (h.free hs hp).extends hu hl hlt
  · exact h.unclosed ((hu.tag container hlt).symm.trans htag)

namespace Draft.Orderly

variable {stray : Bool} {current : Option NodeId} {d : Draft σ} {p : NodeId} {e : Element}

theorem sameShape (h : d.Orderly stray current) {t : Tree} (hs : d.tree.SameShape t)
    (gathered : σ) : Orderly stray current { d with tree := t, gathered } := by
  obtain ⟨kids, hl⟩ := h.sound.tree.linked
  have hext := Tree.Extends.of_sameShape hs
  refine ⟨(h.sound.advances (h.sound.tree.sameShape hs) hext gathered).sound,
    h.tables.sameShape hl hs,
    fun hstray => (h.cells hstray).sameShape hl hs, h.table, fun id hid => ?_,
      fun hstray id hid => ?_,
    fun o id ho hid => ?_⟩
  · exact (congrFun hs.tag id).trans (h.tag id hid)
  · exact (h.free hstray id hid).extends hext hl (Tree.lt_size_of_tag? (h.tag id hid))
  · obtain ⟨hparent, htag⟩ := h.body o id ho hid
    exact ⟨(congrFun hs.links.parent id).trans hparent, (congrFun hs.tag id).trans htag⟩

/-- A node may be added where there may be nodes, a table outside of tables and the parts of a table
outside of cells. -/
theorem grow (h : d.Orderly stray current) (hp : d.tree.Hosts p)
    (htable : e.tag = .table → d.tree.Clear [.table] p)
    (hpart : stray = false → e.tag ∈ partTags → d.tree.Clear cellTags p) :
    (d.grow p e).Orderly stray current := by
  obtain ⟨kids, hl⟩ := h.sound.tree.linked
  have hext := Tree.Extends.grow d.tree p e
  refine ⟨(h.sound.grow hp e).sound,
    h.tables.grow hl hp.lt_size fun hmem => htable (List.mem_singleton.mp hmem),
    fun hstray => (h.cells hstray).grow hl hp.lt_size (hpart hstray), h.table, fun id hid => ?_,
    fun hstray id hid => ?_, fun o id ho hid => ?_⟩
  · exact hext.tag?_eq_some (h.tag id hid)
  · exact (h.free hstray id hid).extends hext hl (Tree.lt_size_of_tag? (h.tag id hid))
  · obtain ⟨hparent, htag⟩ := h.body o id ho hid
    exact ⟨(hext.parent id (Tree.lt_size_of_tag? htag)).trans hparent, hext.tag?_eq_some htag⟩

/-- What is no part of a table may be added wherever there may be nodes. -/
theorem grow_plain (h : d.Orderly stray current) (hp : d.tree.Hosts p) (he : e.tag ∉ tableTags) :
    (d.grow p e).Orderly stray current := by
  refine h.grow hp (fun htag => absurd ?_ he) fun _ hmem => absurd (List.mem_cons_of_mem _ hmem) he
  rw [htag]
  decide

/-- So may a part of a table outside of cells. -/
theorem grow_part (h : d.Orderly stray current) (hp : d.tree.Hosts p) (he : e.tag ≠ .table)
    (hfree : stray = false → d.tree.Clear cellTags p) : (d.grow p e).Orderly stray current :=
  h.grow hp (fun htag => absurd htag he) fun hstray _ => hfree hstray

theorem put (h : d.Orderly stray current) (hp : d.tree.Hosts p) {P : Element → Prop} {c : Content}
    (hc : c.Flat P) (hP : ∀ e, P e → e.tag ≠ .table)
    (hfree : stray = false → (∃ e, P e ∧ e.tag ∈ partTags) → d.tree.Clear cellTags p) :
    (d.put c p).Orderly stray current := by
  -- What is clear at `p` stays so from piece to piece, because the tree only grows.
  have hstep : d.tree.Extends (c.addTo d.tree p) ∧
      Orderly stray current { d with tree := c.addTo d.tree p } := by
    refine hc.addTo (M := fun t => d.tree.Extends t ∧ Orderly stray current { d with tree := t }) ?_
      ?_ ⟨.refl _, h⟩
    · rintro t run ⟨hext, ht⟩
      have hs := sameShape_appendRun t p run
      exact ⟨hext.trans (.of_sameShape hs), ht.sameShape hs d.gathered⟩
    · rintro t e he ⟨hext, ht⟩
      obtain ⟨kids, hl⟩ := h.sound.tree.linked
      refine ⟨hext.trans (.grow t p e),
        ht.grow (hp.extends hext) (fun htag => absurd htag (hP e he)) ?_⟩
      exact fun hstray hmem => (hfree hstray ⟨e, he, hmem⟩).extends hext hl hp.lt_size
  exact hstep.2

theorem flush (h : d.Orderly stray current) {f : Frame} (hf : d.tree.Hosts f.container)
    (deletion : Bool) (run : String) : (d.flush deletion f run).Orderly stray current := by
  refine h.put hf (Mode.flat_run _ _) ?_ ?_
  · rintro e ⟨run, rfl⟩
    exact nofun
  · rintro - ⟨e, ⟨run, rfl⟩, hmem⟩
    exact absurd hmem (by decide : Tag.del ∉ partTags)

theorem mapTable (h : d.Orderly stray current) {f : OpenTable → OpenTable}
    (htable : ∀ o, (f o).table = o.table) (hbody : ∀ o, (f o).body = o.body) :
    (d.mapTable f).Orderly stray current where
  sound := (h.sound.mapTable htable hbody).sound
  tables := h.tables
  cells := h.cells
  table := by
    rw [Draft.mapTable, Option.map_map, ← h.table]
    exact Option.map_congr fun o _ => htable o
  tag := h.tag
  free := h.free
  body o id ho hid := by
    obtain ⟨o', ho', rfl⟩ := Option.map_eq_some_iff.mp ho
    rw [hbody] at hid
    rw [htable]
    exact h.body o' id ho' hid

/-! ## 2. Opening and closing -/

/-- The place of a container is the place inside its shell. -/
theorem openShell (h : d.Orderly stray current) {place : Place} {f : Frame}
    (hflow : place.isFlow = true) (ha : place.Admits stray current d.tree f.container)
    (c : Container) :
    (c.shell.opened f d).1.Orderly stray current ∧
      place.Admits stray current (c.shell.opened f d).1.tree (c.shell.opened f d).2.container := by
  -- A new node of a plain tag takes over the place of its parent.
  have hnew : ∀ {d : Draft σ} {p : NodeId} {e : Element}, d.Orderly stray current →
      place.Admits stray current d.tree p → e.tag ∉ voidTags → e.tag ∉ tableTags →
      (d.grow p e).Orderly stray current ∧
      place.Admits stray current (d.grow p e).tree d.tree.size := by
    intro d p e h ha hvoid htable
    have hclear : ∀ {tags}, d.tree.Clear tags p → (∀ tag ∈ tags, tag ∈ tableTags) →
        (d.tree.grow p e).Clear tags d.tree.size := fun hc hsub =>
      Tree.clear_grow hc h.sound.tree ha.hosts.lt_size fun hmem => htable (hsub _ hmem)
    refine ⟨h.grow_plain ha.hosts htable, Tree.hosts_grow _ _ hvoid, fun hplace => ?_,
      fun hstray hplace => ?_,
      fun hplace => ?_, unclosed_new current d.tree p fun htag =>
        htable (htag ▸ List.mem_cons_self)⟩
    · exact ⟨hclear (ha.outside hplace).1 (by decide), (ha.outside hplace).2⟩
    · exact hclear (ha.free hstray hplace) (by decide)
    · obtain rfl | rfl := hplace <;> cases hflow
  have htag := fun e => c.tag_elements (e := e)
  cases hshell : c.shell with
  | element e =>
    rw [hshell] at htag
    obtain ⟨hvoid, htable⟩ := htag e (List.mem_singleton_self e)
    exact hnew h ha hvoid htable
  | verbatim outer e =>
    rw [hshell] at htag
    obtain ⟨hvoid, htable⟩ := htag outer List.mem_cons_self
    obtain ⟨hvoid', htable'⟩ := htag e (List.mem_cons_of_mem _ (List.mem_singleton_self e))
    obtain ⟨houter, haouter⟩ := hnew h ha hvoid htable
    obtain ⟨hinner, hainner⟩ := hnew houter haouter hvoid' htable'
    rw [Draft.size_grow] at hainner
    exact ⟨hinner, hainner⟩
  | image attrs => exact ⟨h, ha⟩
  | silent => exact ⟨h, ha⟩
  | clear => exact ⟨h, ha⟩

/-- The body of the open table: rows may be added to it. -/
theorem tableBody (h : d.Orderly stray current) (hcurrent : current = some p) :
    (d.body p).1.Orderly stray current ∧ (d.body p).1.tree.tag? (d.body p).2 = some .tbody ∧
      (stray = false → (d.body p).1.tree.Clear cellTags (d.body p).2) := by
  have htable := h.table
  rw [hcurrent] at htable
  obtain ⟨o, ho, rfl⟩ := Option.map_eq_some_iff.mp htable
  have hplaced := h.sound.table o ho
  cases hbody : o.body with
  | some id =>
    obtain ⟨hparent, htag⟩ := h.body o id ho hbody
    rw [Draft.body_there _ ho hbody]
    exact ⟨h, htag, fun hstray => (h.free hstray _ hcurrent).child hparent htag (by decide)⟩
  | none =>
    have hgrow := h.grow_part (e := { tag := .tbody }) hplaced.table nofun fun hstray =>
      h.free hstray _ hcurrent
    have hsound := (h.sound.body hplaced.table).1.sound
    rw [Draft.body_missing _ ho hbody] at hsound ⊢
    have hnew := d.tree.tag?_grow_size o.table { tag := .tbody }
    -- The new body is the one that the table remembers from now on.
    refine ⟨⟨hsound, hgrow.tables, hgrow.cells, hcurrent.symm, hgrow.tag, hgrow.free, ?_⟩, hnew,
      fun hstray => ?_⟩
    · intro o' id ho' hid
      obtain rfl := Option.some.inj ho'
      obtain rfl := Option.some.inj hid
      exact ⟨d.tree.parent?_grow_size _ _, hnew⟩
    · exact Tree.clear_grow (h.free hstray _ hcurrent) h.sound.tree hplaced.table.lt_size
        (e := { tag := .tbody }) (by decide)

/-- A row and what is to become of it: a node for cells. -/
theorem growRow (h : d.Orderly stray current) (hp : d.tree.Hosts p)
    (hfree : stray = false → d.tree.Clear cellTags p) :
    (d.grow p { tag := .tr }).Orderly stray current ∧
      Place.row.Admits stray current (d.grow p { tag := .tr }).tree d.tree.size := by
  refine ⟨h.grow_part hp nofun hfree, Tree.hosts_grow _ _ (by decide), nofun, fun hstray _ => ?_,
    fun hplace => ?_, unclosed_new (e := { tag := .tr }) current d.tree p nofun⟩
  · exact Tree.clear_grow (hfree hstray) h.sound.tree hp.lt_size (e := { tag := .tr }) (by decide)
  · obtain hplace | hplace := hplace <;> cases hplace

theorem fillBody (h : d.Orderly stray current) {o : OpenTable} (ho : d.tree.Hosts o.table)
    (hfree : stray = false → d.tree.Clear cellTags o.table) :
    (d.fillBody o).Orderly stray current := by
  unfold Draft.fillBody
  by_cases hfilled : o.body.isSome = true
  · rw [if_pos hfilled]
    exact h
  · rw [if_neg hfilled]
    have hbody := h.grow_part (e := { tag := .tbody }) ho nofun hfree
    have hnew : (d.tree.grow o.table { tag := .tbody }).Hosts d.tree.size :=
      Tree.hosts_grow _ _ (by decide)
    obtain ⟨hrow, hadmits⟩ := hbody.growRow hnew fun hstray =>
      Tree.clear_grow (hfree hstray) h.sound.tree ho.lt_size (e := { tag := .tbody }) (by decide)
    rw [Draft.size_grow] at hadmits
    refine hrow.put hadmits.hosts (flat_cells _) ?_ fun hstray _ => hadmits.free hstray nofun
    rintro e rfl
    exact nofun

theorem closeTable {hook : TableHook σ} (hhook : TableHook.Shapely hook)
    (h : d.Orderly stray current) : (d.closeTable hook).Orderly stray none := by
  unfold Draft.closeTable
  split
  · rename_i hnone
    have hcurrent : current = none := by rw [← h.table, hnone]; rfl
    exact hcurrent ▸ h
  · rename_i o ho
    have hcurrent : current = some o.table := by rw [← h.table, ho]; rfl
    -- A table that is not open any more is filled like any other node.
    have hclosed : Orderly stray none { d with table := none } :=
      ⟨⟨h.sound.tree, nofun⟩, h.tables, h.cells, rfl, nofun, nofun, nofun⟩
    have hfill := hclosed.fillBody (h.sound.table o ho).table fun hstray => h.free hstray _ hcurrent
    exact hfill.sameShape (hhook _ _ _ hfill.sound.tree) _

end Draft.Orderly

/-! ## 3. Nests -/

/-- The table that is open inside a part: a new one, or that which is open around it. -/
def Part.current (current : Option NodeId) (d : Draft σ) : Part → Option NodeId
  | table _ => some d.tree.size
  | _ => current

section
variable {stray : Bool} {current : Option NodeId} {d : Draft σ} {container : NodeId}
  {place inside after : Place} {p : Part}

theorem Place.Admits.next {t : Tree} (ha : place.Admits stray current t container)
    (hnext : Place.Next stray place p inside after) : after.Admits stray current t container := by
  cases hnext with
  | head =>
    exact ⟨ha.hosts, nofun, fun hstray _ => ha.free hstray nofun,
      fun _ => ha.inTable (.inl rfl), ha.unclosed⟩
  | table | stray | row | cell => exact ha

/-- A cell takes up what stands in it. -/
theorem Draft.Orderly.growCell (h : d.Orderly stray current)
    (ha : place.Admits stray current d.tree container)
    (hfree : stray = false → d.tree.Clear cellTags container)
    (houtside : inside = .flow false → d.tree.Clear [.table] container ∧ current = none)
    (hinside : inside.isFlow = true) (hdeep : stray = false → inside = .flow true) :
    (Part.cell.opened container d).1.Orderly stray current ∧
      inside.Admits stray current (Part.cell.opened container d).1.tree
        (Part.cell.opened container d).2 := by
  have hcell := nextCell_ne_table d.table
  refine ⟨(h.grow_part ha.hosts hcell hfree).mapTable (fun _ => rfl) fun _ => rfl,
    Tree.hosts_grow _ _ (nextCell_not_void d.table), fun hplace => ?_,
    fun hstray hplace => absurd (hdeep hstray) hplace, fun hplace => ?_,
      unclosed_new current d.tree container hcell⟩
  · obtain ⟨hclear, hnone⟩ := houtside hplace
    exact ⟨Tree.clear_grow hclear h.sound.tree ha.hosts.lt_size fun hmem => hcell
      (List.mem_singleton.mp hmem), hnone⟩
  · obtain rfl | rfl := hplace <;> cases hinside

/-- Opening a part where it may stand leaves a container that is fit for what stands inside it. -/
theorem Draft.Orderly.opened (h : d.Orderly stray current)
    (ha : place.Admits stray current d.tree container)
    (hnext : Place.Next stray place p inside after) :
    (p.opened container d).1.Orderly stray (p.current current d) ∧
      inside.Admits stray (p.current current d) (p.opened container d).1.tree
        (p.opened container d).2 := by
  cases hnext with
  | table alignments =>
    obtain ⟨hclear, hnone⟩ := ha.outside rfl
    -- From here on the new table is the open one; until now there was none.
    have hgrow := h.grow (e := { tag := .table }) ha.hosts (fun _ => hclear) fun _ hmem =>
      absurd hmem (by decide : Tag.table ∉ partTags)
    have hnew := d.tree.tag?_grow_size container { tag := .table }
    have hfree : stray = false →
        (d.tree.grow container { tag := .table }).Clear cellTags d.tree.size := fun hstray =>
      Tree.clear_grow (ha.free hstray nofun) h.sound.tree ha.hosts.lt_size
        (e := { tag := .table }) (by decide)
    constructor
    · refine ⟨(h.sound.opened ha.hosts (.table alignments)).1.sound, hgrow.tables, hgrow.cells,
        rfl, ?_, ?_, ?_⟩
      · rintro id ⟨⟩
        exact hnew
      · rintro hstray id ⟨⟩
        exact hfree hstray
      · rintro o id ⟨⟩ hid
        cases hid
    · exact ⟨Tree.hosts_grow _ _ (by decide), nofun, fun hstray _ => hfree hstray,
        fun _ => rfl, fun _ => rfl⟩
  | stray hstray deep =>
    refine h.growCell ha (fun hfalse => ?_) ha.outside rfl fun hfalse => ?_
    all_goals
      rw [hstray] at hfalse
      cases hfalse
  | head =>
    have hfree := fun hstray => ha.free hstray nofun
    have hhead := h.grow_part (e := { tag := .thead }) ha.hosts nofun hfree
    have hnew : (d.tree.grow container { tag := .thead }).Hosts d.tree.size :=
      Tree.hosts_grow _ _ (by decide)
    obtain ⟨hrow, hadmits⟩ := hhead.growRow hnew fun hstray =>
      Tree.clear_grow (hfree hstray) h.sound.tree ha.hosts.lt_size
        (e := { tag := .thead }) (by decide)
    rw [Draft.size_grow] at hadmits
    exact ⟨hrow.mapTable (fun _ => rfl) fun _ => rfl, hadmits⟩
  | row =>
    obtain ⟨hbody, -, hfree⟩ := h.tableBody (ha.inTable (.inr rfl))
    obtain ⟨hrow, hadmits⟩ := hbody.growRow (h.sound.body ha.hosts).2 hfree
    exact ⟨hrow.mapTable (fun _ => rfl) fun _ => rfl, hadmits⟩
  | cell => exact h.growCell ha (fun hstray => ha.free hstray nofun) nofun rfl fun _ => rfl

/-- After a part the table is open again that was open before it. -/
theorem Draft.Orderly.closed {hook : TableHook σ} (hhook : TableHook.Shapely hook) {d' : Draft σ}
    (h : d'.Orderly stray (p.current current d)) (ha : place.Admits stray current d.tree container)
    (hnext : Place.Next stray place p inside after) : (p.closed hook d').Orderly stray current := by
  cases hnext with
  | table alignments =>
    obtain ⟨-, rfl⟩ := ha.outside rfl
    exact h.closeTable hhook
  | head => exact h.mapTable (fun _ => rfl) fun _ => rfl
  | stray | row | cell => exact h

/-- A shell keeps the tables in order if what is inside it does. -/
theorem Draft.Orderly.shell (h : d.Orderly stray current) {f : Frame} (hflow : place.isFlow = true)
    (ha : place.Admits stray current d.tree f.container) (c : Container) (alt : String)
    {inner : Frame → Draft σ → Draft σ}
    (hinner : ∀ g (d' : Draft σ), d'.Orderly stray current →
      place.Admits stray current d'.tree g.container →
      (inner g d').Orderly stray current) :
      (c.shell.filled f d alt inner).Orderly stray current := by
  obtain ⟨hopened, haopened⟩ := h.openShell hflow ha c
  cases hshell : c.shell with
  | image attrs => exact h.grow_plain ha.hosts (by decide : Tag.img ∉ tableTags)
  | _ =>
    rw [hshell] at hopened haopened
    exact hinner _ _ hopened haopened

theorem Draft.Orderly.part {hook : TableHook σ} (hhook : TableHook.Shapely hook)
    (h : d.Orderly stray current) (ha : place.Admits stray current d.tree container)
    (hnext : Place.Next stray place p inside after) {inner : Frame → Draft σ → Draft σ}
    (hinner : ∀ g current (d' : Draft σ), d'.Orderly stray current →
      inside.Admits stray current d'.tree g.container → (inner g d').Orderly stray current) :
    (p.filled hook container d inner).Orderly stray current := by
  obtain ⟨hopened, haopened⟩ := h.opened ha hnext
  exact (hinner { container := (p.opened container d).2 } _ _ hopened haopened).closed
    hhook ha hnext

theorem Leaf.tag_sense {l : Leaf} {e : Element} (h : l.sense = .element e) : e.tag ∉ tableTags := by
  cases l with
  | hardBreak | rule =>
    cases h
    decide
  | code s | footnoteReference s | taskMarker s =>
    cases h
    simp [tableTags, partTags]
  | _ => cases h

/-- **Order.** A nest that keeps to the grammar keeps the tables of a draft in order. -/
theorem Nest.pour_orderly {hook : TableHook σ} (hhook : TableHook.Shapely hook)
    (deletion : Bool) (n : Nest) {f : Frame} (run : String) (hfits : n.fits stray place = true)
    (h : d.Orderly stray current) (ha : place.Admits stray current d.tree f.container) :
    (n.pour hook deletion f run d).Orderly stray current := by
  -- For every place and every open table, since both are others inside a table. Each part of the
  -- nest leaves a draft that is in order and extends the old one, so the place admits what follows.
  induction n generalizing place current f run d with
  | nil => exact h.flush ha.hosts deletion run
  | leaf l rest ih =>
    rw [fits, Bool.and_eq_true] at hfits
    obtain ⟨hflow, hrest⟩ := hfits
    unfold pour
    split
    · exact ih _ hrest h ha
    · rename_i e hsense
      have hflush := h.sound.flush ha.hosts deletion run
      have hleaf := hflush.sound.grow (hflush.hosts ha.hosts) e
      exact ih _ hrest
        ((h.flush ha.hosts deletion run).grow_plain (hflush.hosts ha.hosts) (Leaf.tag_sense hsense))
        (ha.extends (hflush.trans hleaf).tree h.sound.tree)
  | container c inner rest ihinner ihrest =>
    rw [fits, Bool.and_eq_true, Bool.and_eq_true] at hfits
    obtain ⟨⟨hflow, hinner⟩, hrest⟩ := hfits
    have hflush := h.sound.flush ha.hosts deletion run
    have horder := h.flush ha.hosts deletion run
    have haflush := ha.extends hflush.tree h.sound.tree
    have hfilled := c.filled_advances inner.alt hflush.sound haflush.hosts fun g d hd hg =>
      inner.pour_advances hhook deletion "" hd hg
    have hshell := horder.shell hflow haflush c inner.alt fun _ _ hd hg => ihinner "" hinner hd hg
    exact ihrest _ hrest hshell (ha.extends (hflush.trans hfilled).tree h.sound.tree)
  | part p inner rest ihinner ihrest =>
    rw [fits] at hfits
    split at hfits
    · rename_i inside after hnext
      rw [Bool.and_eq_true] at hfits
      obtain ⟨hinner, hrest⟩ := hfits
      have hrule := Place.next_of_next? hnext
      have hflush := h.sound.flush ha.hosts deletion run
      have haflush := ha.extends hflush.tree h.sound.tree
      have hfilled := p.filled_advances hhook hflush.sound haflush.hosts fun g d hd hg =>
        inner.pour_advances hhook deletion "" hd hg
      have hpart := (h.flush ha.hosts deletion run).part hhook haflush hrule fun _ _ _ hd hg =>
        ihinner "" hinner hd hg
      exact ihrest _ hrest hpart ((ha.next hrule).extends (hflush.trans hfilled).tree h.sound.tree)
    · cases hfits

end

/-! ## 4. Documents -/

theorem clear_empty {tags : List Tag} (hdiv : Tag.div ∉ tags) :
    Tree.empty.Clear tags Tree.rootId := by
  intro a tag ha htag
  rw [ha.eq_of_top rfl] at htag
  obtain rfl : Tag.div = tag := Option.some.inj htag
  exact hdiv

theorem admits_empty (stray : Bool) : (Place.flow false).Admits stray none .empty Tree.rootId where
  hosts := ⟨.div, rfl, by decide⟩
  outside _ := ⟨clear_empty (by decide), rfl⟩
  free _ _ := clear_empty (by decide)
  inTable hplace := by obtain hplace | hplace := hplace <;> cases hplace
  unclosed htag := nomatch htag

theorem sound_empty (gathered : σ) : Draft.Sound { tree := .empty, gathered } :=
  ⟨.withRoot (by decide), nofun⟩

theorem orderly_empty (stray : Bool) (gathered : σ) :
    Draft.Orderly stray none { tree := .empty, gathered } := by
  have hnone : ∀ id p : NodeId, Tree.empty.parent? id ≠ some p := fun id p hp =>
    absurd ((Tree.linked_withRoot _).mem_kids.mpr hp) List.not_mem_nil
  exact ⟨sound_empty gathered, fun _ _ _ hp => absurd hp (hnone _ _),
    fun _ _ _ _ hp => absurd hp (hnone _ _), rfl, nofun, nofun, nofun⟩

theorem Nest.draft_advances {hook : TableHook σ} (hhook : TableHook.Shapely hook) (deletion : Bool)
    (gathered : σ) (n : Nest) :
    Draft.Advances { tree := .empty, gathered } (n.draft hook deletion gathered) :=
  n.pour_advances hhook deletion "" (sound_empty gathered) ⟨.div, rfl, by decide⟩

theorem Nest.draft_orderly {hook : TableHook σ} (hhook : TableHook.Shapely hook) (deletion : Bool)
    (gathered : σ) {stray : Bool} {n : Nest} (hfits : n.fits stray (.flow false) = true) :
    (n.draft hook deletion gathered).Orderly stray none :=
  n.pour_orderly hhook deletion "" hfits (orderly_empty stray gathered) (admits_empty stray)

end AccessibleMarkdown.Markdown
