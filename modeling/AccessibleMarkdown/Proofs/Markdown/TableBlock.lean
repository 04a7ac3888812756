import AccessibleMarkdown.Proofs.Markdown.Contents

/-!
# Table blocks

A table block is a head and rows of cells, with anything in the cells that is no part of a table.
Where neither a table nor an image is open, its events add one tree to the container that is open,
whatever events came before, and the hook is called once.
-/

namespace AccessibleMarkdown.Markdown

/-! ## 1. Blocks -/

structure TableBlock where
  alignments : List Alignment
  head : List Forest
  rows : List (List Forest)
  deriving DecidableEq, Repr

def Forest.cellEvents (f : Forest) : List Event :=
  .start .tableCell :: (f.events ++ [.stop .tableCell])

def rowEvents (cells : List Forest) : List Event :=
  .start .tableRow :: (cells.flatMap Forest.cellEvents ++ [.stop .tableRow])

def TableBlock.events (block : TableBlock) : List Event :=
  .start (.table block.alignments) :: .start .tableHead ::
    (block.head.flatMap Forest.cellEvents ++ .stop .tableHead ::
      (block.rows.flatMap rowEvents ++ [.stop .table]))

/-- A cell in a column with an alignment. -/
def Forest.cell (deletion head : Bool) (align : Option Alignment) (f : Forest) : Element × Grove :=
  let c := f.content deletion { cuts := deletion } ""
  ({ cellElement head align with text := c.lead }, c.grove)

def rowTree (deletion head : Bool) (alignments : List Alignment) (cells : List Forest) :
    Element × Grove :=
  ({ tag := .tr }, .ofList (cells.mapIdx fun k f => f.cell deletion head alignments[k]?))

def emptyRow (columns : Nat) : Element × Grove :=
  ({ tag := .tr }, .ofList (List.replicate columns ({ tag := .td }, .nil)))

def TableBlock.bodyTrees (deletion : Bool) (block : TableBlock) : List (Element × Grove) :=
  if block.rows.isEmpty then [emptyRow block.alignments.length]
  else block.rows.map (rowTree deletion false block.alignments)

/-- What is inside the element of a table: a head of one row, and a body. -/
def TableBlock.grove (deletion : Bool) (block : TableBlock) : Grove :=
  .ofList [({ tag := .thead }, .ofList [rowTree deletion true block.alignments block.head]),
    ({ tag := .tbody }, .ofList (block.bodyTrees deletion))]

/-- A table that is a head and nothing else has an empty row. -/
example :
    ({ alignments := [.left, .none], head := [.leaf (.text "a") .nil],
       rows := [] } : TableBlock).grove false =
      .node { tag := .thead }
        (.node { tag := .tr }
          (.node { cellElement true (some .left) with text := some "a" } .nil .nil) .nil)
        (.node { tag := .tbody }
          (.node { tag := .tr }
            (.node { tag := .td } .nil (.node { tag := .td } .nil .nil)) .nil) .nil) := by
  decide +kernel

/-! ## 2. Blocks as nests -/

def Forest.nest : Forest → Nest
  | nil => .nil
  | leaf l rest => .leaf l rest.nest
  | container c inner rest => .container c inner.nest rest.nest

namespace Forest

theorem events_nest (f : Forest) : f.nest.events = f.events := by
  induction f with
  | nil => rfl
  | leaf l rest ih => rw [nest, Nest.events, events, ih]
  | container c inner rest ihinner ihrest => rw [nest, Nest.events, events, ihinner, ihrest]

theorem fits_nest (deep : Bool) (f : Forest) : f.nest.fits false (.flow deep) = true := by
  induction f with
  | nil => rfl
  | leaf l rest ih => rw [nest, Nest.fits, ih]; rfl
  | container c inner rest ihinner ihrest => rw [nest, Nest.fits, ihinner, ihrest]; rfl

theorem alt_nest (f : Forest) : f.nest.alt = f.alt := by
  induction f with
  | nil => rfl
  | leaf l rest ih =>
    rw [nest, Nest.alt, ih]
    cases l with
    | text | code | softBreak | hardBreak => rfl
    | _ => exact String.empty_append
  | container c inner rest ihinner ihrest => rw [nest, Nest.alt, alt, ihinner, ihrest]

theorem content_nest (deletion : Bool) (m : Mode) (run : String) (f : Forest) :
    f.nest.content deletion (.flow m run) = f.content deletion m run := by
  induction f generalizing m run with
  | nil => rfl
  | leaf l rest ih =>
    rw [nest, Nest.content, content]
    cases l.sense with
    | data s => exact ih m _
    | element e => exact congrArg (_ ++ ·) (ih m "")
  | container c inner rest ihinner ihrest =>
    have hinner : (fun m => inner.nest.content deletion (.flow m "")) = fun m =>
        inner.content deletion m "" :=
      funext fun m => ihinner m ""
    rw [nest, Nest.content, content, hinner, alt_nest, ihrest]

end Forest

def cellsNest (cells : List Forest) : Nest :=
  cells.foldr (fun f rest => .part .cell f.nest rest) .nil

def rowsNest (rows : List (List Forest)) : Nest :=
  rows.foldr (fun cells rest => .part .row (cellsNest cells) rest) .nil

/-- What is between the start and the end of the table. -/
def TableBlock.nest (block : TableBlock) : Nest :=
  .part .head (cellsNest block.head) (rowsNest block.rows)

theorem events_cellsNest (cells : List Forest) :
    (cellsNest cells).events = cells.flatMap Forest.cellEvents := by
  induction cells with
  | nil => rfl
  | cons f rest ih =>
    show Event.start _ :: (f.nest.events ++ Event.stop _ :: (cellsNest rest).events) = _
    rw [ih, f.events_nest, List.flatMap_cons, Forest.cellEvents, List.cons_append,
      List.append_assoc]
    rfl

theorem events_rowsNest (rows : List (List Forest)) :
    (rowsNest rows).events = rows.flatMap rowEvents := by
  induction rows with
  | nil => rfl
  | cons cells rest ih =>
    show Event.start _ :: ((cellsNest cells).events ++ Event.stop _ :: (rowsNest rest).events) = _
    rw [ih, events_cellsNest, List.flatMap_cons, rowEvents, List.cons_append, List.append_assoc]
    rfl

theorem fits_cellsNest (cells : List Forest) : (cellsNest cells).fits false .row = true := by
  induction cells with
  | nil => rfl
  | cons f rest ih =>
    show (f.nest.fits false (.flow true) && (cellsNest rest).fits false .row) = true
    rw [f.fits_nest, ih]
    rfl

theorem fits_rowsNest (rows : List (List Forest)) : (rowsNest rows).fits false .rows = true := by
  induction rows with
  | nil => rfl
  | cons cells rest ih =>
    show ((cellsNest cells).fits false .row && (rowsNest rest).fits false .rows) = true
    rw [fits_cellsNest, ih]
    rfl

namespace TableBlock

variable (block : TableBlock)

theorem events_eq : block.events = Event.start (Part.table block.alignments).span ::
    (block.nest.events ++ [Event.stop (Part.table block.alignments).span.kind]) := by
  show _ = Event.start _ :: ((Event.start _ :: ((cellsNest block.head).events ++ Event.stop _ ::
    (rowsNest block.rows).events)) ++ _)
  rw [events_cellsNest, events_rowsNest, List.cons_append, List.append_assoc]
  rfl

theorem fits_nest : block.nest.fits false .table = true := by
  show ((cellsNest block.head).fits false .row && (rowsNest block.rows).fits false .rows) = true
  rw [fits_cellsNest, fits_rowsNest]
  rfl

end TableBlock

/-! ## 3. Content of blocks -/

/-- The content is the trees, without text before them. -/
structure Content.Makes (c : Content) (trees : List (Element × Grove)) : Prop where
  lead : c.lead = none
  grove : c.grove = .ofList trees

theorem joinText_none (more : Option String) : joinText none more = more := by
  cases more with
  | none => rfl
  | some more => exact congrArg some String.empty_append

namespace Content.Makes

variable {e : Element} {inner rest : Content} {trees inside : List (Element × Grove)}

theorem nil : Content.nil.Makes [] := ⟨rfl, rfl⟩

theorem cons (htext : e.text = none) (hrest : rest.Makes trees) :
    (Content.element e inner rest).Makes
    (({ e with text := inner.lead }, inner.grove) :: trees) where
  lead := rfl
  grove := by
    rw [Content.grove, hrest.lead, hrest.grove, htext, joinText_none]
    rfl

/-- An element around trees has no text of its own. -/
theorem around (htext : e.text = none) (hinner : inner.Makes inside) (hrest : rest.Makes trees) :
    (Content.element e inner rest).Makes ((e, .ofList inside) :: trees) := by
  have hcons : (Content.element e inner rest).Makes _ := cons htext hrest
  rwa [hinner.lead, hinner.grove, ← htext] at hcons

end Content.Makes

theorem makes_cells (n : Nat) : (cells n).Makes (List.replicate n ({ tag := .td }, .nil)) := by
  induction n with
  | zero => exact .nil
  | succ n ih => exact .around rfl .nil ih

theorem makes_cellsNest (deletion head : Bool) (alignments : List Alignment) (column : Nat)
    (cells : List Forest) :
    ((cellsNest cells).content deletion (.row head alignments column)).Makes
      (cells.mapIdx fun k f => f.cell deletion head alignments[column + k]?) := by
  -- For every column: each cell is in the column after that of the one before.
  induction cells generalizing column with
  | nil => exact .nil
  | cons f rest ih =>
    have hrest := ih (column + 1)
    simp only [Nat.add_assoc, Nat.add_comm 1] at hrest
    rw [List.mapIdx_cons]
    show (Content.element _ (f.nest.content deletion (.flow { cuts := deletion } "")) _).Makes _
    rw [f.content_nest]
    exact .cons rfl hrest

theorem makes_row (deletion head : Bool) (alignments : List Alignment) (cells : List Forest)
    {rest : Content} {trees : List (Element × Grove)} (hrest : rest.Makes trees) :
    (Content.element { tag := .tr }
      ((cellsNest cells).content deletion (.row head alignments 0)) rest).Makes
      (rowTree deletion head alignments cells :: trees) := by
  have hcells := makes_cellsNest deletion head alignments 0 cells
  simp only [Nat.zero_add] at hcells
  exact .around rfl hcells hrest

theorem makes_rowsNest (deletion : Bool) (alignments : List Alignment) (rows : List (List Forest)) :
    ((rowsNest rows).content deletion (.rows alignments)).Makes
    (rows.map (rowTree deletion false alignments)) := by
  induction rows with
  | nil => exact .nil
  | cons cells rest ih => exact makes_row deletion false alignments cells ih

namespace TableBlock

variable (block : TableBlock)

theorem makes_body (deletion : Bool) :
    (filledRows block.alignments.length
      ((rowsNest block.rows).content deletion (.rows block.alignments))).Makes
      (block.bodyTrees deletion) := by
  have hrows := makes_rowsNest deletion block.alignments block.rows
  unfold bodyTrees
  cases hblock : block.rows with
  | nil => exact .around rfl (makes_cells _) .nil
  | cons cells rest =>
    rw [hblock] at hrows
    exact hrows

theorem makes_nest (deletion : Bool) :
    (block.nest.content deletion (.table block.alignments)).Makes
      [({ tag := .thead }, .ofList [rowTree deletion true block.alignments block.head]),
        ({ tag := .tbody }, .ofList (block.bodyTrees deletion))] :=
  .around rfl (makes_row deletion true block.alignments block.head .nil)
    (.around rfl (block.makes_body deletion) .nil)

end TableBlock

/-! ## 4. Building blocks -/

/-- There is one tree more, below the node and after its other children, and nothing else is new. -/
structure GainsChild (t u : Tree) (p : NodeId) (e : Element) (inner : Grove) : Prop where
  size : u.size = t.size + (Grove.node e inner .nil).size
  element : ∀ id < t.size, u.element? id = t.element? id
  children : ∀ id < t.size, id ≠ p → u.children id = t.children id
  last : ∃ id, t.size ≤ id ∧ u.children p = t.children p ++ [id] ∧ u.Holds [id] (.node e inner .nil)

theorem Content.gainsChild (e : Element) (inner : Content) {t : Tree} {kids : NodeId → List NodeId}
    (h : t.Linked kids) {p : NodeId} (hp : p < t.size) (hlead : inner.lead = none) :
    GainsChild t ((Content.element e inner .nil).addTo t p) p e inner.grove := by
  obtain ⟨hadded, hholds, hsize⟩ := Content.added_element e inner h hp
  rw [hlead] at hholds
  refine ⟨hsize, hadded.element, fun id hid hne => ?_, t.size, Nat.le_refl _, ?_, hholds⟩
  · rw [hadded.children id hid, if_neg hne]
  · rw [hadded.children p hp, if_pos rfl]

namespace Builder

variable {σ : Type} {hook : TableHook σ} {b : Builder σ}

/-- A table is reported to the hook where it has been put. -/
theorem report_put (hook : TableHook σ) {d : Draft σ} (h : d.Sound) {p : NodeId}
    (hp : d.tree.Hosts p) (e : Element) (inner : Content) :
    (d.put (.element e inner .nil) p).report hook d.tree.size =
      let made := hook p ((Content.element e inner .nil).addTo d.tree p, d.gathered)
      { d with tree := made.1, gathered := made.2 } := by
  obtain ⟨kids, hl⟩ := h.tree.linked
  obtain ⟨hadded, -, -⟩ := Content.added_element e inner hl hp.lt_size
  obtain ⟨kids', hl'⟩ := hadded.linked
  have hmem : d.tree.size ∈ ((Content.element e inner .nil).addTo d.tree p).children p := by
    rw [hadded.children p hp.lt_size, if_pos rfl]
    exact List.mem_append_right _ (List.mem_singleton_self _)
  have hparent := hl'.mem_children.mp hmem
  show Draft.mk _ _ _ = _
  simp only [Draft.put, hparent, Option.getD_some]

/-- **Table blocks.** Whatever events came before, if no image and no table is open, the events of a
block put one table into the container that is open, behind the text that was held back, and leave
the frames as they were. The hook is called once, on the container, when the table is complete: what
it has gathered then is what one call makes of what it had gathered before. -/
theorem foldlM_tableBlock (hhook : ∀ parent s, (hook parent s).1 = s.1) {deletion : Bool}
    {gathered : σ} {before : List Event}
    (hbefore : before.foldlM (push hook) (start deletion gathered) = .ok b)
    (himage : b.image = none) (htable : b.table = none) (block : TableBlock) :
    ∃ b₀ b', b.flush = .ok b₀ ∧ block.events.foldlM (push hook) b = .ok b' ∧
      GainsChild b₀.tree b'.tree b.frame.container { tag := .table } (block.grove b.deletion) ∧
      b'.frames = b.frames ∧ b'.table = none ∧ b'.image = none ∧ b'.pending = "" ∧
      b'.gathered = (hook b.frame.container (b'.tree, b.gathered)).2 := by
  have hshapely : TableHook.Shapely hook := by
    intro parent t gathered _
    rw [hhook]
    exact .refl t
  have hsound : b.Sound := by
    obtain ⟨b₁, hrun, hsound⟩ := (sound_start deletion gathered).run hshapely before
    rw [hbefore] at hrun
    cases hrun
    exact hsound
  have hflush := hsound.draft.flush hsound.container b.deletion b.pending
  have hcontainer := hflush.hosts hsound.container
  obtain ⟨kids, hl⟩ := hflush.sound.tree.linked
  obtain ⟨hlead, hgrove⟩ := block.makes_nest b.deletion
  have hgains := Content.gainsChild { tag := .table } _ hl hcontainer.lt_size hlead
  rw [hgrove] at hgains
  -- The events of the block are those of a nest, which is poured as a whole.
  have hrun :=
    foldlM_part hshapely (.table block.alignments) block.nest hsound himage
      fun h himage => pours_events hshapely _ h himage
  -- No table was open before, so with the end of the block none is open again.
  have hclosed : ({ b.draft.flush b.deletion b.frame b.pending with table := none } : Draft σ) =
      b.draft.flush b.deletion b.frame b.pending := by
    show Draft.mk _ _ none = Draft.mk _ _ b.table
    rw [htable]
    rfl
  rw [← block.events_eq, Nest.pour_table hook b.deletion block.fits_nest, hclosed,
    report_put hook hflush.sound hcontainer] at hrun
  refine ⟨_, _, hsound.flush_become, hrun, ?_, rfl, htable, himage, rfl, ?_⟩
  · show GainsChild _ (hook b.frame.container _).1 _ _ _
    rw [hhook]
    exact hgains
  · show (hook b.frame.container _).2 = (hook b.frame.container ((hook b.frame.container _).1, _)).2
    rw [hhook]
    rfl

/-- A table of two columns after text in a paragraph and an end without a start. -/
theorem foldlM_tableBlock_paragraph :
    let hook : TableHook (List NodeId) := fun parent (t, calls) => (t, calls ++ [parent])
    let before : List Event := [.stop .table, .start .paragraph, .text "a --b-- c"]
    let word (text : String) : Forest := .leaf (.text text) .nil
    let block : TableBlock := {
      alignments := [.left, .none]
      head := [word "x", .container .emphasis (word "y") .nil, word "z"]
      rows := [[word "--1--"], []] }
    (∀ parent s, (hook parent s).1 = s.1) ∧ ∃ b, before.foldlM (push hook) (start true []) = .ok b ∧
      b.image = none ∧ b.table = none ∧
      ∃ b₀ b', b.flush = .ok b₀ ∧ block.events.foldlM (push hook) b = .ok b' ∧
        GainsChild b₀.tree b'.tree b.frame.container { tag := .table } (block.grove b.deletion) ∧
        b'.frames = b.frames ∧ b'.table = none ∧ b'.image = none ∧ b'.pending = "" ∧
        b'.gathered = b.gathered ++ [b.frame.container] := by
  intro hook before word block
  have hhook : ∀ parent s, (hook parent s).1 = s.1 := fun _ _ => rfl
  have hbefore : before.foldlM (push hook) (start true []) = .ok _ := rfl
  exact ⟨hhook, _, hbefore, rfl, rfl, foldlM_tableBlock hhook hbefore rfl rfl block⟩

end Builder

end AccessibleMarkdown.Markdown
