import AccessibleMarkdown.Proofs.Markdown.Draft

/-!
# Nested events

A nest is a document with its tables: leaves, containers and parts of tables, one inside the other.
Its events are its serialisation. Which part of a table may stand where is a matter of grammar; what
a nest puts into a draft is read off it by recursion, whether it keeps to the grammar or not.
-/

namespace AccessibleMarkdown.Markdown

/-! ## 1. Nests -/

inductive Nest
  | nil
  | leaf (l : Leaf) (rest : Nest)
  | container (c : Container) (inner rest : Nest)
  | part (p : Part) (inner rest : Nest)
  deriving DecidableEq, Repr

def Nest.events : Nest → List Event
  | nil => []
  | leaf l rest => l.event :: rest.events
  | container c inner rest => .start c.span :: (inner.events ++ .stop c.span.kind :: rest.events)
  | part p inner rest => .start p.span :: (inner.events ++ .stop p.span.kind :: rest.events)

/-! ## 2. Grammar -/

/-- Where a part of a nest stands. -/
inductive Place
  /-- Outside tables or, if it is deep, in a cell. -/
  | flow (deep : Bool)
  /-- At the beginning of a table. -/
  | table
  /-- In a table, after its head. -/
  | rows
  /-- In a head or in a row. -/
  | row
  deriving DecidableEq, Repr

namespace Place

def isFlow : Place → Bool
  | flow _ => true
  | _ => false

/-- A table has a head. -/
def mayEnd : Place → Bool
  | table => false
  | _ => true

/-- The places inside and after a part of a table that may stand at a place. A table is a head and
then rows, heads and rows are made of cells, and there is no table inside a table. Cells outside of
rows are `stray`. -/
def next? (stray : Bool) : Place → Part → Option (Place × Place)
  | flow false, .table _ => some (table, flow false)
  | flow deep, .cell => if stray then some (flow deep, flow deep) else none
  | table, .head => some (row, rows)
  | rows, .row => some (row, rows)
  | row, .cell => some (flow true, row)
  | _, _ => none

/-- The rules of the grammar, one by one. -/
inductive Next (stray : Bool) : Place → Part → Place → Place → Prop
  | table (alignments : List Alignment) :
      Next stray (flow false) (.table alignments) table (flow false)
  | stray (hstray : stray = true) (deep : Bool) :
      Next stray (flow deep) .cell (flow deep) (flow deep)
  | head : Next stray table .head row rows
  | row : Next stray rows .row row rows
  | cell : Next stray row .cell (flow true) row

theorem next_of_next? {stray : Bool} {place inside after : Place} {p : Part}
    (h : place.next? stray p = some (inside, after)) : Next stray place p inside after := by
  unfold next? at h
  split at h
  · cases h
    exact .table _
  · split at h
    · rename_i hstray
      cases h
      exact .stray hstray _
    · cases h
  · cases h
    exact .head
  · cases h
    exact .row
  · cases h
    exact .cell
  · cases h

end Place

/-- Does a nest keep to the grammar? -/
def Nest.fits (stray : Bool) : Place → Nest → Bool
  | place, nil => place.mayEnd
  | place, leaf _ rest => place.isFlow && rest.fits stray place
  | place, container _ inner rest => place.isFlow && inner.fits stray place && rest.fits stray place
  | place, part p inner rest =>
    match place.next? stray p with
    | some (inside, after) => inner.fits stray inside && rest.fits stray after
    | none => false

/-- The events are properly nested, and their tables are in order. -/
def WellFormed (events : List Event) : Prop :=
  ∃ n : Nest, n.events = events ∧ n.fits false (.flow false) = true

/-! ## 3. Content -/

/-- What a leaf leaves in the alternative text of an image. -/
def Leaf.alt : Leaf → String
  | text s | code s => s
  | softBreak | hardBreak => " "
  | _ => ""

/-- The alternative text of an image around a nest. -/
def Nest.alt : Nest → String
  | nil => ""
  | leaf l rest => l.alt ++ rest.alt
  | container _ inner rest | part _ inner rest => inner.alt ++ rest.alt

/-- How character data in a frame is read. -/
def Frame.mode (deletion : Bool) (f : Frame) : Mode :=
  { cuts := deletion && !f.raw, drops := f.skip }

variable {σ : Type}

/-- Puts the character data before an element into the container. -/
def Draft.flush (deletion : Bool) (f : Frame) (run : String) (d : Draft σ) : Draft σ :=
  d.put ((f.mode deletion).run run) f.container

def imageElement (attrs : List (String × String)) (alt : String) : Element :=
  { tag := .img, attrs := .ofList (attrs ++ [("alt", alt)]) }

/-- The draft with a container in it: an image, or a shell around what is inside. -/
def Container.Shell.filled (f : Frame) (d : Draft σ) (alt : String)
    (inner : Frame → Draft σ → Draft σ) :
    Container.Shell → Draft σ
  | image attrs => d.grow f.container (imageElement attrs alt)
  | shell => inner (shell.opened f d).2 (shell.opened f d).1

/-- The draft with a part of a table in it. -/
def Part.filled (hook : TableHook σ) (container : NodeId) (d : Draft σ)
    (inner : Frame → Draft σ → Draft σ) (p : Part) : Draft σ :=
  p.closed hook (inner { container := (p.opened container d).2 } (p.opened container d).1)

/-- What a nest that follows the character data `run` makes of a draft, in an open frame. -/
def Nest.pour (hook : TableHook σ) (deletion : Bool) : Nest → Frame → String → Draft σ → Draft σ
  | nil, f, run, d => d.flush deletion f run
  | leaf l rest, f, run, d =>
    match l.sense with
    | .data s => rest.pour hook deletion f (if f.skip then run else run ++ s) d
    | .element e => rest.pour hook deletion f "" ((d.flush deletion f run).grow f.container e)
  | container c inner rest, f, run, d =>
    rest.pour hook deletion f "" (c.shell.filled f (d.flush deletion f run) inner.alt fun g d =>
      inner.pour hook deletion g "" d)
  | part p inner rest, f, run, d =>
    rest.pour hook deletion f "" (p.filled hook f.container (d.flush deletion f run) fun g d =>
      inner.pour hook deletion g "" d)

/-- The draft of a whole document. -/
def Nest.draft (hook : TableHook σ) (deletion : Bool) (gathered : σ) (n : Nest) : Draft σ :=
  n.pour hook deletion { container := Tree.rootId } "" { tree := .empty, gathered }

/-! ## 4. Soundness -/

section
variable {hook : TableHook σ} {d : Draft σ} {f : Frame}

theorem Draft.Sound.flush (h : d.Sound) (hf : d.tree.Hosts f.container) (deletion : Bool)
    (run : String) : d.Advances (d.flush deletion f run) :=
  h.put hf (Mode.flat_run _ _)

/-- A shell advances a draft if what is inside it does. -/
theorem Container.filled_advances (c : Container) (alt : String) {inner : Frame → Draft σ → Draft σ}
    (h : d.Sound) (hf : d.tree.Hosts f.container)
    (hinner : ∀ g (d' : Draft σ), d'.Sound → d'.tree.Hosts g.container → d'.Advances (inner g d')) :
    d.Advances (c.shell.filled f d alt inner) := by
  obtain ⟨hopened, hnew⟩ := h.openShell hf c
  cases hshell : c.shell with
  | image attrs => exact h.grow hf _
  | _ =>
    rw [hshell] at hopened hnew
    exact hopened.trans (hinner _ _ hopened.sound hnew)

theorem Part.filled_advances (hhook : TableHook.Shapely hook) {p : Part} {container : NodeId}
    {inner : Frame → Draft σ → Draft σ} (h : d.Sound) (hf : d.tree.Hosts container)
    (hinner : ∀ g (d' : Draft σ), d'.Sound → d'.tree.Hosts g.container → d'.Advances (inner g d')) :
    d.Advances (p.filled hook container d inner) := by
  obtain ⟨hopened, hnew⟩ := h.opened hf p
  have hinside := hinner { container := (p.opened container d).2 } _ hopened.sound hnew
  exact (hopened.trans hinside).trans (hinside.sound.closed hhook p)

/-- A nest adds to a draft and keeps it sound, in every frame whose container may have children. -/
theorem Nest.pour_advances (hhook : TableHook.Shapely hook) (deletion : Bool) (n : Nest)
    (run : String) (h : d.Sound) (hf : d.tree.Hosts f.container) :
    d.Advances (n.pour hook deletion f run d) := by
  induction n generalizing f run d with
  | nil => exact h.flush hf deletion run
  | leaf l rest ih =>
    have hflush := h.flush hf deletion run
    unfold pour
    split
    · exact ih _ h hf
    · rename_i e _
      have hleaf := hflush.sound.grow (hflush.hosts hf) e
      exact (hflush.trans hleaf).trans (ih _ hleaf.sound (hleaf.hosts (hflush.hosts hf)))
  | container c inner rest ihinner ihrest =>
    have hflush := h.flush hf deletion run
    have hc :=
      c.filled_advances inner.alt hflush.sound (hflush.hosts hf) fun _ _ hd hg => ihinner "" hd hg
    exact (hflush.trans hc).trans (ihrest _ hc.sound (hc.hosts (hflush.hosts hf)))
  | part p inner rest ihinner ihrest =>
    have hflush := h.flush hf deletion run
    have hp :=
      p.filled_advances hhook hflush.sound (hflush.hosts hf) fun _ _ hd hg => ihinner "" hd hg
    exact (hflush.trans hp).trans (ihrest _ hp.sound (hp.hosts (hflush.hosts hf)))

end

end AccessibleMarkdown.Markdown
