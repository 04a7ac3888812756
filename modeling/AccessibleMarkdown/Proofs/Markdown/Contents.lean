import AccessibleMarkdown.Proofs.Markdown.Pouring

/-!
# The content of tables

A nest that keeps to the grammar has a content, tables included, that can be read off it without a
draft. What it pours into a draft is that content. Between the start and the end of a table this is
so to the letter; the hook is called at the end of the table only, and from then on it is so up to
whatever the hook has changed.
-/

namespace AccessibleMarkdown.Markdown

open Builder (nextCell)

/-! ## 1. Cells -/

/-- The style of a cell in a column with an alignment. -/
def cellStyle : Option Alignment → List (String × String)
  | some .left => [("style", "text-align: left;")]
  | some .center => [("style", "text-align: center;")]
  | some .right => [("style", "text-align: right;")]
  | some .none | none => []

def cellElement (head : Bool) (align : Option Alignment) : Element :=
  { tag := if head then .th else .td, attrs := .ofList (cellStyle align) }

theorem cellAttrs_eq (align : Option Alignment) : Builder.cellAttrs align = cellStyle align := by
  cases align with
  | none => rfl
  | some align => cases align <;> decide

theorem nextCell_eq (o : OpenTable) :
    nextCell (some o) =
      (cellElement o.inHead o.alignments[o.column]?, some { o with column := o.column + 1 }) := by
  have htd : Tag.ofName "td" = .td := by decide +kernel
  have hth : Tag.ofName "th" = .th := by decide +kernel
  rw [nextCell, cellAttrs_eq, cellElement, Builder.element]
  cases o.inHead with
  | false => rw [if_neg Bool.false_ne_true, if_neg Bool.false_ne_true, htd]
  | true => rw [if_pos rfl, if_pos rfl, hth]

/-! ## 2. Content -/

/-- What stands in a body: its rows or, without any, one row of empty cells. -/
def filledRows (columns : Nat) : Content → Content
  | .nil => .element { tag := .tr } (cells columns) .nil
  | rows => rows

/-- How a nest is read. -/
inductive Slot
  /-- As what follows the character data `run`. -/
  | flow (m : Mode) (run : String)
  | table (alignments : List Alignment)
  | rows (alignments : List Alignment)
  /-- As cells from a column on. -/
  | row (head : Bool) (alignments : List Alignment) (column : Nat)

/-- The content of a nest that keeps to the grammar. -/
def Nest.content (deletion : Bool) : Slot → Nest → Content
  | .flow m run, nil => m.run run
  | .flow m run, leaf l rest =>
    match l.sense with
    | .data s => rest.content deletion (.flow m (if m.drops then run else run ++ s))
    | .element e => m.run run ++ .element e .nil .nil ++ rest.content deletion (.flow m "")
  | .flow m run, container c inner rest =>
    m.run run ++
      c.shell.content deletion m (fun m => inner.content deletion (.flow m "")) inner.alt ++
      rest.content deletion (.flow m "")
  | .flow m run, part (.table alignments) inner rest =>
    m.run run ++ .element { tag := .table } (inner.content deletion (.table alignments)) .nil ++
      rest.content deletion (.flow m "")
  | .table alignments, part .head inner rest =>
    .element { tag := .thead }
      (.element { tag := .tr } (inner.content deletion (.row true alignments 0)) .nil)
      (.element { tag := .tbody }
        (filledRows alignments.length (rest.content deletion (.rows alignments))) .nil)
  | .rows alignments, part .row inner rest =>
    .element { tag := .tr } (inner.content deletion (.row false alignments 0))
      (rest.content deletion (.rows alignments))
  | .row head alignments column, part .cell inner rest =>
    .element (cellElement head alignments[column]?)
      (inner.content deletion (.flow { cuts := deletion } ""))
      (rest.content deletion (.row head alignments (column + 1)))
  | _, _ => .nil

variable {σ : Type} {hook : TableHook σ} {deletion : Bool} {d d' : Draft σ} {f : Frame}
  {o : OpenTable} {n : Nest}

theorem Frame.mode_container (deletion : Bool) (id : NodeId) :
    Frame.mode deletion { container := id } = { cuts := deletion } := by
  rw [Frame.mode, Bool.not_false, Bool.and_true]

theorem Draft.put_append (c c' : Content) (p : NodeId) (d : Draft σ) :
    d.put (c ++ c') p = (d.put c p).put c' p := by
  rw [put, put, put, Content.addTo_append]

/-! ## 3. Flows -/

/-- A likeness of drafts that survives when more is put into both. -/
structure Draft.Likeness (R : Draft σ → Draft σ → Prop) : Prop where
  refl : ∀ d, R d d
  trans : ∀ {d d' d''}, R d d' → R d' d'' → R d d''
  put : ∀ {d d'}, R d d' → ∀ c p, R (d.put c p) (d'.put c p)

theorem Draft.likeness_eq : Draft.Likeness (σ := σ) Eq where
  refl _ := rfl
  trans := Eq.trans
  put h _ _ := h ▸ rfl

variable {R : Draft σ → Draft σ → Prop}

/-- A shell is filled with its content if its inside is. -/
theorem Container.Shell.filled_like (hR : Draft.Likeness R) (content : Mode → Content)
    {inner : Frame → Draft σ → Draft σ}
    (hinner : ∀ g d, R (inner g d) (d.put (content (g.mode deletion)) g.container))
    (f : Frame) (d : Draft σ) (alt : String) (shell : Container.Shell) :
    R (shell.filled f d alt inner)
      (d.put (shell.content deletion (f.mode deletion) content alt) f.container) := by
  cases shell with
  | element e =>
    have h := hinner { container := d.tree.size } (d.grow f.container e)
    rwa [Frame.mode_container] at h
  | verbatim outer e =>
    have h :=
      hinner { container := d.tree.size + 1, raw := true }
        ((d.grow f.container outer).grow d.tree.size e)
    -- In a raw frame no deletion markup is looked for.
    have hmode :
        Frame.mode deletion { container := d.tree.size + 1, raw := true } = { cuts := false } := by
      rw [Frame.mode, Bool.not_true, Bool.and_false]
    have hput :
        d.put (.element outer (.element e (content { cuts := false }) .nil) .nil) f.container =
          ((d.grow f.container outer).grow d.tree.size e).put (content { cuts := false })
            (d.grow f.container outer).tree.size := rfl
    rw [hmode] at h
    rw [Container.Shell.content, hput, Draft.size_grow]
    exact h
  | image attrs => exact hR.refl _
  | silent =>
    have h := hinner { container := f.container, skip := true } d
    have hmode : Frame.mode deletion { container := f.container, skip := true } =
        { cuts := deletion, drops := true } := by
      rw [Frame.mode, Bool.not_false, Bool.and_true]
    rwa [hmode] at h
  | clear => exact hinner f d

/-- A flow pours its content if the tables in it do. -/
theorem Nest.pour_like (hR : Draft.Likeness R) {deep : Bool}
    (htable : deep = false → ∀ alignments (inner : Nest) container d,
      inner.fits false .table = true →
      R ((Part.table alignments).filled hook container d fun g d => inner.pour hook deletion g "" d)
        (d.put
          (.element { tag := .table } (inner.content deletion (.table alignments)) .nil) container))
    (hfits : n.fits false (.flow deep) = true) (f : Frame) (run : String) (d : Draft σ) :
    R (n.pour hook deletion f run d)
      (d.put (n.content deletion (.flow (f.mode deletion) run)) f.container) := by
  induction n generalizing f run d with
  | nil => exact hR.refl _
  | leaf l rest ih =>
    simp only [fits, Bool.and_eq_true] at hfits
    rw [pour, content]
    cases l.sense with
    | data s => exact ih hfits.2 f _ d
    | element e =>
      simp only [Draft.put_append]
      exact ih hfits.2 f "" ((d.flush deletion f run).grow f.container e)
  | container c inner rest ihinner ihrest =>
    simp only [fits, Bool.and_eq_true] at hfits
    obtain ⟨⟨-, hinner⟩, hrest⟩ := hfits
    have hshell := Container.Shell.filled_like hR (fun m => inner.content deletion (.flow m ""))
      (fun g d => ihinner hinner g "" d) f (d.flush deletion f run) inner.alt c.shell
    rw [pour, content, Draft.put_append, Draft.put_append]
    exact hR.trans (ihrest hrest f "" _) (hR.put hshell _ _)
  | part p inner rest _ ihrest =>
    -- The grammar has no part of a table in a flow but a whole table.
    cases p with
    | table alignments =>
      cases deep with
      | true => simp [fits, Place.next?] at hfits
      | false =>
        simp only [fits, Place.next?, Bool.and_eq_true] at hfits
        have hpart := htable rfl alignments inner f.container (d.flush deletion f run) hfits.1
        rw [pour, content, Draft.put_append, Draft.put_append]
        exact hR.trans (ihrest hfits.2 f "" _) (hR.put hpart _ _)
    | _ => cases deep <;> simp [fits, Place.next?] at hfits

/-- Inside tables, where there is no other table, this is all that happens. -/
theorem Nest.pour_deep (hfits : n.fits false (.flow true) = true) (f : Frame) (run : String)
    (d : Draft σ) :
    n.pour hook deletion f run d =
      d.put (n.content deletion (.flow (f.mode deletion) run)) f.container := by
  apply Nest.pour_like Draft.likeness_eq _ hfits
  intro h
  cases h

/-! ## 4. Tables -/

/-- The draft in which a table is open. -/
def Draft.withTable (d : Draft σ) (o : OpenTable) : Draft σ := { d with table := some o }

theorem opened_cell (d : Draft σ) (o : OpenTable) (container : NodeId) :
    Part.cell.opened container (d.withTable o) =
      ((d.grow container (cellElement o.inHead o.alignments[o.column]?)).withTable
        { o with column := o.column + 1 }, d.tree.size) := by
  show (Draft.mapTable _ (Draft.grow container (nextCell (some o)).1 (d.withTable o)),
      d.tree.size) = _
  rw [nextCell_eq]
  rfl

variable (hook : TableHook σ) (deletion : Bool)

/-- Only the column of the open table is new after a row. -/
theorem Nest.pour_row (hfits : n.fits false .row = true) (f : Frame) (o : OpenTable) (d : Draft σ) :
    ∃ column, n.pour hook deletion f "" (d.withTable o) =
      (d.put (n.content deletion (.row o.inHead o.alignments o.column)) f.container).withTable
      { o with column } := by
  induction n generalizing d o with
  | nil => exact ⟨o.column, rfl⟩
  | leaf l rest => simp [fits, Place.isFlow] at hfits
  | container c inner rest => simp [fits, Place.isFlow] at hfits
  | part p inner rest _ ihrest =>
    cases p with
    | cell =>
      simp only [fits, Place.next?, Bool.and_eq_true] at hfits
      obtain ⟨hinner, hrest⟩ := hfits
      -- A cell is poured deep, where no table is: all that is left of it is the next column.
      have hcell :
          Part.cell.filled hook f.container (d.withTable o)
            (fun g d => inner.pour hook deletion g "" d) =
          ((d.grow f.container (cellElement o.inHead o.alignments[o.column]?)).put
            (inner.content deletion (.flow { cuts := deletion } "")) d.tree.size).withTable
              { o with column := o.column + 1 } := by
        simp only [Part.filled, opened_cell, Nest.pour_deep hinner, Frame.mode_container]
        rfl
      obtain ⟨column, hpour⟩ := ihrest hrest { o with column := o.column + 1 } _
      exact ⟨column, (congrArg (rest.pour hook deletion f "") hcell).trans hpour⟩
    | _ => simp [fits, Place.next?] at hfits

/-- Rows are added to the body that there is. -/
theorem Nest.pour_rows (hfits : n.fits false .rows = true) (f : Frame) (table body : NodeId)
    (alignments : List Alignment) (column : Nat) (d : Draft σ) :
    ∃ column',
      n.pour hook deletion f "" (d.withTable { table, body := some body, alignments, column }) =
      (d.put (n.content deletion (.rows alignments)) body).withTable
        { table, body := some body, alignments, column := column' } := by
  induction n generalizing d column with
  | nil => exact ⟨column, rfl⟩
  | leaf l rest => simp [fits, Place.isFlow] at hfits
  | container c inner rest => simp [fits, Place.isFlow] at hfits
  | part p inner rest _ ihrest =>
    cases p with
    | row =>
      simp only [fits, Place.next?, Bool.and_eq_true] at hfits
      obtain ⟨hinner, hrest⟩ := hfits
      obtain ⟨column', hcells⟩ := Nest.pour_row hook deletion hinner { container := d.tree.size }
        { table, body := some body, alignments } (d.grow body { tag := .tr })
      obtain ⟨column'', hpour⟩ := ihrest hrest column' _
      exact ⟨column'', (congrArg (rest.pour hook deletion f "") hcells).trans hpour⟩
    | _ => simp [fits, Place.next?] at hfits

/-- What comes after the head makes the body, at the latest with the end of the table. -/
theorem Nest.pour_body (hfits : n.fits false .rows = true) (f : Frame) (table : NodeId)
    (alignments : List Alignment) (column : Nat) (d : Draft σ) :
    (n.pour hook deletion f "" (d.withTable { table, alignments, column })).closeTable hook =
      (({ d with table := none } : Draft σ).put (.element { tag := .tbody }
        (filledRows alignments.length (n.content deletion (.rows alignments))) .nil) table).report
          hook table := by
  cases n with
  | nil =>
    have hsize := d.size_grow table { tag := .tbody }
    show (((({ d with table := none } : Draft σ).grow table { tag := .tbody }).grow d.tree.size
      { tag := .tr }).put (cells alignments.length) (d.tree.size + 1)).report hook table = _
    rw [← hsize]
    rfl
  | leaf l rest => simp [fits, Place.isFlow] at hfits
  | container c inner rest => simp [fits, Place.isFlow] at hfits
  | part p inner rest =>
    cases p with
    | row =>
      simp only [fits, Place.next?, Bool.and_eq_true] at hfits
      obtain ⟨hinner, hrest⟩ := hfits
      -- The first row makes the body, and the others are added to it.
      obtain ⟨column', hcells⟩ := Nest.pour_row hook deletion hinner
        { container := (d.grow table { tag := .tbody }).tree.size }
        { table, body := some d.tree.size, alignments }
        ((d.grow table { tag := .tbody }).grow d.tree.size { tag := .tr })
      obtain ⟨column'', hpour⟩ :=
        Nest.pour_rows hook deletion hrest f table d.tree.size alignments column' _
      have hrows := (congrArg (rest.pour hook deletion f "") hcells).trans hpour
      exact congrArg (Draft.closeTable hook) hrows
    | _ => simp [fits, Place.next?] at hfits

theorem Nest.pour_table (hfits : n.fits false .table = true) (container : NodeId)
    (alignments : List Alignment) (d : Draft σ) :
    (Part.table alignments).filled hook container d (fun g d => n.pour hook deletion g "" d) =
      (({ d with table := none } : Draft σ).put
        (.element { tag := .table } (n.content deletion (.table alignments)) .nil)
          container).report hook
          d.tree.size := by
  cases n with
  | nil => simp [fits, Place.mayEnd] at hfits
  | leaf l rest => simp [fits, Place.isFlow] at hfits
  | container c inner rest => simp [fits, Place.isFlow] at hfits
  | part p inner rest =>
    cases p with
    | head =>
      simp only [fits, Place.next?, Bool.and_eq_true] at hfits
      obtain ⟨hinner, hbody⟩ := hfits
      have hsize := (d.grow container { tag := .table }).size_grow d.tree.size { tag := .thead }
      -- The head comes first, on a row of its own, and with it the column count starts.
      obtain ⟨column, hcells⟩ := Nest.pour_row hook deletion hinner
        { container := (d.grow container { tag := .table }).tree.size + 1 }
        { table := d.tree.size, alignments, inHead := true }
        (((d.grow container { tag := .table }).grow d.tree.size { tag := .thead }).grow
          (d.grow container { tag := .table }).tree.size { tag := .tr })
      have hhead := congrArg (Draft.mapTable fun o => { o with inHead := false }) hcells
      have hrest :=
        congrArg
          (fun d' => (rest.pour hook deletion { container := d.tree.size } "" d').closeTable hook)
        hhead
      have hfilled :=
        Nest.pour_body hook deletion hbody { container := d.tree.size } d.tree.size
          alignments column
      refine (hrest.trans (hfilled _)).trans ?_
      rw [← hsize]
      rfl
    | _ => simp [fits, Place.next?] at hfits

end AccessibleMarkdown.Markdown
