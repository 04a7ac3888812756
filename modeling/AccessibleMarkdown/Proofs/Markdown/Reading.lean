import AccessibleMarkdown.Markdown.Document
import AccessibleMarkdown.Proofs.Markdown.Drawing

/-!
# Documents that are read

Whatever the text, the events of a document that has been read are well formed: they come from a
structure of blocks and inlines, in which tables are made of heads, rows and cells, and cells hold
inlines only. All text stands in blocks.
-/

namespace AccessibleMarkdown.Markdown

/-! ## 1. Joining nests -/

namespace Nest

def append : Nest → Nest → Nest
  | nil, m => m
  | leaf l rest, m => leaf l (rest.append m)
  | container c inner rest, m => container c inner (rest.append m)
  | part p inner rest, m => part p inner (rest.append m)

theorem events_append (n m : Nest) : (n.append m).events = n.events ++ m.events := by
  induction n with
  | nil => rfl
  | leaf l rest ih => simp [append, events, ih]
  | container c inner rest _ ih => simp [append, events, ih]
  | part p inner rest _ ih => simp [append, events, ih]

/-- After what stands in a flow there is the same flow. -/
theorem fits_append {stray deep : Bool} {n m : Nest} (hn : n.fits stray (.flow deep) = true)
    (hm : m.fits stray (.flow deep) = true) : (n.append m).fits stray (.flow deep) = true := by
  induction n with
  | nil => exact hm
  | leaf l rest ih =>
    simp only [fits, Bool.and_eq_true] at hn
    simp [append, fits, hn.1, ih hn.2]
  | container c inner rest _ ih =>
    simp only [fits, Bool.and_eq_true] at hn
    simp [append, fits, hn.1, ih hn.2]
  | part p inner rest _ ih =>
    unfold fits at hn
    split at hn
    · rename_i inside after hnext
      rw [Bool.and_eq_true] at hn
      -- Only tables and stray cells stand in a flow, and the flow goes on after them.
      have hafter : after = .flow deep := by
        cases Place.next_of_next? hnext <;> rfl
      subst hafter
      simp [append, fits, hnext, hn.1, ih hn.2]
    · cases hn

theorem sheltered_append {n m : Nest} (hn : n.sheltered = true) (hm : m.sheltered = true) :
    (n.append m).sheltered = true := by
  induction n with
  | nil => exact hm
  | leaf l rest ih =>
    simp only [sheltered, Bool.and_eq_true] at hn
    simp [append, sheltered, hn.1, ih hn.2]
  | container c inner rest _ ih =>
    simp only [sheltered, Bool.and_eq_true] at hn
    simp [append, sheltered, hn.1, ih hn.2]
  | part p inner rest _ ih => exact ih hn

/-- Where stray cells may stand, there need be none. -/
theorem fits_stray {place : Place} {n : Nest} (h : n.fits false place = true) :
    n.fits true place = true := by
  induction n generalizing place with
  | nil => exact h
  | leaf l rest ih =>
    simp only [fits, Bool.and_eq_true] at h ⊢
    exact ⟨h.1, ih h.2⟩
  | container c inner rest ihinner ihrest =>
    simp only [fits, Bool.and_eq_true] at h ⊢
    exact ⟨⟨h.1.1, ihinner h.1.2⟩, ihrest h.2⟩
  | part p inner rest ihinner ihrest =>
    unfold fits at h
    split at h
    · rename_i inside after hnext
      have hnext' : place.next? true p = some (inside, after) := by
        cases Place.next_of_next? hnext with
        | stray hstray => cases hstray
        | table | head | row | cell => rfl
      rw [Bool.and_eq_true] at h
      simp [fits, hnext', ihinner h.1, ihrest h.2]
    · cases h

end Nest

/-! ## 2. Flows -/

/-- The events may stand in a flow; where it is mute, all their text is in blocks. -/
def Flows (deep mute : Bool) (events : List Event) : Prop :=
  ∃ n : Nest, n.events = events ∧ n.fits false (.flow deep) = true ∧
    (mute = true → n.sheltered = true)

namespace Flows

variable {deep mute : Bool} {events more : List Event}

theorem nil : Flows deep mute [] := ⟨.nil, rfl, rfl, fun _ => rfl⟩

theorem append (h : Flows deep mute events) (h' : Flows deep mute more) :
    Flows deep mute (events ++ more) := by
  obtain ⟨n, rfl, hn, hmute⟩ := h
  obtain ⟨m, rfl, hm, hmute'⟩ := h'
  exact ⟨n.append m, n.events_append m, Nest.fits_append hn hm,
    fun hmuted => Nest.sheltered_append (hmute hmuted) (hmute' hmuted)⟩

theorem leaf (l : Leaf) (h : mute = true → l.isText = false) : Flows deep mute [l.event] := by
  refine ⟨.leaf l .nil, rfl, rfl, fun hmute => ?_⟩
  simp [Nest.sheltered, h hmute]

theorem container (c : Container) (hc : c.isOpen = false) (h : Flows deep false events) :
    Flows deep mute (.start c.span :: events ++ [.stop c.span.kind]) := by
  obtain ⟨n, rfl, hn, -⟩ := h
  refine ⟨.container c n .nil, by simp [Nest.events], ?_, fun _ => ?_⟩
  · simp [Nest.fits, hn, Place.isFlow, Place.mayEnd]
  · simp [Nest.sheltered, hc]

end Flows

/-! ## 3. Inlines -/

mutual

theorem Inline.flows (deep : Bool) : (i : Inline) → Flows deep false i.events
  | .text text => .leaf (.text (String.ofList text)) nofun
  | .code text => .leaf (.code (String.ofList text)) nofun
  | .softBreak => .leaf .softBreak nofun
  | .hardBreak => .leaf .hardBreak nofun
  | .html => .nil
  | .emphasis content => .container .emphasis rfl (flows_inlineEvents deep content)
  | .strong content => .container .strong rfl (flows_inlineEvents deep content)
  | .link dest title content => .container (.link dest title) rfl (flows_inlineEvents deep content)
  | .image dest title content =>
    .container (.image dest title) rfl (flows_inlineEvents deep content)

theorem flows_inlineEvents (deep : Bool) :
    (content : List Inline) → Flows deep false (inlineEvents content)
  | [] => .nil
  | i :: rest => (Inline.flows deep i).append (flows_inlineEvents deep rest)

end

theorem flows_leafEvents (ds : Definitions) (text : List Char) :
    Flows false false (leafEvents ds text) :=
  flows_inlineEvents false _

/-! ## 4. Tables -/

/-- A head or a row is made of cells. -/
theorem exists_cells (ds : Definitions) (texts : List (List Char)) :
    ∃ n : Nest, n.events = texts.flatMap (cellEvents ds) ∧ n.fits false .row = true := by
  induction texts with
  | nil => exact ⟨.nil, rfl, rfl⟩
  | cons text texts ih =>
    obtain ⟨rest, hrest, hfits⟩ := ih
    obtain ⟨inner, hinner, hflow, -⟩ := flows_inlineEvents true
      (InlineReader.read { definitions := ds, inTable := true } text)
    refine ⟨.part .cell inner rest, ?_, ?_⟩
    · simp [Nest.events, hrest, hinner, cellEvents, Part.span, Span.kind]
    · simp [Nest.fits, Place.next?, hflow, hfits]

theorem exists_rows (ds : Definitions) (rows : List (List (List Char))) :
    ∃ n : Nest,
      n.events = rows.flatMap (fun row => .start .tableRow :: row.flatMap (cellEvents ds) ++
      [.stop .tableRow]) ∧ n.fits false .rows = true := by
  induction rows with
  | nil => exact ⟨.nil, rfl, rfl⟩
  | cons row rows ih =>
    obtain ⟨rest, hrest, hfits⟩ := ih
    obtain ⟨inner, hinner, hrow⟩ := exists_cells ds row
    refine ⟨.part .row inner rest, ?_, ?_⟩
    · simp [Nest.events, hrest, hinner, Part.span, Span.kind]
    · simp [Nest.fits, Place.next?, hrow, hfits]

theorem flows_table (ds : Definitions) (tight mute : Bool) (alignments : List Alignment)
    (head : List (List Char)) (rows : List (List (List Char))) :
    Flows false mute ((Block.table alignments head rows).events ds tight) := by
  obtain ⟨cells, hcells, hrow⟩ := exists_cells ds head
  obtain ⟨rest, hrest, hrows⟩ := exists_rows ds rows
  refine ⟨.part (.table alignments) (.part .head cells rest) .nil, ?_, ?_, fun _ => rfl⟩
  · simp [Nest.events, Block.events, hcells, hrest, Part.span, Span.kind]
  · simp [Nest.fits, Place.next?, Place.mayEnd, hrow, hrows]

/-! ## 5. Blocks -/

mutual

/-- Only the text of tight paragraphs stands outside of blocks. -/
theorem Block.flows (ds : Definitions) (tight : Bool) :
    (b : Block) → Flows false (!tight) (b.events ds tight)
  | .paragraph text => by
    cases tight with
    | true => exact flows_leafEvents ds text
    | false => exact .container .paragraph rfl (flows_leafEvents ds text)
  | .heading level text => .container (.heading level) rfl (flows_leafEvents ds text)
  | .quote blocks => by
    obtain ⟨n, hn, hfits, -⟩ := flows_blockEvents ds false blocks
    exact .container .blockQuote rfl ⟨n, hn, hfits, nofun⟩
  | .list start _ items => .container (.list start) rfl (flows_itemEvents ds _ items)
  | .code info text => .container (.codeBlock info) rfl (.leaf (.text (String.ofList text)) nofun)
  | .html => .container .htmlBlock rfl .nil
  | .rule => .leaf .rule fun _ => rfl
  | .table alignments head rows => flows_table ds tight _ alignments head rows

theorem flows_blockEvents (ds : Definitions) (tight : Bool) :
    (blocks : List Block) → Flows false (!tight) (blockEvents ds tight blocks)
  | [] => .nil
  | b :: rest => (b.flows ds tight).append (flows_blockEvents ds tight rest)

theorem flows_itemEvents (ds : Definitions) (tight : Bool) :
    (items : List (List Block)) → Flows false false (itemEvents ds tight items)
  | [] => .nil
  | item :: rest => by
    obtain ⟨n, hn, hfits, -⟩ := flows_blockEvents ds tight item
    exact (Flows.container .item rfl ⟨n, hn, hfits, nofun⟩).append (flows_itemEvents ds tight rest)

end

/-- **Reading.** The events of a text are well formed, and all text stands in blocks. -/
theorem wellFormed_eventsOf (o : Options) (text : String) :
    WellFormed (eventsOf o text) ∧ Sheltered (eventsOf o text) := by
  obtain ⟨n, hn, hfits, hmute⟩ := flows_blockEvents (Document.ofText o text.toList).definitions
    false (Document.ofText o text.toList).blocks
  exact ⟨⟨n, hn, hfits⟩, n, hn, Nest.fits_stray hfits, hmute rfl⟩

end AccessibleMarkdown.Markdown
