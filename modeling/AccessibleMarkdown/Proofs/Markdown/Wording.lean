import AccessibleMarkdown.Proofs.Markdown.Contents
import AccessibleMarkdown.Proofs.Markdown.Deletion
import AccessibleMarkdown.Proofs.Tree.Texts

/-!
# No text is lost

What the events of a document say, apart from images and from blocks of HTML and of metadata, is
what is read off the tree that is built from them: the same text, once, in the same order. Deletion
markup is taken out of it, and is there again if deleted text is read with its hyphens.
-/

namespace AccessibleMarkdown.Markdown

/-! ## 1. What events say -/

/-- Nothing that is inside such a span is text of the document. -/
def SpanKind.hides : SpanKind → Bool
  | image | htmlBlock | metadataBlock => true
  | _ => false

def Event.said : Event → String
  | text s | code s | footnoteReference s => s
  | softBreak => "\n"
  | _ => ""

/-- What events say, where `depth` spans are open that hide it. -/
def wording : Nat → List Event → String
  | _, [] => ""
  | depth, .start span :: rest => wording (if span.kind.hides then depth + 1 else depth) rest
  | depth, .stop kind :: rest => wording (if kind.hides then depth - 1 else depth) rest
  | depth, event :: rest => (if depth = 0 then event.said else "") ++ wording depth rest

def Nest.said : Nest → String
  | nil => ""
  | leaf l rest => l.event.said ++ rest.said
  | container c inner rest => (if c.span.kind.hides then "" else inner.said) ++ rest.said
  | part _ inner rest => inner.said ++ rest.said

theorem wording_leaf (depth : Nat) (l : Leaf) (rest : List Event) :
    wording depth (l.event :: rest) = (if depth = 0 then l.event.said else "") ++
      wording depth rest := by
  cases l <;> rfl

theorem hides_part (p : Part) : p.span.kind.hides = false := by
  cases p <;> rfl

/-- A span says what is inside it, or nothing if it hides that. -/
theorem wording_span (span : Span) {inner : List Event} {said : String}
    (hinner : ∀ depth rest,
      wording depth (inner ++ rest) = (if depth = 0 then said else "") ++ wording depth rest)
    (depth : Nat) (rest : List Event) :
    wording depth (.start span :: (inner ++ .stop span.kind :: rest)) =
      (if depth = 0 then (if span.kind.hides then "" else said) else "") ++ wording depth rest := by
  rw [wording, hinner, wording]
  cases span.kind.hides with
  | true => simp
  | false => rfl

theorem ite_append_ite (depth : Nat) (a b after : String) :
    (if depth = 0 then a else "") ++ ((if depth = 0 then b else "") ++ after) =
      (if depth = 0 then a ++ b else "") ++ after := by
  split
  · exact String.append_assoc.symm
  · exact String.empty_append

theorem wording_events (n : Nest) (depth : Nat) (rest : List Event) :
    wording depth (n.events ++ rest) = (if depth = 0 then n.said else "") ++
      wording depth rest := by
  -- For every depth: inside a span that hides there is one more.
  induction n generalizing depth rest with
  | nil => rw [Nest.said, ite_self, String.empty_append, Nest.events, List.nil_append]
  | leaf l after ih =>
    rw [Nest.events, List.cons_append, wording_leaf, ih, ite_append_ite, Nest.said]
  | container c inner after ihinner ihafter =>
    rw [Nest.events, List.cons_append, List.append_assoc, List.cons_append,
      wording_span _ ihinner, ihafter, ite_append_ite, Nest.said]
  | part p inner after ihinner ihafter =>
    rw [Nest.events, List.cons_append, List.append_assoc, List.cons_append,
      wording_span _ ihinner, ihafter, ite_append_ite, Nest.said, hides_part,
      if_neg Bool.false_ne_true]

/-! ## 2. Legible documents -/

/-- Leaves that say nothing where character data is dropped. -/
def Leaf.isMute : Leaf → Bool
  | text _ | softBreak | html _ => true
  | _ => false

/-- Nothing but such leaves. -/
def Nest.isMute : Nest → Bool
  | nil => true
  | leaf l rest => l.isMute && rest.isMute
  | container _ _ _ | part _ _ _ => false

def Container.isSilent : Container → Bool
  | htmlBlock | metadataBlock => true
  | _ => false

/-- Blocks of HTML and of metadata hold no elements, and nothing is struck through. -/
def Nest.isLegible : Nest → Bool
  | nil => true
  | leaf _ rest => rest.isLegible
  | container c inner rest =>
    c != .strikethrough && (!c.isSilent || inner.isMute) && inner.isLegible && rest.isLegible
  | part _ inner rest => inner.isLegible && rest.isLegible

/-- The events are properly nested, their tables are in order, and all of their text can be read
again. -/
def Legible (events : List Event) : Prop :=
  ∃ n : Nest, n.events = events ∧ n.fits false (.flow false) = true ∧ n.isLegible = true

/-! ## 3. Reading content -/

namespace Content

variable {marks : Bool} {e : Element} {inner rest : Content}

/-- The reading of what content puts into a node. -/
def reading (marks : Bool) (c : Content) : String := c.lead.getD "" ++ c.grove.reading marks

theorem reading_nil : nil.reading marks = "" := rfl

theorem reading_text (run : String) :
    (text run rest).reading marks = run ++ rest.reading marks := by
  rw [reading, lead, grove, Option.getD_some, String.append_assoc, reading]

theorem getD_joinText (old more : Option String) :
    (joinText old more).getD "" = old.getD "" ++ more.getD "" := by
  cases more with
  | none => exact (String.append_empty).symm
  | some more => rfl

/-- An element that is not deleted is read from its text to its tail. -/
theorem reading_element (hdel : e.tag ≠ .del) :
    (element e inner rest).reading marks =
      e.text.getD "" ++ inner.reading marks ++ e.tail.getD "" ++ rest.reading marks := by
  have hword : ∀ text tail, ({ e with text, tail } : Element).wording marks = text.getD "" := by
    intro text tail
    exact if_neg fun h => hdel h.2
  simp only [reading, lead, grove, Grove.reading, hword, getD_joinText, Option.getD_none,
    String.empty_append, String.append_assoc]

theorem reading_plain (he : e.Plain) :
    (element e inner rest).reading marks = inner.reading marks ++ rest.reading marks := by
  rw [reading_element he.tag, he.text, he.tail, Option.getD_none, String.empty_append,
    String.append_empty]

theorem reading_deleted (run : String) :
    (element (deletedText run) nil rest).reading true =
      "--" ++ run ++ "--" ++ rest.reading true := by
  have hword :
      ∀ tail, ({ deletedText run with tail } : Element).wording true = "--" ++ run ++ "--" := by
    intro tail
    exact if_pos ⟨rfl, rfl⟩
  have hgrove : (element (deletedText run) nil rest).grove =
      .node { deletedText run with tail := joinText none rest.lead } .nil rest.grove := rfl
  rw [reading, hgrove, Grove.reading, hword, Grove.reading, getD_joinText, reading,
    String.append_empty]
  simp only [lead, Option.getD_none, String.empty_append, String.append_assoc]

theorem reading_append (c c' : Content) :
    (c ++ c').reading marks = c.reading marks ++ c'.reading marks := by
  show (c.append c').reading marks = _
  induction c with
  | nil => exact String.empty_append.symm
  | text run rest ih => rw [append, reading_text, reading_text, ih, String.append_assoc]
  | element e inner rest _ ih =>
    simp only [reading, append, lead, grove, Grove.reading, getD_joinText, Option.getD_none,
      String.empty_append, String.append_assoc] at ih ⊢
    rw [ih]
    rfl

theorem reading_ofSegments (segments : List Segment) :
    (ofSegments segments).reading true = sources segments := by
  induction segments with
  | nil => rfl
  | cons segment rest ih =>
    rw [sources_cons, ← ih]
    cases segment with
    | text run => exact reading_text run
    | deleted run => exact reading_deleted run

theorem reading_cells (n : Nat) : (cells n).reading marks = "" := by
  induction n with
  | zero => rfl
  | succ n ih =>
    rw [cells, reading_plain (Element.plain .td (by decide)), ih]
    rfl

theorem reading_filledRows (columns : Nat) (c : Content) :
    (filledRows columns c).reading marks = c.reading marks := by
  unfold filledRows
  split
  · rw [reading_plain (Element.plain .tr (by decide)), reading_cells]
    rfl
  · rfl

end Content

/-- Character data is not lost: what is cut out of it is put back when it is read. -/
structure Mode.Faithful (deletion : Bool) (m : Mode) : Prop where
  cuts : m.cuts = true → deletion = true
  drops : m.drops = false

namespace Mode.Faithful

theorem cut (deletion : Bool) : Faithful deletion { cuts := deletion } := ⟨id, rfl⟩

theorem raw (deletion : Bool) : Faithful deletion { cuts := false } := ⟨Bool.noConfusion, rfl⟩

theorem reading_run {deletion : Bool} {m : Mode} (hm : m.Faithful deletion) (run : String) :
    (m.run run).reading deletion = run := by
  unfold Mode.run
  split
  · rename_i hempty
    exact (String.isEmpty_iff.mp hempty).symm
  · split
    · rename_i hcuts
      rw [hm.cuts hcuts, Content.reading_ofSegments, Deletion.sources_split]
    · rw [Content.reading_text, Content.reading_nil, String.append_empty]

end Mode.Faithful

/-! ## 4. Reading nests -/

theorem Leaf.said_data {l : Leaf} {s : String} (h : l.sense = .data s) : l.event.said = s := by
  cases l <;> cases h <;> rfl

theorem Leaf.said_element {l : Leaf} {e : Element} (h : l.sense = .element e) :
    l.event.said = e.text.getD "" ∧ e.tail = none ∧ e.tag ≠ .del := by
  cases l <;> cases h <;> exact ⟨rfl, rfl, nofun⟩

/-- Where character data is dropped, leaves without elements leave nothing. -/
theorem Nest.content_mute {deletion : Bool} {n : Nest} (hmute : n.isMute = true) {m : Mode}
    (hdrops : m.drops = true) (run : String) : n.content deletion (.flow m run) = m.run run := by
  induction n with
  | nil => rfl
  | leaf l rest ih =>
    rw [isMute, Bool.and_eq_true] at hmute
    cases hsense : l.sense with
    | data s =>
      rw [content, hsense]
      simp only [hdrops, if_true]
      exact ih hmute.2
    | element e =>
      have hl := hmute.1
      cases l <;> cases hsense <;> cases hl
  | container | part => cases hmute

/-- Only what strikes text through is read otherwise than its inside. -/
theorem Container.plain_elements {c : Container} (hc : c ≠ .strikethrough) {e : Element}
    (he : e ∈ c.shell.elements) : e.Plain := by
  have hshell : Tag.del ∉ shellTags := by decide
  obtain ⟨tag, attrs, rfl, htag | ⟨-, hstrike⟩⟩ := c.exists_tag he
  · exact Element.plain tag fun heq => hshell (heq ▸ htag)
  · exact absurd hstrike hc

theorem Container.shell_of_hides {c : Container} (h : c.span.kind.hides = true) :
    (∃ attrs, c.shell = .image attrs) ∨ c.shell = .silent ∧ c.isSilent = true := by
  cases c with
  | image dest title => exact .inl ⟨_, rfl⟩
  | htmlBlock | metadataBlock => exact .inr ⟨rfl, rfl⟩
  | _ => cases h

theorem Container.shell_of_not_hides {c : Container} (h : c.span.kind.hides = false) :
    (∀ attrs, c.shell ≠ .image attrs) ∧ c.shell ≠ .silent := by
  cases c with
  | image | htmlBlock | metadataBlock => cases h
  | list start => cases start <;> exact ⟨nofun, nofun⟩
  | _ => exact ⟨nofun, nofun⟩

/-- A container reads as its inside, or not at all. -/
theorem Container.reading_shell {deletion : Bool} {c : Container} {m : Mode} {said : String}
    (hc : c ≠ .strikethrough) (inside : Mode → Content) (hm : m.Faithful deletion)
    (hsilent : c.isSilent = true → inside { cuts := deletion, drops := true } = .nil)
    (hinside : ∀ m : Mode, m.Faithful deletion → (inside m).reading deletion = said)
    (alt : String) :
    (c.shell.content deletion m inside alt).reading deletion =
      if c.span.kind.hides then "" else said := by
  have hplain := fun e => Container.plain_elements hc (e := e)
  -- What hides is an image, whose text is an attribute, or a container that drops its text.
  cases hhides : c.span.kind.hides with
  | true =>
    obtain ⟨attrs, hshell⟩ | ⟨hshell, hmute⟩ := Container.shell_of_hides hhides
    · rw [hshell]
      exact Content.reading_plain (Element.plain .img (by decide))
    · rw [hshell, Container.Shell.content, hsilent hmute]
      rfl
  | false =>
    obtain ⟨himage, hsilent⟩ := Container.shell_of_not_hides hhides
    cases hshell : c.shell with
    | element e =>
      rw [hshell] at hplain
      rw [Container.Shell.content, Content.reading_plain (hplain e (List.mem_singleton_self e)),
        hinside _ (.cut _)]
      exact String.append_empty
    | verbatim outer e =>
      rw [hshell] at hplain
      have he := hplain e (List.mem_cons_of_mem _ (List.mem_singleton_self e))
      rw [Container.Shell.content, Content.reading_plain (hplain outer List.mem_cons_self),
        Content.reading_plain he, hinside _ (.raw _)]
      exact String.append_empty.trans String.append_empty
    | image attrs => exact absurd hshell (himage attrs)
    | silent => exact absurd hshell hsilent
    | clear => exact hinside m hm

/-- The slots in which a nest that stands at a place may be read. -/
inductive Slot.Suits (deletion : Bool) : Slot → Place → Prop
  | flow {m : Mode} (hm : m.Faithful deletion) (run : String) (deep : Bool) :
    Suits deletion (.flow m run) (.flow deep)
  | table (alignments : List Alignment) : Suits deletion (.table alignments) .table
  | rows (alignments : List Alignment) : Suits deletion (.rows alignments) .rows
  | row (head : Bool) (alignments : List Alignment) (column : Nat) :
      Suits deletion (.row head alignments column) .row

/-- The character data that a nest follows. -/
def Slot.run : Slot → String
  | flow _ run => run
  | _ => ""

theorem plain_cellElement (head : Bool) (align : Option Alignment) :
    (cellElement head align).Plain := by
  cases head <;> exact ⟨nofun, rfl, rfl⟩

namespace Nest

variable {deletion head : Bool} {inner rest : Nest} {m : Mode} {alignments : List Alignment}
  {column : Nat}

/-- What is read of the content of the nest in a slot is what the nest says. -/
def Reads (n : Nest) (deletion : Bool) (slot : Slot) : Prop :=
  (n.content deletion slot).reading deletion = slot.run ++ n.said

theorem reads_nil {place : Place} {slot : Slot} (hslot : slot.Suits deletion place) :
    nil.Reads deletion slot := by
  rw [Reads, said, String.append_empty]
  cases hslot with
  | flow hm run => exact hm.reading_run run
  | table | rows | row => rfl

theorem reads_leaf (l : Leaf) (hm : m.Faithful deletion)
    (hrest : ∀ run, rest.Reads deletion (.flow m run)) (run : String) :
    (leaf l rest).Reads deletion (.flow m run) := by
  simp only [Reads] at hrest
  rw [Reads, content, said, Slot.run]
  cases hsense : l.sense with
  | data s =>
    simp only [hm.drops, Bool.false_eq_true, if_false]
    rw [hrest, Slot.run, Leaf.said_data hsense, String.append_assoc]
  | element e =>
    obtain ⟨hsaid, htail, hdel⟩ := Leaf.said_element hsense
    simp only [Content.reading_append]
    rw [hm.reading_run, Content.reading_element hdel, hrest, hsaid, htail]
    simp [Content.reading_nil, Slot.run, String.append_assoc]

theorem reads_container {c : Container} (hc : c ≠ .strikethrough)
    (hmute : c.isSilent = true → inner.isMute = true) (hm : m.Faithful deletion)
    (hinner : ∀ m : Mode, m.Faithful deletion → inner.Reads deletion (.flow m ""))
    (hrest : rest.Reads deletion (.flow m "")) (run : String) :
    (container c inner rest).Reads deletion (.flow m run) := by
  have hsilent (h : c.isSilent = true) :
      inner.content deletion (.flow { cuts := deletion, drops := true } "") = .nil :=
    content_mute (hmute h) rfl ""
  have hinside (m : Mode) (hm : m.Faithful deletion) :
      (inner.content deletion (.flow m "")).reading deletion = inner.said := by
    rw [hinner m hm, Slot.run, String.empty_append]
  rw [Reads, content, Content.reading_append, Content.reading_append, hm.reading_run,
    Container.reading_shell hc (fun m => inner.content deletion (.flow m "")) hm hsilent hinside,
    hrest, said, Slot.run, Slot.run, String.empty_append, String.append_assoc]

/-! A part of a table is an element around its inside; those that are added to it say nothing. -/

theorem reads_table (hm : m.Faithful deletion) (hinner : inner.Reads deletion (.table alignments))
    (hrest : rest.Reads deletion (.flow m "")) (run : String) :
    (part (.table alignments) inner rest).Reads deletion (.flow m run) := by
  rw [Reads, content, Content.reading_append, Content.reading_append, hm.reading_run,
    Content.reading_plain (Element.plain .table (by decide)), hinner, hrest]
  simp [Content.reading_nil, Slot.run, said, String.append_assoc]

theorem reads_head (hinner : inner.Reads deletion (.row true alignments 0))
    (hrest : rest.Reads deletion (.rows alignments)) :
    (part .head inner rest).Reads deletion (.table alignments) := by
  rw [Reads, content, Content.reading_plain (Element.plain .thead (by decide)),
    Content.reading_plain (Element.plain .tr (by decide)),
    Content.reading_plain (Element.plain .tbody (by decide)), hinner, Content.reading_filledRows,
    hrest]
  simp [Content.reading_nil, Slot.run, said]

theorem reads_row (hinner : inner.Reads deletion (.row false alignments 0))
    (hrest : rest.Reads deletion (.rows alignments)) :
    (part .row inner rest).Reads deletion (.rows alignments) := by
  rw [Reads, content, Content.reading_plain (Element.plain .tr (by decide)), hinner, hrest]
  simp [Slot.run, said]

theorem reads_cell (hinner : inner.Reads deletion (.flow { cuts := deletion } ""))
    (hrest : rest.Reads deletion (.row head alignments (column + 1))) :
    (part .cell inner rest).Reads deletion (.row head alignments column) := by
  rw [Reads, content, Content.reading_plain (plain_cellElement head _), hinner, hrest]
  simp [Slot.run, said]

/-- **Reading.** A nest that stands where the grammar has it reads as what it says. -/
theorem reads_of_fits {n : Nest} {place : Place} {slot : Slot} (hfits : n.fits false place = true)
    (hlegible : n.isLegible = true) (hslot : slot.Suits deletion place) :
    n.Reads deletion slot := by
  -- Flows and parts of tables in one: each of them may be inside the other.
  induction n generalizing place slot with
  | nil => exact reads_nil hslot
  | leaf l rest ih =>
    simp only [fits, Bool.and_eq_true] at hfits
    rw [isLegible] at hlegible
    cases hslot with
    | table | rows | row => cases hfits.1
    | flow hm run deep =>
      exact reads_leaf l hm (fun run => ih hfits.2 hlegible (.flow hm run deep)) run
  | container c inner rest ihinner ihrest =>
    simp only [fits, Bool.and_eq_true] at hfits
    obtain ⟨⟨hflow, hinner⟩, hrest⟩ := hfits
    simp only [isLegible, Bool.and_eq_true, bne_iff_ne, Bool.or_eq_true,
      Bool.not_eq_true'] at hlegible
    obtain ⟨⟨⟨hc, hmute⟩, hlegible⟩, hlegible'⟩ := hlegible
    cases hslot with
    | table | rows | row => cases hflow
    | flow hm run deep =>
      have hmute (h : c.isSilent = true) : inner.isMute = true :=
        hmute.resolve_left fun hnot => Bool.false_ne_true (hnot.symm.trans h)
      exact reads_container hc hmute hm
        (fun m hm => ihinner hinner hlegible (.flow hm "" deep))
        (ihrest hrest hlegible' (.flow hm "" deep)) run
  | part p inner rest ihinner ihrest =>
    simp only [isLegible, Bool.and_eq_true] at hlegible
    obtain ⟨hlegible, hlegible'⟩ := hlegible
    rw [fits] at hfits
    split at hfits
    · rename_i inside after hnext
      rw [Bool.and_eq_true] at hfits
      have hinside {slot : Slot} (hslot : slot.Suits deletion inside) : inner.Reads deletion slot :=
        ihinner hfits.1 hlegible hslot
      have hafter {slot : Slot} (hslot : slot.Suits deletion after) : rest.Reads deletion slot :=
        ihrest hfits.2 hlegible' hslot
      cases Place.next_of_next? hnext with
      | stray hstray => cases hstray
      | table alignments =>
        cases hslot with
        | flow hm run =>
          exact reads_table hm (hinside (.table alignments)) (hafter (.flow hm "" false)) run
      | head =>
        cases hslot with
        | table alignments =>
          exact reads_head (hinside (.row true alignments 0)) (hafter (.rows alignments))
      | row =>
        cases hslot with
        | rows alignments =>
          exact reads_row (hinside (.row false alignments 0)) (hafter (.rows alignments))
      | cell =>
        cases hslot with
        | row head alignments column =>
          exact reads_cell (hinside (.flow (.cut deletion) "" true))
            (hafter (.row head alignments (column + 1)))
    · cases hfits

end Nest

/-! ## 5. Reading trees -/

open Builder (appendRun markUntitled)

variable {σ : Type} {hook : TableHook σ}

/-- The hook may write attributes, and nothing else. -/
def TableHook.KeepsTexts (hook : TableHook σ) : Prop :=
  ∀ parent s, (hook parent s).1.bare = s.1.bare

theorem TableHook.KeepsTexts.sameShape (h : hook.KeepsTexts) (parent : NodeId) (t : Tree)
    (gathered : σ) : t.SameShape (hook parent (t, gathered)).1 := by
  have hbare := t.sameShape_bare
  rw [← h parent (t, gathered)] at hbare
  exact hbare.trans (Tree.sameShape_bare _).symm

theorem TableHook.KeepsTexts.shapely (h : hook.KeepsTexts) : hook.Shapely :=
  fun parent t gathered _ => h.sameShape parent t gathered

theorem bare_appendRun (t : Tree) (p : NodeId) (run : String) :
    (appendRun t p run).bare = appendRun t.bare p run := by
  have hlast : t.bare.lastChild? p = t.lastChild? p := congrFun t.sameShape_bare.links.last p
  unfold appendRun
  rw [hlast]
  cases t.lastChild? p with
  | none => exact t.bare_modify p fun _ => rfl
  | some last => exact t.bare_modify last fun _ => rfl

theorem Content.bare_addTo (c : Content) {t u : Tree} (h : t.bare = u.bare) (p : NodeId) :
    (c.addTo t p).bare = (c.addTo u p).bare := by
  induction c generalizing t u p with
  | nil => exact h
  | text run rest ih =>
    have hrun : (appendRun t p run).bare = (appendRun u p run).bare := by
      rw [bare_appendRun, bare_appendRun, h]
    exact ih hrun p
  | element e inner rest ihinner ihrest =>
    have hgrow : (t.grow p e).bare = (u.grow p e).bare := by
      rw [Tree.bare_grow, Tree.bare_grow, h]
    have hsize : t.size = u.size := by
      rw [← t.sameShape_bare.links.size, h, u.sameShape_bare.links.size]
    rw [addTo_element, addTo_element, hsize]
    exact ihrest (ihinner hgrow u.size) p

theorem Draft.likeness_bare : Draft.Likeness (σ := σ) fun d d' => d.tree.bare = d'.tree.bare where
  refl _ := rfl
  trans := Eq.trans
  put h c p := c.bare_addTo h p

/-- Up to attributes the tree of a draft is its content. -/
theorem Nest.bare_pour (hhook : hook.KeepsTexts) {n : Nest}
    (hfits : n.fits false (.flow false) = true) (deletion : Bool) (f : Frame) (run : String)
    (d : Draft σ) :
    (n.pour hook deletion f run d).tree.bare =
      (d.put (n.content deletion (.flow (f.mode deletion) run)) f.container).tree.bare := by
  refine Nest.pour_like Draft.likeness_bare ?_ hfits f run d
  intro _ alignments inner container d hinner
  rw [Nest.pour_table hook deletion hinner]
  exact hhook _ _

theorem Nest.holds_draft (hhook : hook.KeepsTexts) {n : Nest}
    (hfits : n.fits false (.flow false) = true) (hlegible : n.isLegible = true) (deletion : Bool)
    (gathered : σ) :
    ∃ root inner,
      (n.draft hook deletion gathered).tree.Holds [Tree.rootId] (.node root inner .nil) ∧
      (Grove.node root inner .nil).reading deletion = n.said := by
  have hbare :=
    Nest.bare_pour hhook hfits deletion { container := Tree.rootId } "" { tree := .empty, gathered }
  rw [Frame.mode_container] at hbare
  have hread := Nest.reads_of_fits hfits hlegible (.flow (.cut deletion) "" false)
  rw [Nest.Reads] at hread
  generalize n.content deletion (.flow { cuts := deletion } "") = c at hbare hread
  obtain ⟨-, hholds, -⟩ := holds_addTo_empty c
  have hroot : (Grove.node { tag := .div, text := c.lead } c.grove .nil).reading deletion =
      c.reading deletion := by
    have hword : ({ tag := .div, text := c.lead } : Element).wording deletion = c.lead.getD "" :=
      if_neg fun h => nomatch h.2
    rw [Grove.reading, hword, Content.reading]
    exact String.append_empty.trans String.append_empty
  -- The tree holds the same grove, with the attributes that the hook has written.
  obtain ⟨g, hg, hsame⟩ := Tree.exists_holds_of_bare (hbare ▸ hholds.bare)
  cases g with
  | nil => cases hsame
  | node root inner rest =>
    obtain ⟨-, -, hrest⟩ := Grove.node.inj hsame
    cases rest with
    | node => cases hrest
    | nil =>
      refine ⟨root, inner, hg, ?_⟩
      rw [← Grove.reading_bare, hsame, Grove.reading_bare, hroot, hread]
      exact String.empty_append

/-- **No text is lost.** What is read off the tree that is built, before its root is marked as
having no title, is what the events say: all of it, once, and in their order. -/
theorem buildTree_reading (hhook : hook.KeepsTexts) (deletion : Bool) (gathered : σ)
    {events : List Event} (hevents : Legible events) :
    ∃ b u, events.foldlM (Builder.push hook) (.start deletion gathered) = .ok b ∧ b.flush = .ok u ∧
      buildTree deletion hook gathered events = .ok (markUntitled u.tree, u.gathered) ∧
      ∃ root inner, u.tree.Holds [Tree.rootId] (.node root inner .nil) ∧
        (Grove.node root inner .nil).reading deletion = wording 0 events ∧
        (markUntitled u.tree).Holds [Tree.rootId]
          (.node { root with text := titleMark inner root.text } inner .nil) := by
  obtain ⟨n, rfl, hfits, hlegible⟩ := hevents
  obtain ⟨b, hfold, -, hflush⟩ :=
    Builder.pours_events hhook.shapely n (Builder.sound_start deletion gathered) rfl
  obtain ⟨root, inner, hholds, hread⟩ := Nest.holds_draft hhook hfits hlegible deletion gathered
  have hsaid := wording_events n 0 []
  rw [List.append_nil, if_pos rfl, wording, String.append_empty] at hsaid
  have hwhole :=
    (n.pour_advances hhook.shapely deletion "" (Builder.sound_start deletion gathered).draft
    (f := { container := Tree.rootId })
    (Builder.sound_start deletion gathered).container).sound.tree
  obtain ⟨kids, hlinked⟩ := hwhole.linked
  refine ⟨b, _, hfold, hflush, ?_, root, inner, hholds, hread.trans hsaid.symm,
    holds_markUntitled hlinked hholds⟩
  exact buildTree_nest hhook.shapely deletion gathered n

/-- Deleted text in a paragraph and in a cell, beside an image and a block of HTML that both hold
text, with a hook that marks the parent of a table and counts. -/
theorem buildTree_reading_deleted :
    let cell (text : String) : Nest := .part .cell (.leaf (.text text) .nil) .nil
    let table : Nest := .part .head (cell "a") (.part .row (cell "b --c--") .nil)
    let inner : Nest := .leaf (.text "x --y-- z") (.leaf .softBreak (.container (.image "i.png" "")
      (.leaf (.text "no") .nil) (.leaf (.code "w") (.leaf (.footnoteReference "1") .nil))))
    let n : Nest :=
      .container .paragraph inner
        (.container .htmlBlock (.leaf (.html "<hr>") (.leaf (.text "no") .nil))
      (.part (.table [.left]) table .nil))
    let hook : TableHook Nat :=
      fun parent (t, count) => (t.modify parent (·.set "role" "group"), count + 1)
    hook.KeepsTexts ∧ Legible n.events ∧ wording 0 n.events = "x --y-- z\nw1ab --c--" ∧ ∀ deletion,
      ∃ b u, n.events.foldlM (Builder.push hook) (.start deletion 0) = .ok b ∧ b.flush = .ok u ∧
        buildTree deletion hook 0 n.events = .ok (markUntitled u.tree, u.gathered) ∧
        ∃ root inner, u.tree.Holds [Tree.rootId] (.node root inner .nil) ∧
          (Grove.node root inner .nil).reading deletion = wording 0 n.events ∧
          (markUntitled u.tree).Holds [Tree.rootId]
            (.node { root with text := titleMark inner root.text } inner .nil) := by
  intro cell table inner n hook
  have hhook : hook.KeepsTexts := fun parent s => s.1.bare_modify_attrs parent fun _ => rfl
  have hevents : Legible n.events := ⟨n, rfl, by decide, by decide⟩
  exact ⟨hhook, hevents, by decide, fun deletion => buildTree_reading hhook deletion 0 hevents⟩

end AccessibleMarkdown.Markdown
