import AccessibleMarkdown.Proofs.Element.Attributes
import AccessibleMarkdown.Proofs.Markdown.Nesting

/-!
# What is drawn

A document is drawn with few attributes. None of them is one that an audit writes, except for the
alternative text of images, and every image has that. The root keeps its text if no character data
stands outside all blocks.
-/

namespace AccessibleMarkdown

open Markdown

variable {σ : Type}

/-! ## 1. Elements -/

/-- The names of all attributes that are drawn. -/
def drawnNames : List String :=
  ["alt", "checked", "class", "href", "id", "src", "start", "style", "title", "type"]

structure Element.Drawn (e : Element) : Prop where
  names : ∀ name ∉ drawnNames, e.get? name = none
  alt : e.tag = .img → ∃ alt, e.get? "alt" = some alt

namespace Element.Drawn

variable {e : Element}

theorem ofList {tag : Tag} {pairs : List (String × String)} {text : Option String}
    (htag : tag ≠ .img) (hpairs : ∀ name ∈ pairs.map Prod.fst, name ∈ drawnNames) :
    Element.Drawn { tag, attrs := .ofList pairs, text } where
  names name hname := Attributes.get?_ofList_of_notMem fun hmem => hname (hpairs name hmem)
  alt himg := absurd himg htag

theorem bare {tag : Tag} {text : Option String} (htag : tag ≠ .img) :
    Element.Drawn { tag, text } := by
  have hnone : ∀ name ∈ ([] : List (String × String)).map Prod.fst, name ∈ drawnNames := nofun
  exact ofList htag hnone

theorem withText (h : e.Drawn) (text tail : Option String) : Element.Drawn { e with text, tail } :=
  ⟨h.names, h.alt⟩

end Element.Drawn

theorem drawn_leaf {l : Leaf} {e : Element} (h : l.sense = .element e) : e.Drawn := by
  cases l with
  | hardBreak | code | rule | footnoteReference =>
    cases h
    apply Element.Drawn.bare
    exact nofun
  | taskMarker checked =>
    cases h
    apply Element.Drawn.ofList
    · exact nofun
    · cases checked <;> decide
  | _ => cases h

theorem drawn_shell (c : Container) {e : Element} (he : e ∈ c.shell.elements) : e.Drawn := by
  have htag : e.tag ≠ .img := by
    obtain ⟨hvoid, -⟩ := c.tag_elements he
    exact fun himg => hvoid (himg ▸ List.mem_cons_self)
  -- Each element has its few names, and all of them are in the list.
  cases c with
  | paragraph | heading | blockQuote | item | emphasis | strong | strikethrough =>
    obtain rfl := List.mem_singleton.mp he
    exact .bare htag
  | codeBlock info =>
    obtain rfl | he := List.mem_cons.mp he
    · exact .bare htag
    · obtain rfl := List.mem_singleton.mp he
      apply Element.Drawn.ofList htag
      cases info with
      | none => exact nofun
      | some language =>
        dsimp only
        split <;> simp [drawnNames]
  | list start =>
    cases start with
    | none =>
      obtain rfl := List.mem_singleton.mp he
      exact .bare htag
    | some start =>
      obtain rfl := List.mem_singleton.mp he
      apply Element.Drawn.ofList htag
      split <;> simp [drawnNames]
  | footnoteDefinition label =>
    obtain rfl := List.mem_singleton.mp he
    apply Element.Drawn.ofList htag
    simp [drawnNames]
  | link dest title =>
    obtain rfl := List.mem_singleton.mp he
    apply Element.Drawn.ofList htag
    split <;> simp [drawnNames]
  | image | htmlBlock | metadataBlock | definitionList | definitionTitle | definition =>
    exact absurd he List.not_mem_nil

theorem drawn_image {c : Container} {attrs : List (String × String)} (h : c.shell = .image attrs)
    (alt : String) : (imageElement attrs alt).Drawn := by
  have hnames : ∀ name ∈ (attrs ++ [("alt", alt)]).map Prod.fst, name ∈ drawnNames := by
    cases c with
    | image dest title =>
      cases h
      split <;> simp [drawnNames]
    | list start => cases start <;> cases h
    | _ => cases h
  constructor
  · exact fun name hname => Attributes.get?_ofList_of_notMem fun hmem => hname (hnames name hmem)
  · intro _
    refine ⟨alt, ?_⟩
    show (Attributes.ofList (attrs ++ [("alt", alt)])).get? "alt" = some alt
    rw [Builder.ofList_concat]
    exact Attributes.get?_set_self _ _ _

theorem drawn_nextCell (table : Option OpenTable) : (Builder.nextCell table).1.Drawn := by
  have htag : (Builder.nextCell table).1.tag ≠ .img :=
    fun himg => nextCell_not_void table (himg ▸ List.mem_cons_self)
  cases table with
  | none => exact .ofList htag nofun
  | some o =>
    apply Element.Drawn.ofList htag
    unfold Builder.cellAttrs
    split <;> simp [drawnNames]

/-! ## 2. Drafts -/

/-- All elements are drawn, and if the root is to be mute, it has no text. -/
structure Tree.Drawn (mute : Bool) (t : Tree) : Prop where
  elements : ∀ id e, t.element? id = some e → e.Drawn
  root : ∃ e, t.element? Tree.rootId = some e ∧ (mute = true → e.text = none)

namespace Tree.Drawn

variable {mute : Bool} {t : Tree} {p : NodeId} {e : Element}

theorem size_pos (h : t.Drawn mute) : 0 < t.size := by
  obtain ⟨e, he, -⟩ := h.root
  exact Tree.lt_size_of_element? he

theorem size_ne_root (h : t.Drawn mute) : t.size ≠ Tree.rootId := Nat.ne_of_gt h.size_pos

theorem grow (h : t.Drawn mute) (p : NodeId) (he : e.Drawn) : (t.grow p e).Drawn mute := by
  constructor
  · intro id e' he'
    rw [Tree.element?_grow] at he'
    split at he'
    · exact Option.some.inj he' ▸ he
    · exact h.elements id e' he'
  · obtain ⟨r, hr, htext⟩ := h.root
    refine ⟨r, ?_, htext⟩
    rw [Tree.element?_grow, if_neg h.size_ne_root.symm, hr]

/-- Texts and tails may change, except for the text of a mute root. -/
theorem modify (h : t.Drawn mute) {f : Element → Element} {text tail : Element → Option String}
    (hf : ∀ e, f e = { e with text := text e, tail := tail e }) {id : NodeId}
    (hroot : mute = true → id = Tree.rootId → ∀ e, (f e).text = e.text) :
    (t.modify id f).Drawn mute := by
  constructor
  · intro k e he
    rw [Tree.element?_modify] at he
    split at he
    · obtain ⟨e', he', rfl⟩ := Option.map_eq_some_iff.mp he
      rw [hf]
      exact (h.elements k e' he').withText _ _
    · exact h.elements k e he
  · obtain ⟨r, hr, htext⟩ := h.root
    rw [Tree.element?_modify]
    split
    · rename_i hid
      refine ⟨f r, by rw [hr]; rfl, fun hmute => ?_⟩
      rw [hroot hmute hid.symm, htext hmute]
    · exact ⟨r, hr, htext⟩

/-- A run that is added to another node than the root is the text of that node, or a tail. -/
theorem appendRun (h : t.Drawn mute) (run : String) (hp : mute = true → p ≠ Tree.rootId) :
    (Builder.appendRun t p run).Drawn mute := by
  unfold Builder.appendRun
  split
  · exact h.modify (fun _ => rfl) fun _ _ _ => rfl
  · exact h.modify (fun _ => rfl) fun hmute hroot => absurd hroot (hp hmute)

theorem addTo {P : Element → Prop} {c : Content} (h : t.Drawn mute) (hc : c.Flat P)
    (hP : ∀ e, P e → e.Drawn) (hp : mute = true → p ≠ Tree.rootId) : (c.addTo t p).Drawn mute := by
  refine hc.addTo (M := Tree.Drawn mute) ?_ ?_ h
  · exact fun t run ht => ht.appendRun run hp
  · exact fun t e he ht => ht.grow p (hP e he)

theorem markUntitled (h : t.Drawn false) : (Builder.markUntitled t).Drawn false := by
  unfold Builder.markUntitled
  split
  · split
    · exact h
    · exact h.modify (fun _ => rfl) nofun
  · exact h

end Tree.Drawn

namespace Markdown

variable {mute : Bool} {d : Draft σ} {f : Frame} {p : NodeId}

theorem drawn_flush (h : d.tree.Drawn mute) (deletion : Bool) (run : String)
    (hf : mute = true → f.container ≠ Tree.rootId ∨ run = "") :
    (d.flush deletion f run).tree.Drawn mute := by
  by_cases hrun : run = ""
  · -- Without character data there is nothing to be put anywhere.
    subst hrun
    exact h
  · refine h.addTo (Mode.flat_run _ _) ?_ fun hmute => (hf hmute).resolve_right hrun
    rintro e ⟨run, rfl⟩
    apply Element.Drawn.bare
    exact nofun

def Leaf.isText : Leaf → Bool
  | text _ | softBreak => true
  | _ => false

/-- Containers that leave their character data to what is around them. -/
def Container.isOpen : Container → Bool
  | definitionList | definitionTitle | definition => true
  | _ => false

/-- No text stands in the root. -/
def Nest.sheltered : Nest → Bool
  | nil => true
  | leaf l rest => !l.isText && rest.sheltered
  | container c inner rest => (!c.isOpen || inner.sheltered) && rest.sheltered
  | part _ _ rest => rest.sheltered

/-- The events are properly nested, their tables are in order, and no text stands outside of all
blocks. Cells may stand outside of tables. -/
def Sheltered (events : List Event) : Prop :=
  ∃ n : Nest, n.events = events ∧ n.fits true (.flow false) = true ∧ n.sheltered = true

theorem Leaf.sense_of_not_isText {l : Leaf} {s : String} (hl : l.sense = .data s)
    (h : l.isText = false) : s = "" := by
  cases l with
  | text | softBreak => cases h
  | html | inlineHtml | inlineMath | displayMath => cases hl; rfl
  | _ => cases hl

theorem Container.isOpen_of_shell {c : Container} (h : c.shell = .clear) : c.isOpen = true := by
  cases c with
  | definitionList | definitionTitle | definition => rfl
  | list start => cases start <;> cases h
  | _ => cases h

/-- What stands in the frame leaves the text of a mute root alone: the frame is another node's, or
it drops character data, or there is none. -/
def Nest.Spares (mute : Bool) (n : Nest) (f : Frame) (run : String) : Prop :=
  mute = true → f.container ≠ Tree.rootId ∨ run = "" ∧ (f.skip = true ∨ n.sheltered = true)

theorem Nest.Spares.of_ne {n : Nest} (h : f.container ≠ Tree.rootId) (run : String) :
    n.Spares mute f run :=
  fun _ => .inl h

theorem Nest.Spares.rest {n m : Nest} {run : String} (h : n.Spares mute f run)
    (hsub : n.sheltered = true → m.sheltered = true) : m.Spares mute f "" := by
  intro hmute
  obtain hne | ⟨-, hskip | hn⟩ := h hmute
  · exact .inl hne
  · exact .inr ⟨rfl, .inl hskip⟩
  · exact .inr ⟨rfl, .inr (hsub hn)⟩

theorem Nest.Spares.run {n : Nest} {run : String} (h : n.Spares mute f run) :
    mute = true → f.container ≠ Tree.rootId ∨ run = "" :=
  fun hmute => (h hmute).imp_right And.left

/-! ## 3. Shells and parts -/

theorem drawn_filled (c : Container) (h : d.tree.Drawn mute) {inner rest : Nest} {run : String}
    (hf : (Nest.container c inner rest).Spares mute f run) {fill : Frame → Draft σ → Draft σ}
    (hfill : ∀ g (d' : Draft σ), d'.tree.Drawn mute → inner.Spares mute g "" →
      (fill g d').tree.Drawn mute) :
    (c.shell.filled f d inner.alt fill).tree.Drawn mute := by
  have hdrawn := fun e => drawn_shell c (e := e)
  have hsize := h.size_ne_root
  cases hshell : c.shell with
  | element e =>
    rw [hshell] at hdrawn
    exact hfill _ _ (h.grow _ (hdrawn e (List.mem_singleton_self e))) (.of_ne hsize "")
  | verbatim outer e =>
    rw [hshell] at hdrawn
    have houter := h.grow f.container (hdrawn outer List.mem_cons_self)
    have hinner :=
      houter.grow d.tree.size (hdrawn e (List.mem_cons_of_mem _ (List.mem_singleton_self e)))
    exact hfill _ _ hinner (.of_ne (Nat.succ_ne_zero _) "")
  | image attrs => exact h.grow _ (drawn_image hshell _)
  | silent => exact hfill _ _ h fun _ => .inr ⟨rfl, .inl rfl⟩
  | clear =>
    refine hfill _ _ h (hf.rest fun hn => ?_)
    simp only [Nest.sheltered, Container.isOpen_of_shell hshell, Bool.not_true, Bool.false_or,
      Bool.and_eq_true] at hn
    exact hn.1

theorem drawn_body (h : d.tree.Drawn mute) (p : NodeId) : (d.body p).1.tree.Drawn mute := by
  unfold Draft.body
  split
  · exact h
  · split
    · exact h
    · exact h.grow _ (.bare nofun)

theorem drawn_closeTable (h : d.tree.Drawn mute) {hook : TableHook σ}
    (hhook : ∀ p s, hook p s = s) : (d.closeTable hook).tree.Drawn mute := by
  unfold Draft.closeTable
  split
  · exact h
  · rename_i o _
    have hfill : (Draft.fillBody o { d with table := none }).tree.Drawn mute := by
      unfold Draft.fillBody
      by_cases hfilled : o.body.isSome = true
      · rw [if_pos hfilled]
        exact h
      · rw [if_neg hfilled]
        have hbody := h.grow o.table (e := { tag := .tbody }) (.bare nofun)
        have hrow := hbody.grow d.tree.size (e := { tag := .tr }) (.bare nofun)
        refine hrow.addTo (flat_cells _) ?_ fun _ => Nat.succ_ne_zero _
        rintro e rfl
        exact .bare nofun
    rw [Draft.report, hhook]
    exact hfill

/-- What is inside a part of a table is in a new node. -/
theorem drawn_opened (h : d.tree.Drawn mute) (p : NodeId) (part : Part) :
    (part.opened p d).1.tree.Drawn mute ∧ (part.opened p d).2 ≠ Tree.rootId := by
  cases part with
  | table alignments => exact ⟨h.grow p (.bare nofun), h.size_ne_root⟩
  | head =>
    have hhead := h.grow p (e := { tag := .thead }) (.bare nofun)
    exact ⟨hhead.grow d.tree.size (.bare nofun), Nat.succ_ne_zero _⟩
  | row =>
    have hbody := drawn_body h p
    exact ⟨hbody.grow _ (.bare nofun), hbody.size_ne_root⟩
  | cell => exact ⟨h.grow p (drawn_nextCell d.table), h.size_ne_root⟩

theorem drawn_closed {hook : TableHook σ} (hhook : ∀ p s, hook p s = s) (h : d.tree.Drawn mute)
    (part : Part) : (part.closed hook d).tree.Drawn mute := by
  cases part with
  | table => exact drawn_closeTable h hhook
  | head | row | cell => exact h

/-! ## 4. Nests -/

/-- **Drawing.** Where nothing happens between tables, a nest draws, and leaves a mute root mute. -/
theorem Nest.pour_drawn {hook : TableHook σ} (hhook : ∀ p s, hook p s = s)
    (deletion : Bool) (n : Nest) (run : String) (h : d.tree.Drawn mute) (hf : n.Spares mute f run) :
    (n.pour hook deletion f run d).tree.Drawn mute := by
  -- For every frame that spares the root. Inside a new node any text may stand, and inside what
  -- drops its text as well.
  induction n generalizing f run d with
  | nil => exact drawn_flush h deletion run hf.run
  | leaf l rest ih =>
    have hsplit : (leaf l rest).sheltered = true → l.isText = false ∧ rest.sheltered = true := by
      simp [sheltered]
    unfold pour
    split
    · rename_i s hsense
      apply ih _ h
      intro hmute
      obtain hne | ⟨rfl, hskip | hn⟩ := hf hmute
      · exact .inl hne
      · exact .inr ⟨if_pos hskip, .inl hskip⟩
      · obtain ⟨hl, hrest⟩ := hsplit hn
        rw [Leaf.sense_of_not_isText hsense hl, String.append_empty, ite_self]
        exact .inr ⟨rfl, .inr hrest⟩
    · rename_i e hsense
      exact ih _ ((drawn_flush h deletion run hf.run).grow _ (drawn_leaf hsense))
        (hf.rest fun hn => (hsplit hn).2)
  | container c inner rest ihinner ihrest =>
    have hfilled :=
      drawn_filled c (drawn_flush h deletion run hf.run) hf fun _ _ hd hg => ihinner "" hd hg
    refine ihrest _ hfilled (hf.rest fun hn => ?_)
    simp only [sheltered, Bool.and_eq_true] at hn
    exact hn.2
  | part p inner rest ihinner ihrest =>
    obtain ⟨hopened, hne⟩ := drawn_opened (drawn_flush h deletion run hf.run) f.container p
    have hfilled := drawn_closed hhook
      (ihinner (f := { container := (p.opened f.container _).2 }) "" hopened (.of_ne hne "")) p
    exact ihrest _ hfilled (hf.rest fun hn => hn)

theorem Nest.draft_drawn {hook : TableHook σ} (hhook : ∀ p s, hook p s = s) (deletion : Bool)
    (gathered : σ) (n : Nest) (hn : mute = true → n.sheltered = true) :
    (n.draft hook deletion gathered).tree.Drawn mute := by
  refine n.pour_drawn hhook deletion "" ?_ fun hmute => .inr ⟨rfl, .inr (hn hmute)⟩
  constructor
  · intro id e he
    have hid : id = Tree.rootId := Nat.lt_one_iff.mp (Tree.lt_size_of_element? he)
    subst hid
    rw [← Option.some.inj he]
    exact .bare nofun
  · exact ⟨_, rfl, fun _ => rfl⟩

end Markdown

end AccessibleMarkdown
