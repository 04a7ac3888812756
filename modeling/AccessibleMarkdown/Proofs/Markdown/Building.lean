import AccessibleMarkdown.Proofs.Markdown.Filling

/-!
# Building is meaning

The builder is a machine that meets a document one event at a time: it holds text back, keeps a
stack of open containers and has a state of its own inside images. Whatever state it is in, the
events of a forest make it put the content of that forest into the container that is open, and
leave everything else as it was. A whole document thus ends up as the tree that it means.
-/

namespace AccessibleMarkdown.Markdown

namespace Builder

variable {σ : Type} {hook : TableHook σ} {b : Builder σ} {kids : NodeId → List NodeId}

/-! ## 1. Text that is held back -/

def mode (b : Builder σ) : Mode := { cuts := b.deletion && !b.frame.raw, drops := b.frame.skip }

/-- The builder once `c` is in the container that is open, with no text held back. -/
def fill (b : Builder σ) (c : Content) : Builder σ :=
  { b with tree := c.addTo b.tree b.frame.container, pending := "" }

theorem fill_fill (b : Builder σ) (c d : Content) : (b.fill c).fill d = b.fill (c ++ d) := by
  show { b with
    tree := d.addTo (c.addTo b.tree b.frame.container) b.frame.container
    pending := "" } = _
  rw [← Content.addTo_append]
  rfl

/-- The container that is open is a node of a well-linked tree, and no image is open. -/
structure Ready (b : Builder σ) : Prop where
  linked : ∃ kids, b.tree.Linked kids
  container_lt : b.frame.container < b.tree.size
  image : b.image = none

theorem Ready.fill (h : b.Ready) (c : Content) : (b.fill c).Ready := by
  obtain ⟨kids, hl⟩ := h.linked
  exact {
    linked := c.exists_linked hl h.container_lt
    container_lt := Nat.lt_of_lt_of_le h.container_lt (c.size_le_addTo hl h.container_lt)
    image := h.image }

theorem appendTo_eq (h : b.tree.Linked kids) {p : NodeId} (hp : p < b.tree.size) (e : Element) :
    b.appendTo p e = .ok ({ b with tree := b.tree.grow p e }, b.tree.size) := by
  rw [appendTo, Tree.append_eq h e hp]
  rfl

theorem append_eq (h : b.Ready) (e : Element) :
    b.append e = .ok ({ b with tree := b.tree.grow b.frame.container e }, b.tree.size) := by
  obtain ⟨kids, hl⟩ := h.linked
  exact appendTo_eq hl h.container_lt e

/-- Deletion markup is put into the tree as the content of its segments. -/
theorem foldlM_appendSegment (segments : List Segment) (b : Builder σ) (h : b.tree.Linked kids)
    {p : NodeId} (hp : p < b.tree.size) :
    segments.foldlM (appendSegment p) b =
      .ok { b with tree := (Content.ofSegments segments).addTo b.tree p } := by
  -- Each segment leaves a builder with sound links and the same container.
  induction segments generalizing b kids with
  | nil => rfl
  | cons segment rest ih =>
    rw [List.foldlM_cons]
    cases segment with
    | text run =>
      have hs := sameLinks_appendRun b.tree p run
      exact ih (b.appendText p run) (h.sameLinks hs) (hs.size ▸ hp)
    | deleted run =>
      rw [appendSegment, appendTo_eq h hp]
      exact ih { b with tree := b.tree.grow p _ } (h.grow _ hp) (Tree.lt_size_grow _ hp)

theorem cuts_mode (b : Builder σ) : b.mode.cuts = !(!b.deletion || b.frame.raw) := by
  rw [Bool.not_or, Bool.not_not]
  rfl

/-- Nothing stays held back: it becomes content of the container. -/
theorem flush_linked (h : b.tree.Linked kids) (hlt : b.frame.container < b.tree.size) :
    b.flush = .ok (b.fill (b.mode.run b.pending)) := by
  rw [flush, Mode.run]
  by_cases hempty : b.pending.isEmpty = true
  · rw [if_pos hempty, if_pos hempty]
    obtain ⟨tree, gathered, frames, pending, table, image, deletion⟩ := b
    obtain rfl : pending = "" := String.isEmpty_iff.mp hempty
    rfl
  · rw [if_neg hempty, if_neg hempty]
    -- Text that is not cut goes in whole.
    by_cases hraw : (!b.deletion || b.frame.raw) = true
    · rw [if_pos hraw, if_neg (by rw [cuts_mode, hraw]; decide)]
      rfl
    · rw [if_neg hraw, if_pos (by rw [cuts_mode, Bool.eq_false_iff.mpr hraw]; rfl)]
      exact foldlM_appendSegment _ { b with pending := "" } h hlt

theorem flush_eq (h : b.Ready) : b.flush = .ok (b.fill (b.mode.run b.pending)) := by
  obtain ⟨kids, hl⟩ := h.linked
  exact flush_linked hl h.container_lt

theorem hold_eq (b : Builder σ) (text : String) :
    b.hold text = { b with pending := if b.mode.drops then b.pending else b.pending ++ text } := by
  rw [hold]
  by_cases hskip : b.frame.skip = true
  · rw [if_pos hskip, if_pos (show b.mode.drops = true from hskip)]
  · rw [if_neg hskip, if_neg (show ¬b.mode.drops = true from hskip)]

theorem Ready.hold (h : b.Ready) (text : String) : (b.hold text).Ready := by
  rw [hold_eq]
  exact ⟨h.linked, h.container_lt, h.image⟩

/-- Holding text back changes nothing but that. -/
theorem hold_fill (b : Builder σ) (text : String) (c : Content) :
    (b.hold text).fill c = b.fill c := by
  rw [hold_eq]
  rfl

theorem content_hold (b : Builder σ) (text : String) (f : Forest) :
    f.content (b.hold text).deletion (b.hold text).mode (b.hold text).pending =
      f.content b.deletion b.mode (if b.mode.drops then b.pending else b.pending ++ text) := by
  rw [hold_eq]
  rfl

/-! ## 2. Leaves -/

theorem foldlM_cons_of_ok {event : Event} {b₁ : Builder σ} (h : push hook b event = .ok b₁)
    (events : List Event) :
    (event :: events).foldlM (push hook) b = events.foldlM (push hook) b₁ := by
  rw [List.foldlM_cons, h]
  rfl

theorem foldlM_append_of_ok {before : List Event} {b₁ : Builder σ}
    (h : before.foldlM (push hook) b = .ok b₁) (events : List Event) :
    (before ++ events).foldlM (push hook) b = events.foldlM (push hook) b₁ := by
  rw [List.foldlM_append, h]
  rfl

theorem element_eq {name : String} {tag : Tag} (h : Tag.ofName name = tag)
    (attrs : List (String × String)) : element name attrs = { tag, attrs := .ofList attrs } := by
  rw [element, h]

theorem textElement_eq {name : String} {tag : Tag} (h : Tag.ofName name = tag) (text : String) :
    textElement name text = { tag, text := some text } := by
  rw [textElement, h]

theorem push_eq (h : b.image = none) (event : Event) :
    push hook b event = pushEvent hook b event := by
  rw [push, h]

/-- A leaf is held back, or is an element of its own. -/
theorem push_leaf (hook : TableHook σ) (h : b.image = none) (l : Leaf) :
    push hook b l.event =
      match l.sense with
      | .data text => .ok (b.hold text)
      | .element e => b.appendLeaf e := by
  -- HTML and formulas leave the builder as it is, which is holding back no text.
  have hsame : b = b.hold "" := by
    rw [hold, String.append_empty, ite_self]
  rw [push_eq h]
  cases l with
  | text s => rfl
  | softBreak => rfl
  | hardBreak => exact congrArg b.appendLeaf (element_eq (by decide +kernel) [])
  | code s => exact congrArg b.appendLeaf (textElement_eq (by decide +kernel) s)
  | rule => exact congrArg b.appendLeaf (element_eq (by decide +kernel) [])
  | footnoteReference label =>
    exact congrArg b.appendLeaf (textElement_eq (by decide +kernel) label)
  | taskMarker checked => exact congrArg b.appendLeaf (element_eq (by decide +kernel) _)
  | html s => exact congrArg Except.ok hsame
  | inlineHtml s => exact congrArg Except.ok hsame
  | inlineMath s => exact congrArg Except.ok hsame
  | displayMath s => exact congrArg Except.ok hsame

theorem appendLeaf_eq (h : b.Ready) (e : Element) :
    b.appendLeaf e = .ok (b.fill (b.mode.run b.pending ++ .element e .nil .nil)) := by
  rw [appendLeaf, flush_eq h, ← fill_fill]
  show ((b.fill (b.mode.run b.pending)).append e >>= fun r => .ok r.1) = _
  rw [append_eq (h.fill _)]
  rfl

/-! ## 3. Containers -/

def withImage (b : Builder σ) (image : OpenImage) : Builder σ := { b with image := some image }

/-- How a shell is opened, when no text is held back. -/
def openShell (b : Builder σ) : Container.Shell → Except TreeError (Builder σ)
  | .element e => b.openElement e
  | .verbatim outer e => do
    let (b, outer) ← b.append outer
    let (b, inner) ← b.appendTo outer e
    return b.pushFrame { container := inner, raw := true }
  | .image attrs => do
    let (b, node) ← b.append { tag := .img, attrs := .ofList attrs }
    return b.withImage { node }
  | .silent => .ok (b.pushFrame { container := b.frame.container, skip := true })
  | .clear => .ok (b.pushFrame b.frame)

/-- The class of a code block names its language. -/
theorem given_language (info : Option String) :
    given "class" (((info.filter (!·.isEmpty)).map ("language-" ++ ·)).getD "") =
      match info with
      | some language => if language.isEmpty then [] else [("class", "language-" ++ language)]
      | none => [] := by
  cases info with
  | none => rfl
  | some language =>
    rw [Option.filter_some]
    show given "class" _ = if language.isEmpty then [] else [("class", "language-" ++ language)]
    by_cases hempty : language.isEmpty = true
    · rw [if_pos hempty, hempty]
      rfl
    · rw [if_neg hempty, Bool.eq_false_iff.mpr hempty]
      show given "class" ("language-" ++ language) = _
      rw [given, if_neg (by simp)]

theorem heading_eq (level : Nat) : (Tag.heading? level).getD .h6 = headingTag level :=
  match level with
  | 0 | 1 | 2 | 3 | 4 | 5 | 6 => rfl
  | _ + 7 => rfl

theorem openSpan_eq (b : Builder σ) (c : Container) : b.openSpan c.span = b.openShell c.shell := by
  cases c with
  | heading level =>
    show b.openElement { tag := (Tag.heading? level).getD .h6 } =
        b.openElement { tag := headingTag level }
    rw [heading_eq]
  | codeBlock info =>
    have hpre : element "pre" [] = { tag := .other "pre" } := element_eq (by decide +kernel) []
    have hcode : ∀ attrs, element "code" attrs = { tag := .other "code", attrs := .ofList attrs } :=
      element_eq (by decide +kernel)
    show (b.append (element "pre" []) >>= fun r => r.1.appendTo r.2 (element "code" _) >>= _) = _
    rw [given_language, hpre, hcode]
    rfl
  | list start =>
    cases start with
    | none => exact congrArg b.openElement (element_eq (by decide +kernel) [])
    | some start => exact congrArg b.openElement (element_eq (by decide +kernel) _)
  | image dest title =>
    have himg : ∀ attrs, element "img" attrs = { tag := .img, attrs := .ofList attrs } :=
      element_eq (by decide +kernel)
    show (b.append (element "img" _) >>= _) = _
    rw [himg]
    rfl
  | blockQuote => exact congrArg b.openElement (element_eq (by decide +kernel) [])
  | item => exact congrArg b.openElement (element_eq (by decide +kernel) [])
  | emphasis => exact congrArg b.openElement (element_eq (by decide +kernel) [])
  | strong => exact congrArg b.openElement (element_eq (by decide +kernel) [])
  | strikethrough => exact congrArg b.openElement (element_eq (by decide +kernel) [])
  | footnoteDefinition label => exact congrArg b.openElement (element_eq (by decide +kernel) _)
  | link dest title => exact congrArg b.openElement (element_eq (by decide +kernel) _)
  | paragraph | htmlBlock | metadataBlock | definitionList | definitionTitle | definition => rfl

theorem closeSpan_eq (b : Builder σ) (c : Container) :
    closeSpan hook b c.span.kind = .ok { b with frames := b.frames.tail } := by
  cases c <;> rfl

/-! ## 4. Images -/

def imagesOf : Container → Nat
  | .image _ _ => 1
  | _ => 0

theorem push_start_alt (b : Builder σ) (image : OpenImage) (c : Container) :
    push hook (b.withImage image) (.start c.span) =
      .ok (b.withImage { image with depth := image.depth + imagesOf c }) := by
  cases c <;> rfl

theorem push_stop_alt (b : Builder σ) (image : OpenImage) (c : Container) :
    push hook (b.withImage { image with depth := image.depth + imagesOf c }) (.stop c.span.kind) =
      .ok (b.withImage image) := by
  cases c <;> rfl

theorem push_leaf_alt (b : Builder σ) (image : OpenImage) (l : Leaf) (rest : Forest) :
    ∃ s, push hook (b.withImage image) l.event =
        .ok (b.withImage { image with alt := image.alt ++ s }) ∧
      (Forest.leaf l rest).alt = s ++ rest.alt := by
  have hsame : b.withImage image = b.withImage { image with alt := image.alt ++ "" } := by
    rw [String.append_empty]
  have hnone : rest.alt = "" ++ rest.alt := String.empty_append.symm
  cases l with
  | text s => exact ⟨s, rfl, rfl⟩
  | code s => exact ⟨s, rfl, rfl⟩
  | softBreak => exact ⟨" ", rfl, rfl⟩
  | hardBreak => exact ⟨" ", rfl, rfl⟩
  | _ => exact ⟨"", congrArg Except.ok hsame, hnone⟩

/-- Inside an image a forest adds its alternative text, and nothing else. -/
theorem foldlM_alt (f : Forest) (b : Builder σ) (image : OpenImage) :
    f.events.foldlM (push hook) (b.withImage image) =
      .ok (b.withImage { image with alt := image.alt ++ f.alt }) := by
  -- The depth is back at its old value after each container, so only the text grows.
  induction f generalizing image with
  | nil =>
    rw [Forest.alt, String.append_empty]
    rfl
  | leaf l rest ih =>
    obtain ⟨s, hpush, halt⟩ := push_leaf_alt b image l rest
    rw [Forest.events, foldlM_cons_of_ok hpush, ih, halt, ← String.append_assoc]
  | container c inner rest ihinner ihrest =>
    rw [Forest.events, foldlM_cons_of_ok (push_start_alt b image c),
      foldlM_append_of_ok (ihinner _),
      foldlM_cons_of_ok (push_stop_alt b { image with alt := image.alt ++ inner.alt } c), ihrest,
      Forest.alt, ← String.append_assoc]

/-! ## 5. Forests -/

/-- The events make the builder put `c` into the container that is open: at once or, where it is
text that is held back at the end, with the next flush. -/
def Puts (hook : TableHook σ) (events : List Event) (b : Builder σ) (c : Content) : Prop :=
  ∃ b₁, events.foldlM (push hook) b = .ok b₁ ∧ b₁.Ready ∧ b₁.flush = .ok (b.fill c)

theorem Puts.after {before events : List Event} {c d : Content}
    (hbefore : before.foldlM (push hook) b = .ok (b.fill c)) (h : Puts hook events (b.fill c) d) :
    Puts hook (before ++ events) b (c ++ d) := by
  obtain ⟨b₁, hfold, hready, hflush⟩ := h
  exact ⟨b₁, by rw [foldlM_append_of_ok hbefore, hfold], hready, by rw [hflush, fill_fill]⟩

/-- What is put into a container that is open stays in it when it is closed. -/
theorem Puts.close {events : List Event} {d : Content} (h : Puts hook events b d) (c : Container) :
    (events ++ [Event.stop c.span.kind]).foldlM (push hook) b =
      .ok { b.fill d with frames := b.frames.tail } := by
  obtain ⟨b₁, hfold, hready, hflush⟩ := h
  have hstop :
      push hook b₁ (.stop c.span.kind) = .ok { b.fill d with frames := b.frames.tail } := by
    rw [push_eq hready.image, pushEvent, hflush]
    exact closeSpan_eq (b.fill d) c
  rw [foldlM_append_of_ok hfold, foldlM_cons_of_ok hstop]
  rfl

/-- The same for a frame that was opened over a tree `t`. -/
theorem Puts.close_frame {events : List Event} {d : Content} {t : Tree} {f : Frame}
    (h : Puts hook events ({ b with tree := t }.pushFrame f) d) (c : Container) :
    (events ++ [Event.stop c.span.kind]).foldlM (push hook) ({ b with tree := t }.pushFrame f) =
      .ok { b with tree := d.addTo t f.container, pending := "" } :=
  h.close c

theorem Ready.pushFrame (h : b.Ready) {f : Frame} (hf : f.container < b.tree.size) :
    (b.pushFrame f).Ready where
  linked := h.linked
  container_lt := hf
  image := h.image

theorem Ready.grow (h : b.Ready) {p : NodeId} (hp : p < b.tree.size) (e : Element) :
    { b with tree := b.tree.grow p e }.Ready := by
  obtain ⟨kids, hl⟩ := h.linked
  exact {
    linked := ⟨_, hl.grow e hp⟩
    container_lt := Tree.lt_size_grow e h.container_lt
    image := h.image }

theorem mode_pushFrame (b : Builder σ) (id : NodeId) :
    (b.pushFrame { container := id }).mode = { cuts := b.deletion } := by
  show ({ cuts := b.deletion && !false, drops := false } : Mode) = _
  rw [Bool.not_false, Bool.and_true]

theorem mode_pushFrame_raw (b : Builder σ) (id : NodeId) :
    (b.pushFrame { container := id, raw := true }).mode = { cuts := false } := by
  show ({ cuts := b.deletion && !true, drops := false } : Mode) = _
  rw [Bool.not_true, Bool.and_false]

theorem mode_pushFrame_skip (b : Builder σ) (id : NodeId) :
    (b.pushFrame { container := id, skip := true }).mode =
      { cuts := b.deletion, drops := true } := by
  show ({ cuts := b.deletion && !false, drops := true } : Mode) = _
  rw [Bool.not_false, Bool.and_true]

theorem openElement_eq (h : b.Ready) (e : Element) :
    b.openElement e = .ok ({ b with tree := b.tree.grow b.frame.container e }.pushFrame
      { container := b.tree.size }) := by
  rw [openElement, append_eq h]
  rfl

theorem openShell_verbatim (h : b.Ready) (outer e : Element) :
    b.openShell (.verbatim outer e) =
      .ok ({ b with tree := (b.tree.grow b.frame.container outer).grow b.tree.size e }.pushFrame
        { container := (b.tree.grow b.frame.container outer).size, raw := true }) := by
  obtain ⟨kids, hl⟩ := (h.grow h.container_lt outer).linked
  rw [openShell, append_eq h]
  show (appendTo { b with tree := b.tree.grow b.frame.container outer } b.tree.size e >>= _) = _
  rw [appendTo_eq hl (by simp)]
  rfl

theorem ofList_concat (attrs : List (String × String)) (name value : String) :
    Attributes.ofList (attrs ++ [(name, value)]) = (Attributes.ofList attrs).set name value := by
  rw [Attributes.ofList, List.foldl_append]
  rfl

theorem kind_of_image {c : Container} {attrs : List (String × String)}
    (h : c.shell = .image attrs) : c.span.kind = .image := by
  cases c with
  | image dest title => rfl
  | list start => cases start <;> cases h
  | _ => cases h

/-- The end of the outermost image gives it its alternative text. -/
theorem push_stop_image (b : Builder σ) (node : NodeId) (alt : String) :
    push hook (b.withImage { node, alt }) (.stop .image) =
      .ok { b with tree := b.tree.modify node (·.set "alt" alt), image := none } := rfl

/-- A container, opened and closed with no text held back, puts in what its shell makes of its
inside. -/
theorem container_fill {events : List Event} {alt : String} (content : Mode → Content)
    (h : b.Ready) (hpending : b.pending = "")
    (hinner : ∀ b' : Builder σ, b'.Ready → b'.deletion = b.deletion → b'.pending = "" →
      Puts hook events b' (content b'.mode))
    (halt : ∀ (b' : Builder σ) (image : OpenImage), events.foldlM (push hook) (b'.withImage image) =
      .ok (b'.withImage { image with alt := image.alt ++ alt }))
    (c : Container) :
    ∃ b₁, b.openSpan c.span = .ok b₁ ∧ (events ++ [Event.stop c.span.kind]).foldlM (push hook) b₁ =
      .ok (b.fill (c.shell.content b.deletion b.mode content alt)) := by
  have hlt := h.container_lt
  rw [openSpan_eq]
  cases hshell : c.shell with
  | element e =>
    have hready := (h.grow hlt e).pushFrame (f := { container := b.tree.size }) (by simp)
    have hclose := (hinner _ hready rfl hpending).close_frame c
    rw [mode_pushFrame] at hclose
    exact ⟨_, openElement_eq h e, hclose⟩
  | verbatim outer e =>
    have hpre : b.tree.size < (b.tree.grow b.frame.container outer).size := by simp
    have hready :
        ({ b with tree := (b.tree.grow b.frame.container outer).grow b.tree.size e }.pushFrame
          { container := (b.tree.grow b.frame.container outer).size, raw := true }).Ready :=
      ((h.grow hlt outer).grow hpre e).pushFrame (by simp)
    have hclose := (hinner _ hready rfl hpending).close_frame c
    rw [mode_pushFrame_raw] at hclose
    refine ⟨_, openShell_verbatim h outer e, hclose.trans ?_⟩
    rw [fill, Container.Shell.content, Content.addTo_element, Content.addTo_element,
      Content.addTo_nil, Content.addTo_nil]
  | image attrs =>
    have hopen : b.openShell (.image attrs) = .ok (withImage
        { b with tree := b.tree.grow b.frame.container { tag := .img, attrs := .ofList attrs } }
        { node := b.tree.size }) := by
      rw [openShell, append_eq h]
      rfl
    refine ⟨_, hopen, ?_⟩
    rw [kind_of_image hshell, foldlM_append_of_ok (halt _ _),
      foldlM_cons_of_ok (push_stop_image _ _ _), Tree.grow_modify, String.empty_append,
      Element.set, ← ofList_concat]
    -- The image has been closed, and no text was held back: all other fields are those of `b`.
    obtain ⟨tree, gathered, frames, pending, table, image, deletion⟩ := b
    obtain rfl : image = none := h.image
    obtain rfl : pending = "" := hpending
    rfl
  | silent =>
    have hready := h.pushFrame (f := { container := b.frame.container, skip := true }) hlt
    refine ⟨_, rfl, ?_⟩
    rw [(hinner _ hready rfl hpending).close, mode_pushFrame_skip]
    rfl
  | clear =>
    have hready := h.pushFrame (f := b.frame) hlt
    refine ⟨_, rfl, ?_⟩
    rw [(hinner _ hready rfl hpending).close]
    rfl

/-- **Simulation.** In whatever state the events of a forest are met, what they put into the
container that is open is the content of the forest. -/
theorem puts_events (f : Forest) (h : b.Ready) :
    Puts hook f.events b (f.content b.deletion b.mode b.pending) := by
  -- On the forest, for every builder that is ready: a leaf or a container leaves one that is ready
  -- for the rest.
  induction f generalizing b with
  | nil => exact ⟨b, rfl, h, flush_eq h⟩
  | leaf l rest ih =>
    have hpush := push_leaf hook h.image l
    rw [Forest.events, Forest.content]
    cases hsense : l.sense with
    | data text =>
      obtain ⟨b₁, hfold, hready, hflush⟩ := ih (h.hold text)
      rw [hsense] at hpush
      refine ⟨b₁, (foldlM_cons_of_ok hpush _).trans hfold, hready, ?_⟩
      rw [hflush, hold_fill, content_hold]
    | element e =>
      rw [hsense] at hpush
      have hleaf := foldlM_cons_of_ok (hpush.trans (appendLeaf_eq h e)) []
      exact .after hleaf (ih (h.fill _))
  | container c inner rest ihinner ihrest =>
    rw [Forest.events, Forest.content]
    have hready := h.fill (b.mode.run b.pending)
    -- The start of the container flushes, so its inside is met with no text held back.
    have hinner : ∀ b' : Builder σ, b'.Ready → b'.deletion = b.deletion → b'.pending = "" →
        Puts hook inner.events b' (inner.content b.deletion b'.mode "") := by
      intro b' hb' hdeletion hpending
      rw [← hdeletion, ← hpending]
      exact ihinner hb'
    obtain ⟨b₁, hopen, hinside⟩ :=
      container_fill (fun m => inner.content b.deletion m "") hready rfl hinner (foldlM_alt inner) c
    have hstart : push hook b (.start c.span) = .ok b₁ := by
      rw [push_eq h.image, pushEvent, flush_eq h]
      exact hopen
    have hwhole :
        (.start c.span :: (inner.events ++ [.stop c.span.kind])).foldlM (push hook) b = .ok _ :=
      (foldlM_cons_of_ok hstart _).trans hinside
    rw [fill_fill] at hwhole
    have := Puts.after hwhole (ihrest (h.fill _))
    rwa [List.cons_append, List.append_assoc] at this

end Builder

/-! ## 6. Documents -/

open Builder (markUntitled)

variable {t : Tree} {kids : NodeId → List NodeId}

/-- The mark goes to the text of the root, where there is none yet, and nowhere else. -/
theorem holds_markUntitled {e : Element} {g : Grove} (h : t.Linked kids)
    (hroot : t.Holds [Tree.rootId] (.node e g .nil)) :
    (markUntitled t).Holds [Tree.rootId] (.node { e with text := titleMark g e.text } g .nil) := by
  obtain ⟨helement, hg, -⟩ := hroot
  have hfirst : t.firstChild? Tree.rootId = (t.children Tree.rootId).head? := by
    rw [h.first, h.children_eq]
  -- Whether the root is marked depends on the first tree of the grove.
  cases hids : t.children Tree.rootId with
  | nil =>
    rw [hids] at hg hfirst
    cases g with
    | nil =>
      have hsame : markUntitled t = t := by rw [markUntitled, hfirst]; rfl
      rw [hsame]
      exact ⟨helement, by rwa [hids], trivial⟩
    | node first inner rest => exact hg.elim
  | cons id ids =>
    rw [hids] at hg hfirst
    cases g with
    | nil => exact hg.elim
    | node first inner rest =>
      have hcond : markUntitled t = if first.tag = .h1 then t
          else t.modify Tree.rootId fun root =>
            { root with text := some (root.text.getD "\n") } := by
        rw [markUntitled, hfirst, List.head?_cons, Option.bind_some, hg.1]
      rw [hcond]
      by_cases htag : first.tag = .h1
      · rw [if_pos htag]
        exact ⟨by rw [helement, titleMark, if_pos htag], by rwa [hids], trivial⟩
      · rw [if_neg htag]
        have hs := Tree.sameLinks_modify (t := t) Tree.rootId
          fun root => { root with text := some (root.text.getD "\n") }
        refine ⟨?_, ?_, trivial⟩
        · rw [Tree.element?_modify, if_pos rfl, helement, titleMark, if_neg htag]
          rfl
        · rw [hs.children, hids]
          -- The root is below nothing, so the nodes of the grove are left alone.
          refine hg.congr (P := fun id => id ≠ Tree.rootId) ?_ ?_ ?_ ?_
          · intro id hid
            rw [Tree.element?_modify, if_neg hid]
          · intro id _
            rw [hs.children]
          · rintro id - c hc rfl
            exact h.root_notMem_children id hc
          · rintro id hid rfl
            exact h.root_notMem_children Tree.rootId (hids ▸ hid)

theorem sameLinks_markUntitled (t : Tree) : t.SameLinks (markUntitled t) := by
  rw [markUntitled]
  split
  · split
    · exact .refl t
    · exact Tree.sameLinks_modify _ _
  · exact .refl t

/-- Content that is put into an empty tree is all there is below the root. -/
theorem holds_addTo_empty (c : Content) :
    let t := c.addTo .empty Tree.rootId
    (∃ kids, t.Linked kids) ∧
    t.Holds [Tree.rootId] (.node { tag := .div, text := c.lead } c.grove .nil) ∧
      t.size = c.grove.size + 1 := by
  have hempty : Tree.empty.Linked fun _ => [] := Tree.linked_withRoot _
  obtain ⟨ids, hadded, hholds, hsize⟩ := c.exists_added hempty (p := Tree.rootId) (by decide)
  have helement :
      (c.addTo .empty Tree.rootId).element? Tree.rootId = some { tag := .div, text := c.lead } := by
    rw [hadded.element _ (by decide), element?_appendLead_text rfl, if_pos rfl]
    cases c.lead with
    | none => rfl
    | some run =>
      show some ({ tag := .div, text := some ("" ++ run) } : Element) = _
      rw [String.empty_append]
  have hids : (c.addTo .empty Tree.rootId).children Tree.rootId = ids :=
    hadded.children _ (by decide)
  refine ⟨hadded.linked, ⟨helement, by rwa [hids], trivial⟩, ?_⟩
  rw [hsize, Nat.add_comm]
  rfl

theorem holds_document (c : Content) :
    let t := markUntitled (c.addTo .empty Tree.rootId)
    (∃ kids, t.Linked kids) ∧
      t.Holds [Tree.rootId] (.node { tag := .div, text := titleMark c.grove c.lead } c.grove .nil) ∧
      t.size = c.grove.size + 1 := by
  obtain ⟨⟨kids, hlinked⟩, hholds, hsize⟩ := holds_addTo_empty c
  have hs := sameLinks_markUntitled (c.addTo .empty Tree.rootId)
  exact ⟨⟨kids, hlinked.sameLinks hs⟩, holds_markUntitled hlinked hholds, hs.size.trans hsize⟩

/-- **Building is meaning.** The tree that is built from the events of a document holds, from the
root down, exactly what the document means: every link is sound, and there is no node besides. -/
theorem buildTree_meaning {σ : Type} (deletion : Bool) (hook : TableHook σ) (gathered : σ)
    (f : Forest) :
    ∃ t, buildTree deletion hook gathered f.events = .ok (t, gathered) ∧ (∃ kids, t.Linked kids) ∧
      t.Holds [Tree.rootId] (f.meaning deletion) ∧ t.size = (f.meaning deletion).size := by
  have hstart : (Builder.start deletion gathered).Ready := {
    linked := ⟨_, Tree.linked_withRoot _⟩
    container_lt := Nat.zero_lt_one
    image := rfl }
  have hmode : (Builder.start deletion gathered).mode = { cuts := deletion } := by
    show ({ cuts := deletion && !false } : Mode) = _
    rw [Bool.not_false, Bool.and_true]
  obtain ⟨b, hfold, -, hflush⟩ := Builder.puts_events f hstart
  rw [hmode] at hflush
  refine ⟨_, ?_, holds_document (f.content deletion { cuts := deletion } "")⟩
  rw [buildTree, hfold]
  show (b.flush >>= fun b => .ok (markUntitled b.tree, b.gathered)) = _
  rw [hflush]
  rfl

example :
    (Forest.container .paragraph
      (.leaf (.text "a --b") (.leaf .softBreak (.leaf (.text "c--d-- e") .nil)))
      .nil).meaning true =
    .node { tag := .div, text := some "\n" }
      (.node { tag := .p, text := some "a --b\nc" }
        (.node { tag := .del, text := some "d", tail := some " e" } .nil .nil) .nil) .nil := by
  decide +kernel

end AccessibleMarkdown.Markdown
