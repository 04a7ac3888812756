import AccessibleMarkdown.Proofs.Markdown.Nesting
import AccessibleMarkdown.Proofs.Markdown.Progress

/-!
# Building is pouring

Met with the events of a nest, a builder does to its draft what the nest says, in the frame that is
open; its frames are afterwards what they were before.
-/

namespace AccessibleMarkdown.Markdown

namespace Builder

variable {σ : Type} {hook : TableHook σ} {b : Builder σ} {d d' : Draft σ}

/-! ## 1. Images -/

theorem push_start_part (b : Builder σ) (image : OpenImage) (p : Part) :
    push hook (b.withImage image) (.start p.span) = .ok (b.withImage image) := by
  cases p <;> rfl

theorem push_stop_part (b : Builder σ) (image : OpenImage) (p : Part) :
    push hook (b.withImage image) (.stop p.span.kind) = .ok (b.withImage image) := by
  cases p <;> rfl

theorem push_leaf_image (b : Builder σ) (image : OpenImage) (l : Leaf) :
    push hook (b.withImage image) l.event =
      .ok (b.withImage { image with alt := image.alt ++ l.alt }) := by
  have hsame : b.withImage image = b.withImage { image with alt := image.alt ++ "" } := by
    rw [String.append_empty]
  cases l with
  | text s => rfl
  | code s => rfl
  | softBreak => rfl
  | hardBreak => rfl
  | _ => exact congrArg Except.ok hsame

/-- Inside an image a nest adds its alternative text, and nothing else. -/
theorem foldlM_image (n : Nest) (b : Builder σ) (image : OpenImage) :
    n.events.foldlM (push hook) (b.withImage image) =
      .ok (b.withImage { image with alt := image.alt ++ n.alt }) := by
  -- Whatever is inside, the depth is back at its old value after it.
  induction n generalizing image with
  | nil =>
    rw [Nest.alt, String.append_empty]
    rfl
  | leaf l rest ih =>
    rw [Nest.events, foldlM_cons_of_ok (push_leaf_image b image l), ih,
      Nest.alt, ← String.append_assoc]
  | container c inner rest ihinner ihrest =>
    rw [Nest.events, foldlM_cons_of_ok (push_start_alt b image c), foldlM_append_of_ok (ihinner _),
      foldlM_cons_of_ok (push_stop_alt b { image with alt := image.alt ++ inner.alt } c), ihrest,
      Nest.alt, ← String.append_assoc]
  | part p inner rest ihinner ihrest =>
    rw [Nest.events, foldlM_cons_of_ok (push_start_part b image p), foldlM_append_of_ok (ihinner _),
      foldlM_cons_of_ok (push_stop_part b _ p), ihrest, Nest.alt, ← String.append_assoc]

/-! ## 2. Nests -/

/-- The builder whose draft has become `d`, with no text held back. -/
def become (b : Builder σ) (d : Draft σ) : Builder σ := withDraft { b with pending := "" } d

theorem Sound.become (h : b.Sound) (hd : b.draft.Advances d) : (b.become d).Sound :=
  ⟨hd.sound, fun f hf => hd.hosts (h.frames f hf)⟩

theorem Sound.flush_become (h : b.Sound) :
    b.flush = .ok (b.become (b.draft.flush b.deletion b.frame b.pending)) := by
  obtain ⟨kids, hl⟩ := h.draft.tree.linked
  exact flush_linked hl h.container.lt_size

/-- Met with the events, the builder makes `d` of its draft: at once or, where text is held back at
the end, with the next flush. -/
def Pours (hook : TableHook σ) (events : List Event) (b : Builder σ) (d : Draft σ) : Prop :=
  ∃ b₁, events.foldlM (push hook) b = .ok b₁ ∧ b₁.image = none ∧ b₁.flush = .ok (b.become d)

theorem Pours.after {before events : List Event}
    (hbefore : before.foldlM (push hook) b = .ok (b.become d))
    (h : Pours hook events (b.become d) d') : Pours hook (before ++ events) b d' := by
  obtain ⟨b₁, hfold, himage, hflush⟩ := h
  exact ⟨b₁, by rw [foldlM_append_of_ok hbefore, hfold], himage, hflush⟩

/-- What is poured into a frame stays there when it is closed. -/
theorem Pours.close {events : List Event} {f : Frame} (kind : SpanKind)
    (h : Pours hook events ((b.become d).pushFrame f) d')
    {d'' : Draft σ}
    (hclose : closeSpan hook ((b.become d').pushFrame f) kind = .ok (b.become d'')) :
    (events ++ [Event.stop kind]).foldlM (push hook) ((b.become d).pushFrame f) =
      .ok (b.become d'') := by
  obtain ⟨b₁, hfold, himage, hflush⟩ := h
  have hstop : push hook b₁ (.stop kind) = .ok (b.become d'') := by
    rw [push_eq himage, pushEvent, hflush]
    exact hclose
  rw [foldlM_append_of_ok hfold, foldlM_cons_of_ok hstop]
  rfl

/-- A start finds no text held back. -/
theorem Sound.push_start (h : b.Sound) (himage : b.image = none) {s : Span} {b₁ : Builder σ}
    (hopen : (b.become (b.draft.flush b.deletion b.frame b.pending)).openSpan s = .ok b₁) :
    Builder.push hook b (.start s) = .ok b₁ := by
  rw [push_eq himage, pushEvent, h.flush_become]
  exact hopen

/-- The alternative text is the last attribute, as if it had been there from the start. -/
theorem grow_setAlt (t : Tree) (p : NodeId) (attrs : List (String × String)) (alt : String) :
    (t.grow p { tag := .img, attrs := .ofList attrs }).modify t.size (·.set "alt" alt) =
      t.grow p (imageElement attrs alt) := by
  rw [Tree.grow_modify, Element.set, ← ofList_concat]
  rfl

/-- An image is put into the draft as a whole. -/
theorem foldlM_openImage (h : b.Sound) (himage : b.image = none) {c : Container}
    {attrs : List (String × String)} (hshell : c.shell = .image attrs) (inner : Nest) :
    (Event.start c.span :: (inner.events ++ [Event.stop c.span.kind])).foldlM (push hook) b =
      .ok (b.become ((b.draft.flush b.deletion b.frame b.pending).grow b.frame.container
        (imageElement attrs inner.alt))) := by
  have hflush := h.draft.flush h.container b.deletion b.pending
  have hsound := h.become hflush
  have hopen := hsound.openShell_image himage attrs
  rw [← hshell, ← openSpan_eq] at hopen
  rw [foldlM_cons_of_ok (h.push_start himage hopen), foldlM_append_of_ok (foldlM_image inner _ _),
    kind_of_image hshell, foldlM_cons_of_ok (push_stop_image _ _ _)]
  show Except.ok _ = _
  obtain ⟨tree, gathered, frames, pending, table, image, deletion⟩ := b
  obtain rfl : image = none := himage
  refine congrArg Except.ok ?_
  show Builder.mk _ _ _ _ _ _ _ = Builder.mk _ _ _ _ _ _ _
  congr 1
  rw [String.empty_append]
  exact grow_setAlt _ _ _ _

/-- A part of a table is put into the draft as a whole, if what is inside it is. -/
theorem foldlM_part (hhook : TableHook.Shapely hook) (p : Part) (inner : Nest) (h : b.Sound)
    (himage : b.image = none) (hinner : ∀ {b : Builder σ}, b.Sound → b.image = none →
      Pours hook inner.events b (inner.pour hook b.deletion b.frame b.pending b.draft)) :
    (Event.start p.span :: (inner.events ++ [Event.stop p.span.kind])).foldlM (push hook) b =
      .ok (b.become (p.filled hook b.frame.container (b.draft.flush b.deletion b.frame b.pending)
        fun g d => inner.pour hook b.deletion g "" d)) := by
  have hflush := h.draft.flush h.container b.deletion b.pending
  have hsound := h.become hflush
  obtain ⟨hopened, hnew⟩ := hflush.sound.opened (hflush.hosts h.container) p
  have hopen :=
    (hsound.advance hopened).pushFrame (f := { container := (p.opened b.frame.container _).2 }) hnew
  have hadvance := inner.pour_advances hhook b.deletion "" hopened.sound
    (f := { container := (p.opened b.frame.container _).2 }) hnew
  rw [foldlM_cons_of_ok (h.push_start himage (hsound.openSpan_part himage p))]
  exact Pours.close p.span.kind (hinner hopen himage) ((hopen.become hadvance).closeSpan_part p)

/-- **Simulation.** Whatever state a sound builder is in, the events of a nest make it do to its
draft what the nest says. -/
theorem pours_events (hhook : TableHook.Shapely hook) (n : Nest) (h : b.Sound)
    (himage : b.image = none) :
    Pours hook n.events b (n.pour hook b.deletion b.frame b.pending b.draft) := by
  -- For every sound builder: a frame is pushed before what is inside a span, and popped after it.
  induction n generalizing b with
  | nil => exact ⟨b, rfl, himage, h.flush_become⟩
  | leaf l rest ih =>
    have hpush := push_leaf hook himage l
    rw [Nest.events, Nest.pour]
    cases hsense : l.sense with
    | data text =>
      have hrest := ih (h.hold text) (by rw [hold_eq]; exact himage)
      rw [hsense] at hpush
      simp only [hold_eq] at hpush hrest
      obtain ⟨b₁, hfold, himage₁, hflush⟩ := hrest
      exact ⟨b₁, (foldlM_cons_of_ok hpush _).trans hfold, himage₁, hflush⟩
    | element e =>
      have hflush := h.draft.flush h.container b.deletion b.pending
      have hleaf := hflush.sound.grow (hflush.hosts h.container) e
      have happend : push hook b l.event = .ok (b.become
          ((b.draft.flush b.deletion b.frame b.pending).grow b.frame.container e)) := by
        rw [hpush, hsense]
        show b.appendLeaf e = _
        rw [appendLeaf_eq (h.ready himage), fill, Content.addTo_append]
        rfl
      exact .after (foldlM_cons_of_ok happend []) (ih (h.become (hflush.trans hleaf)) himage)
  | container c inner rest ihinner ihrest =>
    have hflush := h.draft.flush h.container b.deletion b.pending
    have hsound := h.become hflush
    rw [Nest.events, Nest.pour]
    have hfilled := c.filled_advances inner.alt hflush.sound (hflush.hosts h.container)
      fun g d hd hg => inner.pour_advances hhook b.deletion "" hd hg
    have hwhole :
        (Event.start c.span :: (inner.events ++ [Event.stop c.span.kind])).foldlM (push hook) b =
          .ok (b.become (c.shell.filled b.frame (b.draft.flush b.deletion b.frame b.pending)
            inner.alt fun g d => inner.pour hook b.deletion g "" d)) := by
      by_cases hshell : ∃ attrs, c.shell = .image attrs
      · obtain ⟨attrs, hattrs⟩ := hshell
        rw [foldlM_openImage h himage hattrs, hattrs]
        rfl
      · -- Every other container opens a frame, and closes it.
        obtain ⟨hopened, hnew⟩ := hflush.sound.openShell (f := b.frame) (hflush.hosts h.container) c
        have hopen := hsound.openShell_eq himage (not_exists.mp hshell)
        rw [← openSpan_eq] at hopen
        have hinside := ihinner ((hsound.advance hopened).pushFrame hnew) himage
        have hclose := Pours.close c.span.kind hinside (closeSpan_eq _ c)
        rw [foldlM_cons_of_ok (h.push_start himage hopen)]
        refine hclose.trans ?_
        cases hc : c.shell with
        | image attrs => exact absurd ⟨attrs, hc⟩ hshell
        | _ => rfl
    have := Pours.after hwhole (ihrest (h.become (hflush.trans hfilled)) himage)
    rwa [List.cons_append, List.append_assoc] at this
  | part p inner rest ihinner ihrest =>
    have hflush := h.draft.flush h.container b.deletion b.pending
    rw [Nest.events, Nest.pour]
    have hfilled := p.filled_advances hhook hflush.sound (hflush.hosts h.container) fun g d hd hg =>
      inner.pour_advances hhook b.deletion "" hd hg
    have :=
      Pours.after (foldlM_part hhook p inner h himage ihinner)
        (ihrest (h.become (hflush.trans hfilled)) himage)
    rwa [List.cons_append, List.append_assoc] at this

end Builder

/-! ## 3. Documents -/

/-- The tree of a nest, and what the hook has gathered. -/
theorem buildTree_nest {σ : Type} {hook : TableHook σ} (hhook : TableHook.Shapely hook)
    (deletion : Bool) (gathered : σ) (n : Nest) :
    buildTree deletion hook gathered n.events =
      .ok (Builder.markUntitled (n.draft hook deletion gathered).tree,
        (n.draft hook deletion gathered).gathered) := by
  obtain ⟨b, hfold, -, hflush⟩ :=
    Builder.pours_events hhook n (Builder.sound_start deletion gathered) rfl
  rw [buildTree, hfold]
  show (b.flush >>= fun b => .ok (Builder.markUntitled b.tree, b.gathered)) = _
  rw [hflush]
  rfl

end AccessibleMarkdown.Markdown
