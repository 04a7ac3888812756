import AccessibleMarkdown.Proofs.Markdown.Draft

/-!
# Building never fails

What a builder does to its tree it does to a draft, so nothing it does can fail as long as the draft
is sound and the containers of its frames may have children. Every event leaves a builder of which
this is true, whatever events came before it: ends without a start, starts without an end, and parts
of tables outside of them.
-/

namespace AccessibleMarkdown.Markdown

namespace Builder

variable {σ : Type} {hook : TableHook σ} {b : Builder σ}

/-! ## 1. Sound builders -/

def draft (b : Builder σ) : Draft σ := { tree := b.tree, gathered := b.gathered, table := b.table }

def withDraft (b : Builder σ) (d : Draft σ) : Builder σ :=
  { b with tree := d.tree, gathered := d.gathered, table := d.table }

@[simp] theorem draft_withDraft (b : Builder σ) (d : Draft σ) : (b.withDraft d).draft = d := rfl

/-- The draft is sound, and the container of every frame may have children. -/
structure Sound (b : Builder σ) : Prop where
  draft : b.draft.Sound
  frames : ∀ f ∈ b.frames, b.tree.Hosts f.container

theorem sameShape_markUntitled (t : Tree) : t.SameShape (markUntitled t) := by
  unfold markUntitled
  split
  · split
    · exact .refl t
    · exact t.sameShape_modify _ fun _ => rfl
  · exact .refl t

theorem sound_start (deletion : Bool) (gathered : σ) : (start deletion gathered).Sound where
  draft := { tree := .withRoot (by decide), table := fun _ h => nomatch h }
  frames _ hf := absurd hf List.not_mem_nil

namespace Sound

theorem container (h : b.Sound) : b.tree.Hosts b.frame.container := by
  unfold Builder.frame
  cases hframes : b.frames with
  | nil => exact h.draft.tree.root
  | cons f rest => exact h.frames f (by rw [hframes]; exact List.mem_cons_self)

theorem ready (h : b.Sound) (himage : b.image = none) : b.Ready where
  linked := h.draft.tree.linked
  container_lt := h.container.lt_size
  image := himage

theorem advance (h : b.Sound) {d : Draft σ} (hd : b.draft.Advances d) : (b.withDraft d).Sound where
  draft := hd.sound
  frames f hf := hd.hosts (h.frames f hf)

theorem pushFrame (h : b.Sound) {f : Frame} (hf : b.tree.Hosts f.container) :
    (b.pushFrame f).Sound where
  draft := h.draft
  frames g hg := by
    obtain rfl | hg := List.mem_cons.mp hg
    · exact hf
    · exact h.frames g hg

theorem popFrame (h : b.Sound) : Sound { b with frames := b.frames.tail } where
  draft := h.draft
  frames f hf := h.frames f (List.mem_of_mem_tail hf)

theorem fill (h : b.Sound) {P : Element → Prop} {c : Content} (hc : c.Flat P) :
    (b.fill c).Sound := by
  have hput := h.draft.put h.container hc
  exact ⟨hput.sound, fun f hf => hput.hosts (h.frames f hf)⟩

theorem appendTo_eq (h : b.Sound) {p : NodeId} (hp : b.tree.Hosts p) (e : Element) :
    b.appendTo p e = .ok (b.withDraft (b.draft.grow p e), b.tree.size) := by
  obtain ⟨kids, hl⟩ := h.draft.tree.linked
  exact Builder.appendTo_eq hl hp.lt_size e

/-! ## 2. Starts -/

/-- Every container but an image opens a frame. -/
theorem openShell_eq (h : b.Sound) (himage : b.image = none) {shell : Container.Shell}
    (hshell : ∀ attrs, shell ≠ .image attrs) :
    b.openShell shell = .ok ((b.withDraft (shell.opened b.frame b.draft).1).pushFrame
      (shell.opened b.frame b.draft).2) := by
  cases shell with
  | element e => exact openElement_eq (h.ready himage) e
  | verbatim outer e =>
    rw [openShell_verbatim (h.ready himage), Tree.size_grow]
    rfl
  | image attrs => exact absurd rfl (hshell attrs)
  | silent => rfl
  | clear => rfl

theorem openShell_image (h : b.Sound) (himage : b.image = none) (attrs : List (String × String)) :
    b.openShell (.image attrs) = .ok ((b.withDraft
      (b.draft.grow b.frame.container { tag := .img, attrs := .ofList attrs })).withImage
        { node := b.tree.size }) := by
  rw [openShell, append_eq (h.ready himage)]
  rfl

theorem body_eq (h : b.Sound) :
    b.body =
      .ok (b.withDraft (b.draft.body b.frame.container).1, (b.draft.body b.frame.container).2) := by
  have htbody : element "tbody" [] = { tag := .tbody } := element_eq (by decide +kernel) []
  rw [Builder.body]
  cases htable : b.table with
  | none =>
    rw [Draft.body_outside _ htable]
    rfl
  | some o =>
    cases hbody : o.body with
    | some id =>
      rw [Draft.body_there _ htable hbody]
      simp only [hbody]
      rfl
    | none =>
      rw [Draft.body_missing _ htable hbody]
      simp only [hbody, htbody]
      rw [h.appendTo_eq (h.draft.table o htable).table]
      rfl

/-- The start of a part of a table opens a frame in it. -/
theorem openSpan_part (h : b.Sound) (himage : b.image = none) (part : Part) :
    b.openSpan part.span = .ok ((b.withDraft (part.opened b.frame.container b.draft).1).pushFrame
      { container := (part.opened b.frame.container b.draft).2 }) := by
  have hcontainer := h.container
  cases part with
  | table alignments =>
    show (b.append { tag := .table } >>= _) = _
    rw [append_eq (h.ready himage)]
    rfl
  | head =>
    -- Two nodes: the group, and in it the row that hosts the cells.
    have hhead := h.draft.grow hcontainer { tag := .thead }
    have hnew : (b.tree.grow b.frame.container { tag := .thead }).Hosts b.tree.size :=
      Tree.hosts_grow _ _ (by decide)
    show (b.append { tag := .thead } >>= _) = _
    rw [append_eq (h.ready himage)]
    show (appendTo (b.withDraft (b.draft.grow b.frame.container { tag := .thead })) b.tree.size
        { tag := .tr } >>= _) = _
    rw [(h.advance hhead).appendTo_eq hnew]
    show Except.ok _ = _
    rw [show (b.withDraft (b.draft.grow b.frame.container { tag := .thead })).tree.size =
      b.tree.size + 1 from Tree.size_grow _]
    rfl
  | row =>
    obtain ⟨hbody, hhosts⟩ := h.draft.body hcontainer
    show (b.body >>= _) = _
    rw [h.body_eq]
    show (appendTo (b.withDraft (b.draft.body b.frame.container).1)
        (b.draft.body b.frame.container).2 { tag := .tr } >>= _) = _
    rw [(h.advance hbody).appendTo_eq hhosts]
    rfl
  | cell =>
    have hnext : (nextCell b.table).2 = b.table.map fun o => { o with column := o.column + 1 } := by
      cases b.table <;> rfl
    have hready : Ready { b with table := (nextCell b.table).2 } :=
      ⟨h.draft.tree.linked, hcontainer.lt_size, himage⟩
    show openElement { b with table := (nextCell b.table).2 } (nextCell b.table).1 = _
    rw [openElement_eq hready, hnext]
    rfl

/-! ## 3. Ends -/

theorem appendCells_eq (h : b.Sound) {row : NodeId} (hrow : b.tree.Hosts row) (n : Nat) :
    b.appendCells row n = .ok (b.withDraft (b.draft.put (cells n) row)) := by
  -- The row is there in every draft that extends the first one.
  induction n generalizing b with
  | zero => rfl
  | succ n ih =>
    have hcell := h.draft.grow hrow { tag := .td }
    rw [Builder.appendCells, h.appendTo_eq hrow]
    exact ih (h.advance hcell) (hcell.hosts hrow)

theorem fillBody_eq (h : b.Sound) {o : OpenTable} (ho : b.tree.Hosts o.table) :
    b.fillBody o = .ok (b.withDraft (b.draft.fillBody o)) := by
  unfold Builder.fillBody Draft.fillBody
  split
  · rfl
  · have hbody := h.draft.grow ho { tag := .tbody }
    have hnew : (b.tree.grow o.table { tag := .tbody }).Hosts b.tree.size :=
      Tree.hosts_grow _ _ (by decide)
    have hrow := hbody.sound.grow hnew { tag := .tr }
    have hnew' : ((b.tree.grow o.table { tag := .tbody }).grow b.tree.size { tag := .tr }).Hosts
        (b.tree.grow o.table { tag := .tbody }).size := Tree.hosts_grow _ _ (by decide)
    rw [h.appendTo_eq ho]
    show (appendTo (b.withDraft (b.draft.grow o.table { tag := .tbody })) b.tree.size
        { tag := .tr } >>= _) = _
    rw [(h.advance hbody).appendTo_eq hnew, draft_withDraft]
    show appendCells _ (b.tree.grow o.table { tag := .tbody }).size _ = _
    rw [((h.advance hbody).advance hrow).appendCells_eq hnew', Tree.size_grow]
    rfl

theorem closeTable_eq (h : b.Sound) :
    b.closeTable hook = .ok (b.withDraft (b.draft.closeTable hook)) := by
  unfold Builder.closeTable Draft.closeTable
  cases htable : b.table with
  | none =>
    simp only [show b.draft.table = none from htable]
    rfl
  | some o =>
    have hclosed : Sound { b with table := none } :=
      ⟨⟨h.draft.tree, fun _ h => nomatch h⟩, h.frames⟩
    simp only [show b.draft.table = some o from htable]
    rw [hclosed.fillBody_eq (h.draft.table o htable).table]
    rfl

theorem closeSpan_part (h : b.Sound) (part : Part) :
    closeSpan hook b part.span.kind =
      .ok (withDraft { b with frames := b.frames.tail } (part.closed hook b.draft)) := by
  cases part with
  | table alignments => exact h.popFrame.closeTable_eq
  | head => rfl
  | row => rfl
  | cell => rfl

/-! ## 4. Events -/

theorem openSpan (h : b.Sound) (himage : b.image = none) (s : Span) :
    ∃ b', b.openSpan s = .ok b' ∧ b'.Sound := by
  obtain ⟨c, rfl⟩ | ⟨part, rfl⟩ := span_cases s
  · rw [openSpan_eq]
    -- An image has no frame: until its end the builder is inside it.
    by_cases hshell : ∃ attrs, c.shell = .image attrs
    · obtain ⟨attrs, hattrs⟩ := hshell
      rw [hattrs]
      exact ⟨_, h.openShell_image himage attrs, (h.advance (h.draft.grow h.container _)).1,
        (h.advance (h.draft.grow h.container _)).2⟩
    · obtain ⟨hopened, hnew⟩ := h.draft.openShell (f := b.frame) h.container c
      refine ⟨_, h.openShell_eq himage (not_exists.mp hshell), ?_⟩
      exact (h.advance hopened).pushFrame hnew
  · obtain ⟨hopened, hnew⟩ := h.draft.opened h.container part
    exact ⟨_, h.openSpan_part himage part, (h.advance hopened).pushFrame hnew⟩

theorem closeSpan (h : b.Sound) (hhook : TableHook.Shapely hook) (kind : SpanKind) :
    ∃ b', closeSpan hook b kind = .ok b' ∧ b'.Sound := by
  cases kind with
  | table => exact ⟨_, h.popFrame.closeTable_eq, h.popFrame.advance (h.draft.closeTable hhook)⟩
  | tableHead => exact ⟨_, rfl, h.popFrame.advance (h.draft.closed hhook .head)⟩
  | _ => exact ⟨_, rfl, h.popFrame⟩

theorem flush (h : b.Sound) : ∃ b', b.flush = .ok b' ∧ b'.Sound ∧ b'.image = b.image := by
  obtain ⟨kids, hl⟩ := h.draft.tree.linked
  exact ⟨_, flush_linked hl h.container.lt_size, h.fill (b.mode.flat_run _), rfl⟩

theorem hold (h : b.Sound) (text : String) : (b.hold text).Sound := by
  rw [hold_eq]
  exact ⟨h.draft, h.frames⟩

theorem appendLeaf (h : b.Sound) (himage : b.image = none) (e : Element) :
    ∃ b', b.appendLeaf e = .ok b' ∧ b'.Sound := by
  obtain ⟨b', hflush, hsound, himage'⟩ := h.flush
  rw [himage] at himage'
  refine ⟨_, ?_, hsound.advance (hsound.draft.grow hsound.container e)⟩
  rw [Builder.appendLeaf, hflush]
  show (b'.append e >>= _) = _
  rw [append_eq (hsound.ready himage')]
  rfl

/-- Inside an image nothing is built, and its end changes its own element only. -/
theorem pushAlt (h : b.Sound) (image : OpenImage) (event : Event) :
    (b.pushAlt image event).Sound := by
  unfold Builder.pushAlt
  split
  all_goals try exact ⟨h.draft, h.frames⟩
  split
  · exact ⟨h.draft, h.frames⟩
  · have hs := b.tree.sameShape_modify image.node (f := (·.set "alt" image.alt)) fun _ => rfl
    have hdone :=
      h.advance (h.draft.advances (h.draft.tree.sameShape hs) (.of_sameShape hs) b.gathered)
    exact ⟨hdone.draft, hdone.frames⟩

/-- **Step.** A sound builder takes every event, and is sound after it. -/
theorem push (h : b.Sound) (hhook : TableHook.Shapely hook) (event : Event) :
    ∃ b', push hook b event = .ok b' ∧ b'.Sound := by
  unfold Builder.push
  split
  · exact ⟨_, rfl, h.pushAlt _ event⟩
  · rename_i himage
    cases event with
    | start span =>
      obtain ⟨b₁, hflush, hsound, himage₁⟩ := h.flush
      obtain ⟨b₂, hopen, hsound₂⟩ := hsound.openSpan (himage₁.trans himage) span
      exact ⟨b₂, by rw [pushEvent, hflush]; exact hopen, hsound₂⟩
    | stop kind =>
      obtain ⟨b₁, hflush, hsound, -⟩ := h.flush
      obtain ⟨b₂, hclose, hsound₂⟩ := hsound.closeSpan hhook kind
      exact ⟨b₂, by rw [pushEvent, hflush]; exact hclose, hsound₂⟩
    | text s => exact ⟨_, rfl, h.hold s⟩
    | softBreak => exact ⟨_, rfl, h.hold "\n"⟩
    | code s => exact h.appendLeaf himage _
    | hardBreak => exact h.appendLeaf himage _
    | rule => exact h.appendLeaf himage _
    | footnoteReference label => exact h.appendLeaf himage _
    | taskMarker checked => exact h.appendLeaf himage _
    | html | inlineHtml | inlineMath | displayMath => exact ⟨b, rfl, h⟩

/-- **Run.** So it takes any events whatever, one after the other. -/
theorem run (h : b.Sound) (hhook : TableHook.Shapely hook) (events : List Event) :
    ∃ b', events.foldlM (Builder.push hook) b = .ok b' ∧ b'.Sound := by
  induction events generalizing b with
  | nil => exact ⟨b, rfl, h⟩
  | cons event events ih =>
    obtain ⟨b₁, hpush, hsound⟩ := h.push hhook event
    obtain ⟨b', hrun, hsound'⟩ := ih hsound
    exact ⟨b', by rw [foldlM_cons_of_ok hpush, hrun], hsound'⟩

/-! ## 5. Documents -/

theorem finish (h : b.Sound) : ∃ t gathered, b.finish = .ok (t, gathered) ∧ t.Whole := by
  obtain ⟨b', hflush, hsound, -⟩ := h.flush
  have hfinish : b.finish = .ok (markUntitled b'.tree, b'.gathered) := by
    rw [Builder.finish, hflush]
    rfl
  exact ⟨_, _, hfinish, hsound.draft.tree.sameShape (sameShape_markUntitled b'.tree)⟩

end Sound

end Builder

end AccessibleMarkdown.Markdown
