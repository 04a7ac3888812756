import AccessibleMarkdown.Proofs.Markdown.Additions

/-!
# What a builder stands on

A hook may do more than write attributes: it may add nodes, and hang them where it likes. As long as
it uses the operations of trees, the links stay sound and no node goes away, so the containers of a
builder are still there, and the table that is open. That is what every event keeps, whatever came
before it; and so no event fails.
-/

namespace AccessibleMarkdown

namespace Tree

variable {t u : Tree} {p c : NodeId} {e : Element}

theorem size_le_step (t : Tree) (s : TreeStep) : t.size ≤ (t.step s).size := by
  cases s with
  | create e => exact Nat.le_of_lt (t.size_lt_create e)
  | createElement tag => exact Nat.le_of_lt (t.size_lt_create _)
  | appendChild parent child => exact Nat.le_of_eq (t.size_attach parent child).symm
  | append parent e =>
    exact Nat.le_of_lt ((t.size_lt_create e).trans_eq (size_attach _ parent t.size).symm)
  | edit id f => exact Nat.le_of_eq (sameLinks_modify id f).size.symm

end Tree

namespace Markdown

variable {σ : Type} {hook : TableHook σ}

/-! ## 1. Hooks -/

/-- The hook keeps the links of a tree sound, and takes no node away. -/
def TableHook.Careful (hook : TableHook σ) : Prop :=
  ∀ parent (t : Tree) gathered, (∃ kids, t.Linked kids) →
    (∃ kids, (hook parent (t, gathered)).1.Linked kids) ∧
    t.size ≤ (hook parent (t, gathered)).1.size

/-- A hook that does to trees what their operations do is careful. -/
theorem TableHook.careful_of_steps
    (h : ∀ parent t gathered, ∃ steps : List TreeStep,
      (hook parent (t, gathered)).1 = steps.foldl Tree.step t) :
    hook.Careful := by
  intro parent t gathered ht
  obtain ⟨steps, hsteps⟩ := h parent t gathered
  rw [hsteps]
  clear hsteps
  induction steps generalizing t with
  | nil => exact ⟨ht, Nat.le_refl _⟩
  | cons s steps ih =>
    obtain ⟨kids, hl⟩ := ht
    obtain ⟨hlinked, hsize⟩ := ih (t.step s) (hl.exists_step s)
    exact ⟨hlinked, (t.size_le_step s).trans hsize⟩

theorem TableHook.careful_of_sameLinks
    (h : ∀ parent (t : Tree) gathered, t.SameLinks (hook parent (t, gathered)).1) :
    hook.Careful := by
  rintro parent t gathered ⟨kids, hl⟩
  exact ⟨⟨kids, hl.sameLinks (h parent t gathered)⟩, Nat.le_of_eq (h parent t gathered).size.symm⟩

namespace Builder

variable {b b' : Builder σ} {fs : List Frame} {p id : NodeId} {e : Element}

/-- The tree is linked, and has the containers of the frames `fs`. -/
structure Stands (fs : List Frame) (b : Builder σ) : Prop where
  linked : ∃ kids, b.tree.Linked kids
  frames : b.frames = fs
  lt_size : ∀ f ∈ fs, f.container < b.tree.size

theorem stands_start (deletion : Bool) (gathered : σ) : (start deletion gathered).Stands [] where
  linked := ⟨_, Tree.linked_withRoot _⟩
  frames := rfl
  lt_size := nofun

namespace Stands

/-- A builder stands as well on a larger tree. -/
theorem mono (h : b.Stands fs) (hlinked : ∃ kids, b'.tree.Linked kids)
    (hsize : b.tree.size ≤ b'.tree.size) (hframes : b'.frames = b.frames) : b'.Stands fs where
  linked := hlinked
  frames := hframes.trans h.frames
  lt_size f hf := Nat.lt_of_lt_of_le (h.lt_size f hf) hsize

theorem container_lt (h : b.Stands fs) : b.frame.container < b.tree.size := by
  obtain ⟨kids, hl⟩ := h.linked
  rw [Builder.frame, h.frames]
  cases hfs : fs with
  | nil => exact hl.root_lt
  | cons f rest => exact h.lt_size f (by rw [hfs]; exact List.mem_cons_self)

theorem ready (h : b.Stands fs) (himage : b.image = none) : b.Ready :=
  ⟨h.linked, h.container_lt, himage⟩

theorem popFrame (h : b.Stands fs) : Stands fs.tail { b with frames := b.frames.tail } where
  linked := h.linked
  frames := congrArg List.tail h.frames
  lt_size f hf := h.lt_size f (List.mem_of_mem_tail hf)

theorem fill (h : b.Stands fs) (c : Content) : (b.fill c).Stands fs := by
  obtain ⟨kids, hl⟩ := h.linked
  exact h.mono (c.exists_linked hl h.container_lt) (c.size_le_addTo hl h.container_lt) rfl

theorem flush_eq (h : b.Stands fs) : b.flush = .ok (b.fill (b.mode.run b.pending)) := by
  obtain ⟨kids, hl⟩ := h.linked
  exact flush_linked hl h.container_lt

/-- What adds to the tree leaves the builder standing. -/
theorem grows (h : b.Stands fs) (hb : b.Grows b') : b'.Stands fs :=
  h.mono (hb.tree.exists_linked h.linked) hb.tree.size_le hb.frames

theorem opens (h : b.Stands fs) {f : Frame} (hb : b.Opens f b') : b'.Stands (f :: fs) := by
  have hsize : b.tree.size ≤ b'.tree.size := hb.grows.tree.size_le
  constructor
  case linked => exact hb.grows.tree.exists_linked h.linked
  case frames => exact hb.grows.frames.trans (congrArg (f :: ·) h.frames)
  case lt_size =>
    refine List.forall_mem_cons.mpr ⟨?_, fun g hg => Nat.lt_of_lt_of_le (h.lt_size g hg) hsize⟩
    obtain hsame | hnew := hb.container
    · exact hsame ▸ Nat.lt_of_lt_of_le h.container_lt hsize
    · exact hnew

theorem closes (h : b.Stands fs) (hhook : hook.Careful) (hb : b.Closes hook b') : b'.Stands fs := by
  cases hb with
  | plain hgrows => exact h.grows hgrows
  | table parent hgrows hcall =>
    subst hcall
    have h₁ := h.grows hgrows
    obtain ⟨hlinked, hsize⟩ := hhook parent _ _ h₁.linked
    exact h₁.mono hlinked hsize rfl

/-! ## 2. Events -/

/-- So does the start of an image, which opens no frame. -/
theorem openImage (h : b.Stands fs) {dest title : String}
    (hok : b.openSpan (.image dest title) = .ok b') : b'.Stands fs := by
  obtain ⟨kids, hl⟩ := h.linked
  obtain ⟨u, node, happend, rfl⟩ := openSpan_image_ok hok
  have hstep :=
    hl.exists_step
      (.append b.frame.container (element "img" (("src", dest) :: given "title" title)))
  have hsize : b.tree.size ≤ u.size := (Tree.append_ok happend).2 ▸ Nat.le_succ _
  rw [Tree.step, happend] at hstep
  exact h.mono hstep hsize rfl

theorem openSpan (h : b.Stands fs) {s : Span} (hok : b.openSpan s = .ok b') :
    ∃ fs', b'.Stands fs' := by
  obtain ⟨dest, title, rfl⟩ | hs := image_or_ne s
  · exact ⟨fs, h.openImage hok⟩
  · obtain ⟨f, hopen⟩ := Opens.span hok hs
    exact ⟨f :: fs, h.opens hopen⟩

theorem emptied (h : b.Stands fs) : Stands fs { b with pending := "" } :=
  ⟨h.linked, h.frames, h.lt_size⟩

theorem hold (h : b.Stands fs) (text : String) : (b.hold text).Stands fs := by
  rw [hold_eq]
  exact ⟨h.linked, h.frames, h.lt_size⟩

/-- **Step.** An event that does not fail leaves a builder that stands. -/
theorem push (h : b.Stands fs) (hhook : hook.Careful) {event : Event}
    (hok : push hook b event = .ok b') : ∃ fs', b'.Stands fs' := by
  cases himage : b.image with
  | some image =>
    obtain ⟨image', rfl⟩ | rfl := alt_ok himage hok
    · exact ⟨fs, h.linked, h.frames, h.lt_size⟩
    · obtain ⟨kids, hl⟩ := h.linked
      have hs := Tree.sameLinks_modify (t := b.tree) image.node (·.set "alt" image.alt)
      exact ⟨fs, h.mono ⟨kids, hl.sameLinks hs⟩ (Nat.le_of_eq hs.size.symm) rfl⟩
  | none =>
    obtain ⟨l, rfl⟩ | ⟨s, rfl⟩ | ⟨kind, rfl⟩ := event_cases event
    · obtain ⟨text, rfl⟩ | hgrows := leaf_ok himage hok
      · exact ⟨fs, h.hold text⟩
      · exact ⟨fs, h.emptied.grows hgrows⟩
    · obtain ⟨b₁, hgrows, hok⟩ := start_ok himage hok
      exact (h.emptied.grows hgrows).openSpan hok
    · obtain ⟨b₁, hgrows, hclose⟩ := stop_ok himage hok
      exact ⟨fs.tail, (h.emptied.grows hgrows).popFrame.closes hhook hclose⟩

/-- **Run.** So does a run of events. -/
theorem run (h : b.Stands fs) (hhook : hook.Careful) {events : List Event}
    (hok : events.foldlM (Builder.push hook) b = .ok b') : ∃ fs', b'.Stands fs' := by
  induction events generalizing b fs with
  | nil =>
    cases hok
    exact ⟨fs, h⟩
  | cons event events ih =>
    rw [List.foldlM_cons] at hok
    obtain ⟨b₁, hpush, hok⟩ := bind_eq_ok.mp hok
    obtain ⟨fs₁, h₁⟩ := h.push hhook hpush
    exact ih h₁ hok

/-! ## 3. Nothing fails -/

end Stands

end Builder

end Markdown

end AccessibleMarkdown
