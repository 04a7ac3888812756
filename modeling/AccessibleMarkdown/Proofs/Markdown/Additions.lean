import AccessibleMarkdown.Proofs.Markdown.Draft
import AccessibleMarkdown.Proofs.Tree.Session

/-!
# What operations add

An operation of a builder that does not fail adds texts and elements to the tree, and keeps an
account of the table that is open. It leaves the frames, or opens one, or closes one. That is said
here once for each operation, in whatever state it is met and whatever the hook does, so that what
one text and one element keep is kept by them all.
-/

namespace AccessibleMarkdown

namespace Tree

variable {t u : Tree} {p c id : NodeId} {e : Element}

theorem append_ok (h : t.append p e = (u, .ok id)) : id = t.size ∧ u.size = t.size + 1 := by
  rw [append_attach] at h
  obtain ⟨err, hrefused⟩ | hdone := (t.create e).1.attach_cases p t.size
  · rw [hrefused] at h
    cases h
  · rw [hdone] at h
    cases h
    exact ⟨rfl, size_link.trans (t.size_create e)⟩

end Tree

namespace Markdown

variable {σ : Type} {hook : TableHook σ}

theorem bind_eq_ok {ε α β : Type} {x : Except ε α} {k : α → Except ε β} {b : β} :
    x >>= k = .ok b ↔ ∃ a, x = .ok a ∧ k a = .ok b := by
  cases x with
  | error err => exact ⟨nofun, fun ⟨_, h, _⟩ => nomatch h⟩
  | ok a => exact ⟨fun h => ⟨a, rfl, h⟩, fun ⟨_, h, hk⟩ => Except.ok.inj h ▸ hk⟩

namespace Builder

variable {b b' b'' : Builder σ} {p id : NodeId} {e : Element}

/-! ## 1. Texts and elements -/

/-- The tree after texts and elements have been added to `t`, none of them an image. -/
inductive Grown (t : Tree) : Tree → Prop
  | refl : Grown t t
  | text {u : Tree} (h : Grown t u) (p : NodeId) (run : String) : Grown t (appendRun u p run)
  | element {u v : Tree} {p id : NodeId} {e : Element} (h : Grown t u) (he : e.tag ≠ .img)
    (hok : u.append p e = (v, .ok id)) : Grown t v

namespace Grown

variable {t u v : Tree}

theorem trans (h : Grown t u) (h' : Grown u v) : Grown t v := by
  induction h' with
  | refl => exact h
  | text _ p run ih => exact ih.text p run
  | element _ he hok ih => exact ih.element he hok

theorem exists_linked (h : Grown t u) (ht : ∃ kids, t.Linked kids) : ∃ kids, u.Linked kids := by
  induction h with
  | refl => exact ht
  | @text u _ p run ih =>
    obtain ⟨kids, hl⟩ := ih
    exact ⟨kids, hl.sameLinks (sameLinks_appendRun u p run)⟩
  | @element u v p id e _ he hok ih =>
    obtain ⟨kids, hl⟩ := ih
    have hstep : ∃ kids, (u.append p e).1.Linked kids := hl.exists_step (.append p e)
    rwa [hok] at hstep

theorem size_le (h : Grown t u) : t.size ≤ u.size := by
  induction h with
  | refl => exact Nat.le_refl _
  | @text u _ p run ih => exact ih.trans_eq (sameLinks_appendRun u p run).size.symm
  | element _ _ hok ih => exact ih.trans ((Tree.append_ok hok).2 ▸ Nat.le_succ _)

end Grown

/-- The table that is open is there, and so is its body if it has one. -/
def HasTable (b : Builder σ) : Prop :=
  ∀ o ∈ b.table, o.table < b.tree.size ∧ ∀ body ∈ o.body, body < b.tree.size

namespace HasTable

theorem mono (h : b.HasTable) (htable : b'.table = b.table) (hsize : b.tree.size ≤ b'.tree.size) :
    b'.HasTable := by
  intro o ho
  obtain ⟨hlt, hbody⟩ := h o (htable ▸ ho)
  exact ⟨hlt.trans_le hsize, fun body hmem => (hbody body hmem).trans_le hsize⟩

/-- The column and the kind of cells may be others. -/
theorem map (h : b.HasTable) {f : OpenTable → OpenTable} (htable : ∀ o, (f o).table = o.table)
    (hbody : ∀ o, (f o).body = o.body) : HasTable { b with table := b.table.map f } := by
  intro o ho
  obtain ⟨o', ho', rfl⟩ := Option.map_eq_some_iff.mp ho
  have hthere := h o' ho'
  rwa [← htable, ← hbody] at hthere

end HasTable

/-- The tree has been added to, and besides nothing but the account of the open table is another. -/
structure Grows (b b' : Builder σ) : Prop where
  tree : Grown b.tree b'.tree
  gathered : b'.gathered = b.gathered
  frames : b'.frames = b.frames
  pending : b'.pending = b.pending
  image : b'.image = b.image
  table : b.HasTable → b'.HasTable

theorem appendTo_ok (hok : b.appendTo p e = .ok (b', id)) :
    ∃ u, b.tree.append p e = (u, .ok id) ∧ b' = { b with tree := u } := by
  rw [appendTo] at hok
  cases happend : b.tree.append p e with
  | mk u result =>
    rw [happend] at hok
    cases result with
    | error err => cases hok
    | ok made =>
      cases hok
      exact ⟨u, rfl, rfl⟩

theorem lt_size_of_appendTo (hok : b.appendTo p e = .ok (b', id)) : id < b'.tree.size := by
  obtain ⟨u, happend, rfl⟩ := appendTo_ok hok
  obtain ⟨rfl, hsize⟩ := Tree.append_ok happend
  exact hsize ▸ Nat.lt_succ_self _

namespace Grows

/-- The tree has been added to, and nothing else is another. -/
theorem ofTree {u : Tree} (h : Grown b.tree u) : b.Grows { b with tree := u } where
  tree := h
  gathered := rfl
  frames := rfl
  pending := rfl
  image := rfl
  table htable := htable.mono rfl h.size_le

theorem refl (b : Builder σ) : b.Grows b := ofTree .refl

theorem trans (h : b.Grows b') (h' : b'.Grows b'') : b.Grows b'' where
  tree := h.tree.trans h'.tree
  gathered := h'.gathered.trans h.gathered
  frames := h'.frames.trans h.frames
  pending := h'.pending.trans h.pending
  image := h'.image.trans h.image
  table := h'.table ∘ h.table

theorem withTable (h : b.Grows b') {table : Option OpenTable}
    (htable : b'.HasTable → HasTable { b' with table }) : b.Grows { b' with table } :=
  ⟨h.tree, h.gathered, h.frames, h.pending, h.image, htable ∘ h.table⟩

theorem pushFrame (h : b.Grows b') (f : Frame) : (b.pushFrame f).Grows (b'.pushFrame f) :=
  ⟨h.tree, h.gathered, congrArg (f :: ·) h.frames, h.pending, h.image, h.table⟩

theorem appendTo (hok : b.appendTo p e = .ok (b', id)) (he : e.tag ≠ .img) : b.Grows b' := by
  obtain ⟨u, happend, rfl⟩ := appendTo_ok hok
  exact ofTree (.element .refl he happend)

theorem appendText (b : Builder σ) (container : NodeId) (run : String) :
    b.Grows (b.appendText container run) :=
  ofTree (.text .refl container run)

theorem nextCell (b : Builder σ) : b.Grows { b with table := (Builder.nextCell b.table).2 } := by
  have hnext :
      (Builder.nextCell b.table).2 = b.table.map fun o => { o with column := o.column + 1 } := by
    cases b.table <;> rfl
  rw [hnext]
  exact (refl b).withTable fun htable => htable.map (fun _ => rfl) fun _ => rfl

theorem startRow (h : b.Grows b') (inHead : Bool → Bool) : b.Grows (b'.startRow inHead) :=
  h.withTable fun htable => htable.map (fun _ => rfl) fun _ => rfl

theorem segments {segments : List Segment} (hok : segments.foldlM (appendSegment p) b = .ok b') :
    b.Grows b' := by
  -- Each segment is a text or one new element, and the rest meets the builder after it.
  induction segments generalizing b with
  | nil =>
    cases hok
    exact refl _
  | cons segment rest ih =>
    rw [List.foldlM_cons] at hok
    obtain ⟨b₁, hsegment, hok⟩ := bind_eq_ok.mp hok
    refine trans ?_ (ih hok)
    cases segment with
    | text run =>
      cases hsegment
      exact appendText b p run
    | deleted run =>
      rw [appendSegment] at hsegment
      cases happend : b.appendTo p { tag := .del, text := some run } with
      | error err =>
        rw [happend] at hsegment
        cases hsegment
      | ok made =>
        rw [happend] at hsegment
        cases hsegment
        exact appendTo happend (by decide : Tag.del ≠ .img)

/-- The text that was held back has gone into the tree. -/
theorem flush (hok : b.flush = .ok b') : Grows { b with pending := "" } b' := by
  rw [Builder.flush] at hok
  split at hok
  · rename_i hempty
    cases hok
    exact ⟨.refl, rfl, rfl, String.isEmpty_iff.mp hempty, rfl, id⟩
  · dsimp only at hok
    split at hok
    · cases hok
      exact appendText _ _ _
    · exact segments hok

theorem appendLeaf (hok : b.appendLeaf e = .ok b') (he : e.tag ≠ .img) :
    Grows { b with pending := "" } b' := by
  obtain ⟨b₁, hflush, hok⟩ := bind_eq_ok.mp hok
  obtain ⟨⟨b₂, id⟩, happend, hok⟩ := bind_eq_ok.mp hok
  cases hok
  exact (flush hflush).trans (appendTo happend he)

theorem body (hok : b.body = .ok (b', id)) : b.Grows b' := by
  rw [Builder.body] at hok
  split at hok
  · cases hok
    exact refl b
  · rename_i o ho
    split at hok
    · cases hok
      exact refl b
    · obtain ⟨⟨b₁, tbody⟩, happend, hok⟩ := bind_eq_ok.mp hok
      cases hok
      have htbody : id < b₁.tree.size := lt_size_of_appendTo happend
      obtain ⟨u, -, rfl⟩ := appendTo_ok happend
      refine (appendTo happend (by decide +kernel)).withTable fun htable => ?_
      -- The account is the same, but for the body that is there now.
      rintro _ ⟨⟩
      refine ⟨(htable o ho).1, ?_⟩
      rintro _ ⟨⟩
      exact htbody

theorem appendCells {row : NodeId} {n : Nat} (hok : b.appendCells row n = .ok b') : b.Grows b' := by
  induction n generalizing b with
  | zero =>
    cases hok
    exact refl _
  | succ n ih =>
    obtain ⟨⟨b₁, cell⟩, happend, hok⟩ := bind_eq_ok.mp hok
    exact (appendTo happend (by decide)).trans (ih hok)

theorem fillBody {o : OpenTable} (hok : b.fillBody o = .ok b') : b.Grows b' := by
  rw [Builder.fillBody] at hok
  split at hok
  · cases hok
    exact refl b
  · obtain ⟨⟨b₁, tbody⟩, happend, hok⟩ := bind_eq_ok.mp hok
    obtain ⟨⟨b₂, tr⟩, happend', hok⟩ := bind_eq_ok.mp hok
    exact ((appendTo happend (by decide)).trans (appendTo happend' (by decide))).trans
      (appendCells hok)

end Grows

/-! ## 2. Starts -/

/-- The frame `f` has been opened, around the container that was open or a node that is there
now. -/
structure Opens (f : Frame) (b b' : Builder σ) : Prop where
  grows : (b.pushFrame f).Grows b'
  container : f.container = b.frame.container ∨ f.container < b'.tree.size

namespace Opens

theorem node {f : Frame} (h : b.Grows b') (hf : f.container < b'.tree.size) :
    b.Opens f (b'.pushFrame f) :=
  ⟨h.pushFrame f, .inr hf⟩

theorem element (hok : b.openElement e = .ok b') (he : e.tag ≠ .img) : ∃ f, b.Opens f b' := by
  obtain ⟨⟨b₁, id⟩, happend, hok⟩ := bind_eq_ok.mp hok
  cases hok
  exact ⟨_, node (.appendTo happend he) (lt_size_of_appendTo happend)⟩

theorem shell {c : Container} (hshell : ∀ attrs, c.shell ≠ .image attrs)
    (hok : b.openShell c.shell = .ok b') : ∃ f, b.Opens f b' := by
  have hne : ∀ e ∈ c.shell.elements, e.tag ≠ .img :=
    fun e he himg => (c.tag_elements he).1 (himg ▸ List.mem_cons_self)
  cases hc : c.shell with
  | element e =>
    rw [hc] at hok hne
    exact element hok (hne e List.mem_cons_self)
  | verbatim outer e =>
    rw [hc] at hok hne
    obtain ⟨⟨b₁, pre⟩, happend, hok⟩ := bind_eq_ok.mp hok
    obtain ⟨⟨b₂, code⟩, happend', hok⟩ := bind_eq_ok.mp hok
    cases hok
    have houter := Grows.appendTo happend (hne outer List.mem_cons_self)
    have hinner := Grows.appendTo happend' (hne e (List.mem_cons_of_mem _ List.mem_cons_self))
    exact ⟨_, node (houter.trans hinner) (lt_size_of_appendTo happend')⟩
  | image attrs => exact absurd hc (hshell attrs)
  | silent | clear =>
    rw [hc] at hok
    cases hok
    exact ⟨_, .refl _, .inl rfl⟩

/-- A row is made in two steps, and then the open table is put back to its first column. -/
theorem row {b₁ : Builder σ} {inHead : Bool → Bool} (h : b.Grows b₁)
    (hok : (b₁.appendTo p { tag := .tr } >>= fun r =>
      .ok ((r.1.startRow inHead).pushFrame { container := r.2 })) = .ok b') :
      ∃ f, b.Opens f b' := by
  obtain ⟨⟨b₂, tr⟩, happend, hok⟩ := bind_eq_ok.mp hok
  cases hok
  have hrow := h.trans (Grows.appendTo happend (by decide))
  have htr : tr < b₂.tree.size := lt_size_of_appendTo happend
  exact ⟨_, node (hrow.startRow inHead) htr⟩

/-- **Starts.** Every start but that of an image opens one frame. -/
theorem span {s : Span} (hok : b.openSpan s = .ok b') (hs : s.kind ≠ .image) :
    ∃ f, b.Opens f b' := by
  obtain ⟨c, rfl⟩ | ⟨part, rfl⟩ := span_cases s
  · rw [openSpan_eq] at hok
    exact shell (fun attrs hshell => hs (kind_of_image hshell)) hok
  · cases part with
    | table alignments =>
      obtain ⟨⟨b₁, table⟩, happend, hok⟩ := bind_eq_ok.mp hok
      cases hok
      have htable : table < b₁.tree.size := lt_size_of_appendTo happend
      have hopen := node (f := { container := table }) (Grows.appendTo happend (by decide)) htable
      refine ⟨_, hopen.grows.withTable fun _ => ?_, hopen.container⟩
      rintro _ ⟨⟩
      exact ⟨htable, nofun⟩
    | head =>
      obtain ⟨⟨b₁, thead⟩, happend, hok⟩ := bind_eq_ok.mp hok
      exact row (.appendTo happend (by decide)) hok
    | row =>
      obtain ⟨⟨b₁, tbody⟩, hbody, hok⟩ := bind_eq_ok.mp hok
      exact row (.body hbody) hok
    | cell =>
      have hcell : (nextCell b.table).1.tag ≠ .img :=
        fun himg => nextCell_not_void b.table (himg ▸ List.mem_cons_self)
      obtain ⟨f, hopen⟩ := element (b := { b with table := (nextCell b.table).2 }) hok hcell
      exact ⟨f, ((Grows.nextCell b).pushFrame f).trans hopen.grows, hopen.container⟩

end Opens

theorem image_or_ne (s : Span) : (∃ dest title, s = .image dest title) ∨ s.kind ≠ .image := by
  cases s with
  | image dest title => exact .inl ⟨dest, title, rfl⟩
  | _ => exact .inr nofun

/-- The start of an image opens the image, and no frame. -/
theorem openSpan_image_ok {dest title : String} (hok : b.openSpan (.image dest title) = .ok b') :
    ∃ u node,
      b.tree.append b.frame.container (element "img" (("src", dest) :: given "title" title)) =
        (u, .ok node) ∧
      b' = withImage { b with tree := u } { node } := by
  obtain ⟨⟨b₁, node⟩, happend, hok⟩ := bind_eq_ok.mp hok
  obtain ⟨u, htree, rfl⟩ := appendTo_ok happend
  cases hok
  exact ⟨u, node, htree, rfl⟩

/-! ## 3. Ends -/

/-- The builder after a call of the hook. -/
def called (hook : TableHook σ) (parent : NodeId) (b : Builder σ) : Builder σ :=
  { b with
    tree := (hook parent (b.tree, b.gathered)).1
    gathered := (hook parent (b.tree, b.gathered)).2 }

/-- A part has been closed; if it was a table, the hook has been called then. -/
inductive Closes (hook : TableHook σ) (b b' : Builder σ) : Prop
  | plain (h : b.Grows b')
  | table {b₁ : Builder σ} (parent : NodeId) (h : b.Grows b₁) (hcall : b' = b₁.called hook parent)

namespace Closes

theorem ofTable (hok : b.closeTable hook = .ok b') : b.Closes hook b' := by
  rw [closeTable] at hok
  split at hok
  · cases hok
    exact .plain (.refl b)
  · obtain ⟨b₁, hfill, hok⟩ := bind_eq_ok.mp hok
    cases hok
    have hdone : b.Grows { b with table := none } := (Grows.refl b).withTable fun _ => nofun
    exact .table _ (hdone.trans (.fillBody hfill)) rfl

/-- The hook sees the tree and what it has gathered, so the rest is as it was. -/
theorem kept (h : b.Closes hook b') :
    b'.frames = b.frames ∧ b'.pending = b.pending ∧ b'.image = b.image := by
  cases h with
  | plain hgrows => exact ⟨hgrows.frames, hgrows.pending, hgrows.image⟩
  | table parent hgrows hcall =>
    subst hcall
    exact ⟨hgrows.frames, hgrows.pending, hgrows.image⟩

/-- **Ends.** Every end closes one frame, if there is one. -/
theorem span {kind : SpanKind} (hok : closeSpan hook b kind = .ok b') :
    Closes hook { b with frames := b.frames.tail } b' := by
  cases kind with
  | table => exact ofTable hok
  | tableHead =>
    cases hok
    exact .plain ((Grows.refl _).withTable fun htable => htable.map (fun _ => rfl) fun _ => rfl)
  | _ =>
    cases hok
    exact .plain (.refl _)

end Closes

/-! ## 4. Events -/

/-- Events are leaves, starts and ends. -/
theorem event_cases : (event : Event) →
    (∃ l : Leaf, l.event = event) ∨ (∃ s, event = .start s) ∨ ∃ kind, event = .stop kind
  | .start s => .inr (.inl ⟨s, rfl⟩)
  | .stop kind => .inr (.inr ⟨kind, rfl⟩)
  | .text s => .inl ⟨.text s, rfl⟩
  | .softBreak => .inl ⟨.softBreak, rfl⟩
  | .hardBreak => .inl ⟨.hardBreak, rfl⟩
  | .code s => .inl ⟨.code s, rfl⟩
  | .rule => .inl ⟨.rule, rfl⟩
  | .footnoteReference label => .inl ⟨.footnoteReference label, rfl⟩
  | .taskMarker checked => .inl ⟨.taskMarker checked, rfl⟩
  | .html s => .inl ⟨.html s, rfl⟩
  | .inlineHtml s => .inl ⟨.inlineHtml s, rfl⟩
  | .inlineMath s => .inl ⟨.inlineMath s, rfl⟩
  | .displayMath s => .inl ⟨.displayMath s, rfl⟩

/-- Inside an image, an event changes what is known of it, or is its end and writes down its
text. -/
theorem alt_ok {image : OpenImage} (himage : b.image = some image) {event : Event}
    (hok : push hook b event = .ok b') :
    (∃ image', b' = b.withImage image') ∨
      b' = { b with tree := b.tree.modify image.node (·.set "alt" image.alt), image := none } := by
  have hsame : b = b.withImage image := by
    rw [withImage, ← himage]
  rw [push, himage] at hok
  cases hok
  cases event with
  | text | code | softBreak | hardBreak => exact .inl ⟨_, rfl⟩
  | start s =>
    cases s with
    | image => exact .inl ⟨_, rfl⟩
    | _ => exact .inl ⟨image, hsame⟩
  | stop kind =>
    cases kind with
    | image =>
      rw [pushAlt]
      split
      · exact .inl ⟨_, rfl⟩
      · exact .inr rfl
    | _ => exact .inl ⟨image, hsame⟩
  | _ => exact .inl ⟨image, hsame⟩

theorem ne_img_of_sense {l : Leaf} (h : l.sense = .element e) : e.tag ≠ .img := by
  cases l with
  | hardBreak | code | rule | footnoteReference | taskMarker =>
    cases h
    exact nofun
  | _ => cases h

section
variable (himage : b.image = none)
include himage

/-- A leaf is held back, or comes after the text that was. -/
theorem leaf_ok {l : Leaf} (hok : push hook b l.event = .ok b') :
    (∃ s, b' = b.hold s) ∨ Grows { b with pending := "" } b' := by
  rw [push_leaf hook himage l] at hok
  cases hsense : l.sense with
  | data s =>
    rw [hsense] at hok
    cases hok
    exact .inl ⟨s, rfl⟩
  | element e =>
    rw [hsense] at hok
    exact .inr (.appendLeaf hok (ne_img_of_sense hsense))

theorem start_ok {s : Span} (hok : push hook b (.start s) = .ok b') :
    ∃ b₁, Grows { b with pending := "" } b₁ ∧ b₁.openSpan s = .ok b' := by
  rw [push_eq himage] at hok
  obtain ⟨b₁, hflush, hok⟩ := bind_eq_ok.mp hok
  exact ⟨b₁, .flush hflush, hok⟩

theorem stop_ok {kind : SpanKind} (hok : push hook b (.stop kind) = .ok b') :
    ∃ b₁, Grows { b with pending := "" } b₁ ∧
      Closes hook { b₁ with frames := b₁.frames.tail } b' := by
  rw [push_eq himage] at hok
  obtain ⟨b₁, hflush, hok⟩ := bind_eq_ok.mp hok
  exact ⟨b₁, .flush hflush, .span hok⟩

end

end Builder

end Markdown

end AccessibleMarkdown
