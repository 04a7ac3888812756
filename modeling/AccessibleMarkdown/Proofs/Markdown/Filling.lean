import AccessibleMarkdown.Proofs.Markdown.Meaning
import AccessibleMarkdown.Proofs.Tree.Growth

/-!
# Filling a node with content

Content is put below a node piece by piece, text at its end and elements as new last children. What
stands below the node afterwards is the grove of the content, and nothing else has changed but the
place to which its first text went.
-/

namespace AccessibleMarkdown.Markdown

open Builder (appendRun addText addTail)

variable {t u : Tree} {kids : NodeId → List NodeId} {p : NodeId}

/-! ## 1. Text -/

theorem sameLinks_appendRun (t : Tree) (p : NodeId) (run : String) :
    t.SameLinks (appendRun t p run) := by
  rw [appendRun]
  cases t.lastChild? p with
  | none => exact Tree.sameLinks_modify _ _
  | some last => exact Tree.sameLinks_modify _ _

/-- Text, if there is any, at the end of a node. -/
def appendLead (t : Tree) (p : NodeId) : Option String → Tree
  | none => t
  | some run => appendRun t p run

theorem addTail_addTail (e : Element) (a b : String) :
    addTail (addTail e a) b = addTail e (a ++ b) := by
  simp only [addTail, Option.getD_some, String.append_assoc]

theorem addText_addText (e : Element) (a b : String) :
    addText (addText e a) b = addText e (a ++ b) := by
  simp only [addText, Option.getD_some, String.append_assoc]

/-- Two runs at the end of a node are one. -/
theorem appendLead_appendRun (t : Tree) (p : NodeId) (run : String) (lead : Option String) :
    appendLead (appendRun t p run) p lead = appendRun t p (run ++ lead.getD "") := by
  cases lead with
  | none => rw [Option.getD_none, String.append_empty]; rfl
  | some more =>
    have hlast : (appendRun t p run).lastChild? p = t.lastChild? p :=
      congrFun (sameLinks_appendRun t p run).last p
    -- The first run makes no child, so the second goes to the same place.
    show appendRun (appendRun t p run) p more = appendRun t p (run ++ more)
    rw [appendRun, hlast]
    unfold appendRun
    cases t.lastChild? p with
    | none =>
      simp only
      rw [Tree.modify_modify]
      simp only [addText_addText]
    | some last =>
      simp only
      rw [Tree.modify_modify]
      simp only [addTail_addTail]

theorem element?_appendLead_tail {last : NodeId} (hlast : t.lastChild? p = some last)
    (lead : Option String) (q : NodeId) :
    (appendLead t p lead).element? q =
      if q = last then (t.element? q).map fun e => { e with tail := joinText e.tail lead }
      else t.element? q := by
  cases lead with
  | none => simp [appendLead, joinText]
  | some run =>
    rw [appendLead, appendRun, hlast]
    exact Tree.element?_modify last _ q

theorem element?_appendLead_text (hlast : t.lastChild? p = none) (lead : Option String)
    (q : NodeId) :
    (appendLead t p lead).element? q =
      if q = p then (t.element? q).map fun e => { e with text := joinText e.text lead }
      else t.element? q := by
  cases lead with
  | none => simp [appendLead, joinText]
  | some run =>
    rw [appendLead, appendRun, hlast]
    exact Tree.element?_modify p _ q

/-! ## 2. Content -/

/-- Puts content at the end of a node. -/
def Content.addTo : Content → Tree → NodeId → Tree
  | nil, t, _ => t
  | text run rest, t, p => rest.addTo (appendRun t p run) p
  | element e inner rest, t, p => rest.addTo (inner.addTo (t.grow p e) t.size) p

theorem Content.addTo_nil (t : Tree) (p : NodeId) : nil.addTo t p = t := rfl

theorem Content.addTo_element (e : Element) (inner rest : Content) (t : Tree) (p : NodeId) :
    (element e inner rest).addTo t p = rest.addTo (inner.addTo (t.grow p e) t.size) p := rfl

theorem Content.addTo_append (a b : Content) (t : Tree) (p : NodeId) :
    (a ++ b).addTo t p = b.addTo (a.addTo t p) p := by
  show (a.append b).addTo t p = _
  induction a generalizing t with
  | nil => rfl
  | text run rest ih => exact ih _
  | element e inner rest _ ih => exact ih _

/-- `u` is `t` with new last children `ids` of `p`, and with `lead` added to the text before
them. -/
structure Added (t u : Tree) (p : NodeId) (ids : List NodeId) (lead : Option String) : Prop where
  linked : ∃ kids, u.Linked kids
  size_le : t.size ≤ u.size
  new : ∀ id ∈ ids, t.size ≤ id
  parent : ∀ q < t.size, u.parent? q = t.parent? q
  children : ∀ q < t.size, u.children q = if q = p then t.children p ++ ids else t.children q
  element : ∀ q < t.size, u.element? q = (appendLead t p lead).element? q

theorem added_self (h : t.Linked kids) : Added t t p [] none where
  linked := ⟨kids, h⟩
  size_le := Nat.le_refl _
  new _ hid := absurd hid List.not_mem_nil
  parent _ _ := rfl
  children q _ := by
    by_cases hq : q = p
    · rw [if_pos hq, List.append_nil, hq]
    · rw [if_neg hq]
  element _ _ := rfl

theorem Added.appendRun {run : String} {ids : List NodeId} {lead : Option String}
    (h : Added (appendRun t p run) u p ids lead) :
    Added t u p ids (some (run ++ lead.getD "")) := by
  have hs := sameLinks_appendRun t p run
  have hsize := hs.size
  exact {
    linked := h.linked
    size_le := hsize ▸ h.size_le
    new := fun id hid => hsize ▸ h.new id hid
    parent := fun q hq => by rw [h.parent q (hsize ▸ hq), hs.parent]
    children := fun q hq => by rw [h.children q (hsize ▸ hq), hs.children]
    element := fun q hq => by rw [h.element q (hsize ▸ hq), appendLead_appendRun]; rfl }

section
variable {e : Element} {v : Tree} {inner rest : List NodeId} {lead tail : Option String}
  (h : t.Linked kids) (hp : p < t.size) (hinner : Added (t.grow p e) u t.size inner lead)
  (hrest : Added u v p rest tail)
include h hp

theorem children_new : (t.grow p e).children t.size = [] := by
  rw [Tree.children_grow h e hp, if_neg (Nat.ne_of_gt hp)]
  apply List.eq_nil_iff_forall_not_mem.mpr
  intro c hc
  exact Nat.lt_irrefl _ (h.parent_lt (h.mem_children.mp hc))

include hinner

theorem lastChild?_filled : u.lastChild? p = some t.size := by
  obtain ⟨ukids, hu⟩ := hinner.linked
  rw [hu.last, ← hu.children_eq, hinner.children p (Tree.lt_size_grow e hp),
    if_neg (Nat.ne_of_lt hp), Tree.children_grow h e hp, if_pos rfl, List.getLast?_concat]

omit h hp in
theorem size_lt_filled : t.size < u.size :=
  Nat.lt_of_lt_of_le (t.size_lt_grow p e) hinner.size_le

omit h in
theorem element?_filled {q : NodeId} (hq : q < t.size + 1) :
    u.element? q =
      if q = t.size then some { e with text := joinText e.text lead } else t.element? q := by
  -- The new node has no children yet, so the first text inside it is its own.
  have hnone : (t.grow p e).lastChild? t.size = none := by
    rw [Tree.lastChild?_grow e hp, if_neg (Nat.ne_of_gt hp), Tree.lastChild?, Tree.get?_size]; rfl
  rw [hinner.element q (by rwa [Tree.size_grow]), element?_appendLead_text hnone,
    Tree.element?_grow]
  by_cases hn : q = t.size
  · rw [if_pos hn, if_pos hn, if_pos hn]; rfl
  · rw [if_neg hn, if_neg hn, if_neg hn]

theorem children_filled {q : NodeId} (hq : q < t.size + 1) :
    u.children q =
      if q = t.size then inner else if q = p then t.children p ++ [t.size] else t.children q := by
  rw [hinner.children q (by rwa [Tree.size_grow])]
  by_cases hn : q = t.size
  · rw [if_pos hn, if_pos hn, children_new h hp, List.nil_append]
  · rw [if_neg hn, if_neg hn, Tree.children_grow h e hp]

/-- The parent of an old node is old, and that of the new node is `p`. -/
theorem new_of_child {q c : NodeId} (hq : t.size < q) (hc : u.parent? c = some q) : t.size < c := by
  -- Otherwise `c` is old or the new node itself, and then its parent is not beyond the new node.
  by_contra hle
  have hlt : c < (t.grow p e).size := by
    rw [Tree.size_grow]
    exact Nat.lt_succ_of_le (Nat.le_of_not_lt hle)
  rw [hinner.parent c hlt, Tree.parent?_grow] at hc
  by_cases hn : c = t.size
  · rw [if_pos hn, Option.some.injEq] at hc
    exact Nat.lt_asymm hq (hc ▸ hp)
  · rw [if_neg hn] at hc
    exact Nat.lt_asymm hq (h.parent_lt hc)

include hrest

/-- An element with its inside, and then what follows it. -/
theorem Added.element_cons : Added t v p (t.size :: rest) none where
  linked := hrest.linked
  size_le := Nat.le_trans (Nat.le_of_lt (size_lt_filled hinner)) hrest.size_le
  new id hid := by
    rcases List.mem_cons.mp hid with rfl | hid
    · exact Nat.le_refl _
    · exact Nat.le_trans (Nat.le_of_lt (size_lt_filled hinner)) (hrest.new id hid)
  parent q hq := by
    have hq' : q < (t.grow p e).size := Tree.lt_size_grow e hq
    rw [hrest.parent q (Nat.lt_of_lt_of_le hq' hinner.size_le), hinner.parent q hq',
      Tree.parent?_grow, if_neg (Nat.ne_of_lt hq)]
  children q hq := by
    have hq' : q < (t.grow p e).size := Tree.lt_size_grow e hq
    rw [hrest.children q (Nat.lt_of_lt_of_le hq' hinner.size_le),
      children_filled h hp hinner (Nat.lt_succ_of_lt hp),
      children_filled h hp hinner (Nat.lt_succ_of_lt hq),
      if_neg (Nat.ne_of_lt hp), if_neg (Nat.ne_of_lt hq), if_pos rfl, List.append_assoc]
    by_cases hqp : q = p
    · rw [if_pos hqp, if_pos hqp]; rfl
    · rw [if_neg hqp, if_neg hqp, if_neg hqp]
  element q hq := by
    have hq' : q < (t.grow p e).size := Tree.lt_size_grow e hq
    rw [hrest.element q (Nat.lt_of_lt_of_le hq' hinner.size_le),
      element?_appendLead_tail (lastChild?_filled h hp hinner), if_neg (Nat.ne_of_lt hq),
      element?_filled hp hinner (Nat.lt_succ_of_lt hq), if_neg (Nat.ne_of_lt hq)]
    rfl

theorem holds_element_cons {ginner grest : Grove} (hgi : u.Holds inner ginner)
    (hgr : v.Holds rest grest) :
    v.Holds (t.size :: rest)
      (.node { e with text := joinText e.text lead, tail := joinText e.tail tail }
        ginner grest) := by
  have hn := size_lt_filled hinner
  obtain ⟨ukids, hu⟩ := hinner.linked
  refine ⟨?_, ?_, hgr⟩
  · rw [hrest.element _ hn, element?_appendLead_tail (lastChild?_filled h hp hinner), if_pos rfl,
      element?_filled hp hinner (Nat.lt_succ_self _), if_pos rfl]
    rfl
  · rw [hrest.children _ hn, if_neg (Nat.ne_of_gt hp),
      children_filled h hp hinner (Nat.lt_succ_self _), if_pos rfl]
    -- What follows changes the new node and `p`, and neither of them is inside the new node.
    refine hgi.congr (P := fun id => t.size < id ∧ id < u.size) ?_ ?_ ?_ ?_
    · rintro id ⟨hlo, hhi⟩
      rw [hrest.element id hhi, element?_appendLead_tail (lastChild?_filled h hp hinner),
        if_neg (Nat.ne_of_gt hlo)]
    · rintro id ⟨hlo, hhi⟩
      rw [hrest.children id hhi, if_neg (Nat.ne_of_gt (Nat.lt_trans hp hlo))]
    · rintro id ⟨hlo, -⟩ c hc
      have hparent := hu.mem_children.mp hc
      exact ⟨new_of_child h hp hinner hlo hparent, Tree.lt_size_of_parent? hparent⟩
    · intro id hid
      have hnew := hinner.new id hid
      rw [Tree.size_grow] at hnew
      refine ⟨hnew, Tree.lt_size_of_parent? (p := t.size) (hu.mem_children.mp ?_)⟩
      rwa [children_filled h hp hinner (Nat.lt_succ_self _), if_pos rfl]

end

/-- **Filling.** Below the node stands the grove of the content, after what stood there before. -/
theorem Content.exists_added (c : Content) (h : t.Linked kids) (hp : p < t.size) :
    ∃ ids, Added t (c.addTo t p) p ids c.lead ∧ (c.addTo t p).Holds ids c.grove ∧
      (c.addTo t p).size = t.size + c.grove.size := by
  -- On the content, for every tree: the inside of an element is put below the new node, and the
  -- rest below `p` in the tree that this leaves.
  induction c generalizing t kids p with
  | nil => exact ⟨[], added_self h, trivial, rfl⟩
  | text run rest ih =>
    have hs := sameLinks_appendRun t p run
    obtain ⟨ids, hadded, hholds, hsize⟩ := ih (h.sameLinks hs) (p := p) (hs.size ▸ hp)
    exact ⟨ids, hadded.appendRun, hholds, by rw [← hs.size]; exact hsize⟩
  | element e inner rest ihinner ihrest =>
    have hn := t.size_lt_grow p e
    obtain ⟨ids, hinner, hgi, hsi⟩ := ihinner (h.grow e hp) hn
    obtain ⟨ukids, hu⟩ := hinner.linked
    have hpu := Nat.lt_of_lt_of_le (Nat.lt_trans hp hn) hinner.size_le
    obtain ⟨ids', hrest, hgr, hsr⟩ := ihrest hu hpu
    refine ⟨t.size :: ids', .element_cons h hp hinner hrest,
      holds_element_cons h hp hinner hrest hgi hgr, ?_⟩
    show (rest.addTo (inner.addTo (t.grow p e) t.size) p).size = _
    rw [hsr, hsi, Tree.size_grow, grove, Grove.size]
    omega

/-- One element, with what is inside it, is one new last child. -/
theorem Content.added_element (e : Element) (inner : Content) (h : t.Linked kids)
    (hp : p < t.size) :
    Added t ((element e inner nil).addTo t p) p [t.size] none ∧
      ((element e inner nil).addTo t p).Holds [t.size]
        (.node { e with text := joinText e.text inner.lead } inner.grove .nil) ∧
      ((element e inner nil).addTo t p).size = t.size + inner.grove.size + 1 := by
  obtain ⟨ids, hinner, hgrove, hsize⟩ := inner.exists_added (h.grow e hp) (t.size_lt_grow p e)
  obtain ⟨ukids, hu⟩ := hinner.linked
  have hrest := added_self (p := p) hu
  refine ⟨.element_cons h hp hinner hrest, holds_element_cons h hp hinner hrest hgrove trivial, ?_⟩
  show (inner.addTo (t.grow p e) t.size).size = _
  rw [hsize, Tree.size_grow, Nat.add_right_comm]

theorem Content.exists_linked (c : Content) (h : t.Linked kids) (hp : p < t.size) :
    ∃ kids, (c.addTo t p).Linked kids := by
  obtain ⟨ids, hadded, -⟩ := c.exists_added h hp
  exact hadded.linked

theorem Content.size_le_addTo (c : Content) (h : t.Linked kids) (hp : p < t.size) :
    t.size ≤ (c.addTo t p).size := by
  obtain ⟨ids, hadded, -⟩ := c.exists_added h hp
  exact hadded.size_le

end AccessibleMarkdown.Markdown
